import Commission.Library.PrefixCode
import Mathlib.Data.List.TakeWhile
import Mathlib.Data.Int.Order.Basic
import Mathlib.Order.Basic

/-! Decimal numerals, and `std::from_chars` for a signed integer type in base 10: a minus
sign is the only sign, nothing is skipped, and the longest run of digits is taken. -/
namespace FromChars

def digitValue (c : Char) : ℕ := c.toNat - '0'.toNat

def decimalValue (digits : List Char) : ℕ :=
  digits.foldl (fun value c => 10 * value + digitValue c) 0

/-- One or more digits, with a minus sign or without, and the value they stand for. -/
inductive Numeral : List Char → ℤ → Prop where
  | plain {digits : List Char} (hSome : digits ≠ []) (hDigits : ∀ c ∈ digits, c.isDigit = true) :
      Numeral digits (decimalValue digits)
  | minus {digits : List Char} (hSome : digits ≠ []) (hDigits : ∀ c ∈ digits, c.isDigit = true) :
      Numeral ('-' :: digits) (-decimalValue digits)

/-- The digits of `s` from its start, which have to give a value from `lo` to `hi`, and
where they end. `none` is an error code. -/
def digitsFrom (lo hi : ℤ) (sign : ℤ) (s : List Char) : Option (ℤ × List Char) :=
  let digits := s.takeWhile Char.isDigit
  let value := sign * decimalValue digits
  -- no digits: `invalid_argument`, a value outside the type: `result_out_of_range`
  if digits = [] then none
  else if lo ≤ value ∧ value ≤ hi then some (value, s.dropWhile Char.isDigit)
  else none

/-- `std::from_chars` for a type with the values from `lo` to `hi`: the value and the
characters from `ptr` on. -/
def fromChars (lo hi : ℤ) : List Char → Option (ℤ × List Char)
  | '-' :: s => digitsFrom lo hi (-1) s
  | s => digitsFrom lo hi 1 s

/-- The rest does not go on with a digit. -/
def Ends (rest : List Char) : Prop := ∀ c ∈ rest.head?, c.isDigit = false

variable {lo hi value : ℤ} {s digits rest : List Char}

theorem takeWhile_append_of_ends (hDigits : ∀ c ∈ digits, c.isDigit = true) (hRest : Ends rest) :
    (digits ++ rest).takeWhile Char.isDigit = digits ∧
      (digits ++ rest).dropWhile Char.isDigit = rest := by
  cases rest with
  | nil =>
      rw [List.append_nil, List.takeWhile_eq_self_iff.mpr hDigits,
        List.dropWhile_eq_nil_iff.mpr hDigits]
      exact ⟨rfl, rfl⟩
  | cons c rest =>
      have hStop : c.isDigit = false := hRest c rfl
      rw [List.takeWhile_append_of_pos hDigits, List.dropWhile_append_of_pos hDigits,
        List.takeWhile_cons_of_neg (by simp [hStop]), List.dropWhile_cons_of_neg (by simp [hStop]),
        List.append_nil]
      exact ⟨rfl, rfl⟩

theorem ends_dropWhile (s : List Char) : Ends (s.dropWhile Char.isDigit) := by
  intro c hc
  have hHead := List.head?_dropWhile_not Char.isDigit s
  rw [Option.mem_def.mp hc] at hHead
  exact hHead

theorem digitsFrom_eq_some_iff {sign : ℤ} :
    digitsFrom lo hi sign s = some (value, rest) ↔
      ∃ digits, s = digits ++ rest ∧ digits ≠ [] ∧ (∀ c ∈ digits, c.isDigit = true) ∧ Ends rest ∧
        value = sign * decimalValue digits ∧ lo ≤ value ∧ value ≤ hi := by
  constructor
  · intro h
    simp only [digitsFrom] at h
    split at h
    · cases h
    next hSome =>
      split at h
      next hFits =>
        cases h
        refine ⟨_, List.takeWhile_append_dropWhile.symm, hSome, ?_, ends_dropWhile s, rfl, hFits⟩
        intro c hc
        exact List.mem_takeWhile_imp hc
      next => cases h
  · rintro ⟨digits, rfl, hSome, hDigits, hRest, rfl, hFits⟩
    obtain ⟨hTake, hDrop⟩ := takeWhile_append_of_ends hDigits hRest
    simp only [digitsFrom, hTake, hDrop]
    rw [if_neg hSome, if_pos hFits]

/-- What `from_chars` recognises: a numeral which the next character does not continue,
with a value of the type. -/
theorem fromChars_eq_some_iff :
    fromChars lo hi s = some (value, rest) ↔
      ∃ numeral, s = numeral ++ rest ∧ Numeral numeral value ∧ Ends rest ∧ lo ≤ value ∧
        value ≤ hi := by
  constructor
  · intro h
    rw [fromChars.eq_def] at h
    split at h
    · obtain ⟨digits, rfl, hSome, hDigits, hRest, rfl, hFits⟩ := digitsFrom_eq_some_iff.mp h
      rw [Int.neg_one_mul] at hFits ⊢
      exact ⟨_, rfl, .minus hSome hDigits, hRest, hFits⟩
    · obtain ⟨digits, rfl, hSome, hDigits, hRest, rfl, hFits⟩ := digitsFrom_eq_some_iff.mp h
      rw [Int.one_mul] at hFits ⊢
      exact ⟨_, rfl, .plain hSome hDigits, hRest, hFits⟩
  · rintro ⟨numeral, rfl, hNumeral, hRest, hFits⟩
    cases hNumeral with
    | @minus digits hSome hDigits =>
        apply digitsFrom_eq_some_iff.mpr
        exact ⟨digits, rfl, hSome, hDigits, hRest, (Int.neg_one_mul _).symm, hFits⟩
    | plain hSome hDigits =>
        obtain ⟨first, more, rfl⟩ := List.exists_cons_of_ne_nil hSome
        have hFirst : first ≠ '-' := by
          rintro rfl
          exact absurd (hDigits '-' List.mem_cons_self) (by decide)
        rw [List.cons_append, fromChars]
        · apply digitsFrom_eq_some_iff.mpr
          exact ⟨first :: more, rfl, hSome, hDigits, hRest, (Int.one_mul _).symm, hFits⟩
        · rintro rest' hStart
          exact hFirst (List.cons.inj hStart).1

/-- A whole string is read exactly if it is a numeral. -/
theorem fromChars_eq_some_nil_iff :
    fromChars lo hi s = some (value, []) ↔ Numeral s value ∧ lo ≤ value ∧ value ≤ hi := by
  have hEnd : Ends [] := by
    intro c hc
    cases hc
  rw [fromChars_eq_some_iff]
  constructor
  · rintro ⟨numeral, rfl, hNumeral, -, hFits⟩
    rw [List.append_nil]
    exact ⟨hNumeral, hFits⟩
  · rintro ⟨hNumeral, hFits⟩
    exact ⟨s, (List.append_nil s).symm, hNumeral, hEnd, hFits⟩

theorem Numeral.ne_nil (h : Numeral s value) : s ≠ [] := by
  cases h with
  | plain hSome _ => exact hSome
  | minus _ _ => exact List.cons_ne_nil _ _

/-- A numeral begins with a digit or a minus sign. -/
theorem Numeral.head?_ne (h : Numeral s value) {mark : Char} (hMark : mark.isDigit = false)
    (hMinus : mark ≠ '-') : s.head? ≠ some mark := by
  intro hHead
  cases h with
  | plain hSome hDigits =>
      rw [hDigits mark (List.mem_of_head? hHead)] at hMark
      cases hMark
  | minus _ _ => exact hMinus (Option.some_inj.mp hHead).symm

section Decimal

/-- How `printf` writes a signed number. -/
def decimal (value : ℤ) : List Char :=
  let digits := Nat.toDigits 10 value.natAbs
  if value < 0 then '-' :: digits else digits

theorem numeral_decimal (value : ℤ) : Numeral (decimal value) value := by
  have hSome : Nat.toDigits 10 value.natAbs ≠ [] := Nat.toDigits_ne_nil
  have hDigits : ∀ c ∈ Nat.toDigits 10 value.natAbs, c.isDigit = true :=
    fun c hc => Nat.isDigit_of_mem_toDigits (by decide) (by decide) hc
  have hValue : decimalValue (Nat.toDigits 10 value.natAbs) = value.natAbs :=
    Nat.ofDigitChars_ten_toDigits
  rw [decimal]
  split
  · have hNumeral := Numeral.minus hSome hDigits
    rwa [hValue, show -(value.natAbs : ℤ) = value by omega] at hNumeral
  · have hNumeral := Numeral.plain hSome hDigits
    rwa [hValue, show (value.natAbs : ℤ) = value by omega] at hNumeral

/-- What is written can be read. -/
theorem fromChars_decimal (hLow : lo ≤ value) (hHigh : value ≤ hi) (hRest : Ends rest) :
    fromChars lo hi (decimal value ++ rest) = some (value, rest) :=
  fromChars_eq_some_iff.mpr ⟨_, rfl, numeral_decimal value, hRest, hLow, hHigh⟩

/-- A number which a mark ends. -/
theorem decimal_prefixFree {mark : Char} (hMark : mark.isDigit = false) :
    PrefixCode.PrefixFree fun value => decimal value ++ [mark] := by
  intro value value' rest rest' hSame
  rw [List.append_assoc, List.append_assoc] at hSame
  have hEnds (rest : List Char) : Ends ([mark] ++ rest) := by
    intro c hc
    cases hc
    exact hMark
  have hRead := fromChars_decimal (min_le_left value value') (le_max_left value value') (hEnds rest)
  rw [hSame, fromChars_decimal (min_le_right value value') (le_max_right value value') (hEnds rest'),
    Option.some_inj, Prod.mk.injEq] at hRead
  exact ⟨hRead.1.symm, (List.cons.inj hRead.2).2.symm⟩

end Decimal

end FromChars
