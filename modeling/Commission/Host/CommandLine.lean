import Commission.Host.Args
import Mathlib.Data.List.Forall2
import Mathlib.Data.List.Nodup

/-! The command lines of the usage text, and which command lines `Args::parse` takes. -/
namespace Commission

open FromChars

/-- An option with its argument. -/
abbrev OptionGroup := CliOption × Argument

/-- The entries of `argv` which the groups stand for. -/
def render (groups : List OptionGroup) : List Argument :=
  groups.flatMap fun group => [group.1.name, group.2]

/-- The arguments of all groups of an option. -/
def argumentsOf (o : CliOption) (groups : List OptionGroup) : List Argument :=
  (groups.filter fun group => group.1 = o).map Prod.snd

/-- A device number. -/
def DeviceNumeral (s : Argument) (device : ℤ) : Prop :=
  Numeral s device ∧ 0 ≤ device ∧ device ≤ 2 ^ 31 - 1

/-- `<device>,<device>,...` with at least one device. -/
inductive DeviceList : Argument → List ℤ → Prop where
  | last {s : Argument} {device : ℤ} (hDevice : DeviceNumeral s device) : DeviceList s [device]
  | more {s rest : Argument} {device : ℤ} {devices : List ℤ} (hDevice : DeviceNumeral s device)
      (hRest : DeviceList rest devices) : DeviceList (s ++ ',' :: rest) (device :: devices)

/-- What the loop over the devices takes: the list may also end before a device. -/
inductive LooseList : Argument → List ℤ → Prop where
  | done : LooseList [] []
  | last {s : Argument} {device : ℤ} (hDevice : DeviceNumeral s device) : LooseList s [device]
  | more {s rest : Argument} {device : ℤ} {devices : List ℤ} (hDevice : DeviceNumeral s device)
      (hRest : LooseList rest devices) : LooseList (s ++ ',' :: rest) (device :: devices)

/-- The numeral of a value which an option allows. -/
def NumeralIn (lo hi : ℤ) (s : Argument) (value : ℤ) : Prop :=
  Numeral s value ∧ lo ≤ value ∧ value ≤ hi

/-- An address is split at its last colon. -/
def Address (s : Argument) (address : HostService) : Prop :=
  s = address.host ++ ':' :: address.service ∧ ':' ∉ address.service

/-- An option which occurs at most once leaves the value of its argument. -/
def Field {α : Type} (WellFormed : Argument → α → Prop) (arguments : List Argument)
    (out : Option α) : Prop :=
  (arguments = [] ∧ out = none) ∨
    ∃ s value, arguments = [s] ∧ WellFormed s value ∧ out = some value

/-- The groups make a command line with the given values; `list` says which device lists
there are. -/
@[mk_iff]
structure Describes (list : Argument → List ℤ → Prop) (groups : List OptionGroup) (args : Args) :
    Prop where
  devices : ∃ lists, List.Forall₂ list (argumentsOf .device groups) lists ∧
    lists.flatten.Nodup ∧
    args.devices = if lists.flatten = [] ∧ argumentsOf .server groups = [] then [0]
      else lists.flatten
  threads : Field (NumeralIn 1 1024) (argumentsOf .threads groups) args.threads
  client : Field Address (argumentsOf .client groups) args.client
  server : Field Address (argumentsOf .server groups) args.server
  output : Field (fun s value => value = s) (argumentsOf .output groups) args.outputFile
  start : Field (NumeralIn (-2 ^ 63) (2 ^ 63 - 1)) (argumentsOf .start groups) args.startSeed
  size : Field (NumeralIn 0 (2 ^ 31 - 1)) (argumentsOf .size groups) args.minSize
  alone : argumentsOf .client groups ≠ [] → argumentsOf .threads groups = [] ∧
    argumentsOf .output groups = [] ∧ argumentsOf .size groups = []
  started : argumentsOf .start groups ≠ [] → args.devices ≠ []

/-- The command line is one of the usage text, with these values. -/
def Documented (argv : List Argument) (args : Args) : Prop :=
  ∃ groups, argv.tail = render groups ∧ Describes DeviceList groups args

/-! One argument at a time. -/

theorem splitAddress_eq_some_iff {s : Argument} {address : HostService} :
    splitAddress s = some address ↔ Address s address := by
  constructor
  · intro h
    rw [splitAddress] at h
    split at h
    · cases h
    next colon host hSplit =>
      cases h
      have hColon : colon = ':' := by
        have hHead := List.head?_dropWhile_not (· ≠ ':') s.reverse
        rw [hSplit] at hHead
        simpa using hHead
      subst hColon
      constructor
      · have hWhole := List.takeWhile_append_dropWhile (p := (· ≠ ':')) (l := s.reverse)
        rw [hSplit] at hWhole
        have hBack := congrArg List.reverse hWhole
        rw [List.reverse_append, List.reverse_cons, List.reverse_reverse, List.append_assoc] at hBack
        exact hBack.symm
      · intro hMem
        have hKept := List.mem_takeWhile_imp (List.mem_reverse.mp hMem)
        simp at hKept
  · rintro ⟨rfl, hService⟩
    have hLast : ∀ c ∈ address.service.reverse, decide (c ≠ ':') = true := by
      intro c hc
      have hNe : c ≠ ':' := by
        rintro rfl
        exact hService (List.mem_reverse.mp hc)
      exact decide_eq_true hNe
    rw [splitAddress, List.reverse_append, List.reverse_cons, List.append_assoc,
      List.dropWhile_append_of_pos hLast, List.takeWhile_append_of_pos hLast]
    simp

theorem looseList_nil_iff {devices : List ℤ} : LooseList [] devices ↔ devices = [] := by
  constructor
  · intro h
    generalize hs : ([] : Argument) = s at h
    cases h with
    | done => rfl
    | last hDevice => exact absurd hs.symm hDevice.1.ne_nil
    | more hDevice hRest => simp at hs
  · rintro rfl
    exact .done

/-- One pass of the loop over the devices. -/
theorem looseList_iff {s : Argument} (hs : s ≠ []) {devices : List ℤ} :
    LooseList s devices ↔
      ∃ device ptr later, fromCharsInt s = some (device, ptr) ∧ 0 ≤ device ∧
        (ptr = [] ∨ ptr.head? = some ',') ∧ LooseList ptr.tail later ∧
        devices = device :: later := by
  constructor
  · intro h
    cases h with
    | done => exact absurd rfl hs
    | @last _ device hDevice =>
        obtain ⟨hNumeral, hNonneg, hMax⟩ := hDevice
        have hRead := fromChars_eq_some_nil_iff.mpr ⟨hNumeral, (by omega : -2 ^ 31 ≤ device), hMax⟩
        exact ⟨device, [], [], hRead, hNonneg, .inl rfl, .done, rfl⟩
    | @more numeral rest device later hDevice hRest =>
        obtain ⟨hNumeral, hNonneg, hMax⟩ := hDevice
        have hEnds : Ends (',' :: rest) := by
          intro c hc
          cases hc
          decide
        have hRead := fromChars_eq_some_iff.mpr
          ⟨numeral, rfl, hNumeral, hEnds, (by omega : -2 ^ 31 ≤ device), hMax⟩
        exact ⟨device, ',' :: rest, later, hRead, hNonneg, .inr rfl, hRest, rfl⟩
  · rintro ⟨device, ptr, later, hRead, hNonneg, hNext, hRest, rfl⟩
    obtain ⟨numeral, rfl, hNumeral, -, -, hMax⟩ := fromChars_eq_some_iff.mp hRead
    cases ptr with
    | nil =>
        obtain rfl := looseList_nil_iff.mp hRest
        rw [List.append_nil]
        exact .last ⟨hNumeral, hNonneg, hMax⟩
    | cons c rest =>
        have hComma : c = ',' := by simpa using hNext
        subst hComma
        exact .more ⟨hNumeral, hNonneg, hMax⟩ hRest

theorem deviceLoop_nil (passes : ℕ) (devices : List ℤ) :
    deviceLoop passes [] devices = some devices := by
  cases passes <;> rfl

/-- A pass which goes on. -/
theorem deviceLoop_cons_iff {passes : ℕ} {c : Char} {rest : Argument} {devices result : List ℤ} :
    deviceLoop (passes + 1) (c :: rest) devices = some result ↔
      ∃ device ptr, fromCharsInt (c :: rest) = some (device, ptr) ∧ 0 ≤ device ∧
        device ∉ devices ∧ (ptr = [] ∨ ptr.head? = some ',') ∧
        deviceLoop passes ptr.tail (devices ++ [device]) = some result := by
  rw [deviceLoop.eq_def]
  simp only
  cases fromCharsInt (c :: rest) with
  | none => simp
  | some pass =>
      obtain ⟨device, ptr⟩ := pass
      simp only [Option.some_inj, Prod.mk.injEq]
      constructor
      · intro h
        split at h
        · cases h
        next hTest =>
          simp only [not_or, not_and_or, not_not, Int.not_lt] at hTest
          exact ⟨device, ptr, ⟨rfl, rfl⟩, hTest.1, hTest.2.1, hTest.2.2, h⟩
      · rintro ⟨device', ptr', ⟨rfl, rfl⟩, hNonneg, hFresh, hNext, h⟩
        have hTest : ¬(device < 0 ∨ device ∈ devices ∨ (ptr ≠ [] ∧ ptr.head? ≠ some ',')) := by
          simp only [not_or, not_and_or, not_not, Int.not_lt]
          exact ⟨hNonneg, hFresh, hNext⟩
        rw [if_neg hTest]
        exact h

theorem nodup_append_singleton_iff {devices : List ℤ} {device : ℤ} :
    (devices ++ [device]).Nodup ↔ devices.Nodup ∧ device ∉ devices := by
  rw [← List.concat_eq_append, List.nodup_concat]
  exact and_comm

theorem deviceLoop_eq_some_iff {passes : ℕ} {first : Argument} {devices result : List ℤ}
    (hPasses : first.length ≤ passes) (hDevices : devices.Nodup) :
    deviceLoop passes first devices = some result ↔
      ∃ more, LooseList first more ∧ (devices ++ more).Nodup ∧ result = devices ++ more := by
  induction passes generalizing first devices with
  | zero =>
      obtain rfl := List.eq_nil_of_length_eq_zero (Nat.le_zero.mp hPasses)
      simp [deviceLoop_nil, looseList_nil_iff, hDevices, eq_comm]
  | succ passes ih =>
      cases first with
      | nil => simp [deviceLoop_nil, looseList_nil_iff, hDevices, eq_comm]
      | cons c rest =>
          rw [deviceLoop_cons_iff]
          have hShorter {device : ℤ} {ptr : List Char}
              (hRead : fromCharsInt (c :: rest) = some (device, ptr)) :
              ptr.tail.length ≤ passes := by
            obtain ⟨numeral, hSplit, hNumeral, -⟩ := fromChars_eq_some_iff.mp hRead
            have hLength := congrArg List.length hSplit
            have hSome := List.length_pos_iff.mpr hNumeral.ne_nil
            rw [List.length_append] at hLength
            rw [List.length_tail]
            omega
          constructor
          · rintro ⟨device, ptr, hRead, hNonneg, hFresh, hNext, hLoop⟩
            have hMore := nodup_append_singleton_iff.mpr ⟨hDevices, hFresh⟩
            obtain ⟨later, hLater, hNodup, rfl⟩ := (ih (hShorter hRead) hMore).mp hLoop
            rw [List.append_assoc] at hNodup ⊢
            exact ⟨device :: later, (looseList_iff (List.cons_ne_nil c rest)).mpr
              ⟨device, ptr, later, hRead, hNonneg, hNext, hLater, rfl⟩, hNodup, rfl⟩
          · rintro ⟨more, hList, hNodup, rfl⟩
            obtain ⟨device, ptr, later, hRead, hNonneg, hNext, hLater, rfl⟩ :=
              (looseList_iff (List.cons_ne_nil c rest)).mp hList
            have hSplit : devices ++ device :: later = devices ++ [device] ++ later :=
              List.append_cons devices device later
            rw [hSplit] at hNodup
            have hMore : (devices ++ [device]).Nodup := (List.nodup_append.mp hNodup).1
            have hFresh := (nodup_append_singleton_iff.mp hMore).2
            exact ⟨device, ptr, hRead, hNonneg, hFresh, hNext,
              (ih (hShorter hRead) hMore).mpr ⟨later, hLater, hNodup, hSplit⟩⟩

section Outcome

variable {ε α β : Type}

theorem bind_eq_ok_iff {first : Except ε α} {next : α → Except ε β} {result : β} :
    first >>= next = .ok result ↔ ∃ value, first = .ok value ∧ next value = .ok result := by
  cases first with
  | error _ => simp [bind, Except.bind]
  | ok value => simp [bind, Except.bind]

end Outcome

theorem checkDuplicate_eq_ok_iff {α : Type} {out : Option α} {o : CliOption} {done : Unit} :
    checkDuplicate out.isSome o = .ok done ↔ out = none := by
  cases out <;> simp [checkDuplicate]

theorem parseArgumentInt_eq_ok_iff {parser : List Char → Option (ℤ × List Char)} {s : Argument}
    {out : Option ℤ} {test : ℤ → Bool} {o : CliOption} {value : ℤ} :
    parseArgumentInt parser (some s) out test o = .ok value ↔
      out = none ∧ parser s = some (value, []) ∧ test value = true := by
  simp only [parseArgumentInt, bind_eq_ok_iff, checkDuplicate_eq_ok_iff, checkArgument,
    Except.ok.injEq, exists_const, exists_eq_left']
  apply and_congr_right
  intro _
  cases parser s with
  | none => simp
  | some read =>
      obtain ⟨val, ptr⟩ := read
      cases ptr with
      | cons c rest => simp
      | nil =>
          simp only [Option.some_inj, Prod.mk.injEq, and_true]
          split <;> grind

theorem fromCharsInt_iff {s : Argument} {value : ℤ} :
    fromCharsInt s = some (value, []) ↔ NumeralIn (-2 ^ 31) (2 ^ 31 - 1) s value :=
  fromChars_eq_some_nil_iff

theorem fromCharsInt64_iff {s : Argument} {value : ℤ} :
    fromCharsInt64 s = some (value, []) ↔ NumeralIn (-2 ^ 63) (2 ^ 63 - 1) s value :=
  fromChars_eq_some_nil_iff

/-! The branches of the options. -/

section Branch

variable {s : Argument} {o : CliOption} {args' : Args} {lo hi : ℤ}

/-- An option with a number. -/
theorem intBranch_eq_ok_iff {parser : List Char → Option (ℤ × List Char)} {out : Option ℤ}
    {test : ℤ → Bool} {set : ℤ → Args}
    (hParser : ∀ value, parser s = some (value, []) ∧ test value = true ↔ NumeralIn lo hi s value) :
    (do
      let value ← parseArgumentInt parser (some s) out test o
      .ok (set value)) = .ok args' ↔
      out = none ∧ ∃ value, NumeralIn lo hi s value ∧ args' = set value := by
  simp only [bind_eq_ok_iff, parseArgumentInt_eq_ok_iff, hParser, Except.ok.injEq]
  constructor
  · rintro ⟨value, ⟨hFirst, hNumeral⟩, rfl⟩
    exact ⟨hFirst, value, hNumeral, rfl⟩
  · rintro ⟨hFirst, value, hNumeral, rfl⟩
    exact ⟨value, ⟨hFirst, hNumeral⟩, rfl⟩

/-- An option with an address. -/
theorem addressBranch_eq_ok_iff {out : Option HostService} {set : HostService → Args} :
    (do
      checkDuplicate out.isSome o
      let argVal ← checkArgument (some s) o
      match splitAddress argVal with
      | none => .error (.invalidAddress o)
      | some address => .ok (set address)) = .ok args' ↔
      out = none ∧ ∃ value, Address s value ∧ args' = set value := by
  simp only [bind_eq_ok_iff, checkDuplicate_eq_ok_iff, checkArgument, Except.ok.injEq,
    exists_const, exists_eq_left', ← splitAddress_eq_some_iff]
  apply and_congr_right
  intro _
  cases splitAddress s with
  | none => simp
  | some address => simp [eq_comm]

end Branch

/-- What the branch of an option does with its argument. -/
theorem applyOption_eq_ok_iff {args args' : Args} {o : CliOption} {s : Argument} :
    applyOption args o (some s) = .ok args' ↔
      match o with
      | .device => ∃ devices, deviceLoop s.length s args.devices = some devices ∧
          args' = { args with devices }
      | .threads => args.threads = none ∧ ∃ value, NumeralIn 1 1024 s value ∧
          args' = { args with threads := some value }
      | .client => args.client = none ∧ ∃ value, Address s value ∧
          args' = { args with client := some value }
      | .server => args.server = none ∧ ∃ value, Address s value ∧
          args' = { args with server := some value }
      | .output => args.outputFile = none ∧ args' = { args with outputFile := some s }
      | .start => args.startSeed = none ∧ ∃ value, NumeralIn (-2 ^ 63) (2 ^ 63 - 1) s value ∧
          args' = { args with startSeed := some value }
      | .size => args.minSize = none ∧ ∃ value, NumeralIn 0 (2 ^ 31 - 1) s value ∧
          args' = { args with minSize := some value } := by
  cases o with
  | device =>
      simp only [applyOption, bind_eq_ok_iff, checkArgument, Except.ok.injEq, exists_eq_left']
      cases deviceLoop s.length s args.devices with
      | none => simp
      | some devices => simp [eq_comm]
  | threads =>
      apply intBranch_eq_ok_iff
      intro value
      simp only [fromCharsInt_iff, NumeralIn, decide_eq_true_eq]
      constructor
      · rintro ⟨⟨hNumeral, -, -⟩, hBounds⟩
        exact ⟨hNumeral, hBounds⟩
      · rintro ⟨hNumeral, hLo, hHi⟩
        exact ⟨⟨hNumeral, by omega, by omega⟩, hLo, hHi⟩
  | client => exact addressBranch_eq_ok_iff
  | server => exact addressBranch_eq_ok_iff
  | output =>
      simp only [applyOption, bind_eq_ok_iff, checkDuplicate_eq_ok_iff, checkArgument,
        Except.ok.injEq, exists_const, exists_eq_left']
      exact and_congr_right fun _ => eq_comm
  | start =>
      apply intBranch_eq_ok_iff
      intro value
      simp only [fromCharsInt64_iff, and_true]
  | size =>
      apply intBranch_eq_ok_iff
      intro value
      simp only [fromCharsInt_iff, NumeralIn, decide_eq_true_eq]
      constructor
      · rintro ⟨⟨hNumeral, -, hHi⟩, hLo⟩
        exact ⟨hNumeral, hLo, hHi⟩
      · rintro ⟨hNumeral, hLo, hHi⟩
        exact ⟨⟨hNumeral, by omega, hHi⟩, hLo⟩

end Commission
