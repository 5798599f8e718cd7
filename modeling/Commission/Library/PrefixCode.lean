import Mathlib.Data.List.Basic
import Mathlib.Logic.Function.Basic

/-! Codes whose words can be told apart at the front of any text, rows of such words, and rows
which are divided by a word of their own. -/
namespace PrefixCode

variable {α β σ : Type*}

def PrefixFree (code : α → List σ) : Prop :=
  ∀ a b rest rest', code a ++ rest = code b ++ rest' → a = b ∧ rest = rest'

namespace PrefixFree

variable {code : α → List σ}

theorem append (hCode : PrefixFree code) {code' : β → List σ} (hCode' : PrefixFree code') :
    PrefixFree fun pair : α × β => code pair.1 ++ code' pair.2 := by
  intro pair pair' rest rest' hSame
  rw [List.append_assoc, List.append_assoc] at hSame
  obtain ⟨hFirst, hSame⟩ := hCode _ _ _ _ hSame
  obtain ⟨hSecond, hRest⟩ := hCode' _ _ _ _ hSame
  exact ⟨Prod.ext hFirst hSecond, hRest⟩

/-- One more word, with which no other word begins. -/
theorem option (hCode : PrefixFree code) {mark : σ} (hSome : ∀ a, code a ≠ [])
    (hMark : ∀ a, (code a).head? ≠ some mark) :
    PrefixFree fun o : Option α => o.elim [mark] code := by
  have hApart (a : α) (rest rest' : List σ) : [mark] ++ rest ≠ code a ++ rest' := by
    intro hSame
    refine hMark a ?_
    rw [← List.head?_append_of_ne_nil _ (hSome a), ← hSame]
    rfl
  intro o o' rest rest' hSame
  cases o with
  | none =>
      cases o' with
      | none => exact ⟨rfl, (List.cons.inj hSame).2⟩
      | some b => exact absurd hSame (hApart b rest rest')
  | some a =>
      cases o' with
      | none => exact absurd hSame.symm (hApart a rest' rest)
      | some b =>
          obtain ⟨rfl, hRest⟩ := hCode a b _ _ hSame
          exact ⟨rfl, hRest⟩

/-- A row of words can be read in one way only. -/
theorem flatMap_injective (hCode : PrefixFree code) (hSome : ∀ a, code a ≠ []) :
    Function.Injective fun words : List α => words.flatMap code := by
  intro words words' hSame
  dsimp only at hSame
  induction words generalizing words' with
  | nil =>
      cases words' with
      | nil => rfl
      | cons b rest' =>
          rw [List.flatMap_nil, List.flatMap_cons, eq_comm, List.append_eq_nil_iff] at hSame
          exact absurd hSame.1 (hSome b)
  | cons a rest ih =>
      cases words' with
      | nil =>
          rw [List.flatMap_nil, List.flatMap_cons, List.append_eq_nil_iff] at hSame
          exact absurd hSame.1 (hSome a)
      | cons b rest' =>
          rw [List.flatMap_cons, List.flatMap_cons] at hSame
          obtain ⟨rfl, hRest⟩ := hCode a b _ _ hSame
          rw [ih hRest]

end PrefixFree

/-- Rows one after the other, with a mark in front of each. -/
def marked (rows : List (List α)) : List (Option α) := rows.flatMap fun row => none :: row.map some

theorem marked_cons (row : List α) (rows : List (List α)) :
    marked (row :: rows) = none :: (row.map some ++ marked rows) := rfl

/-- What follows a row does not go on with it. -/
theorem head?_marked (rows : List (List α)) (a : α) : (marked rows).head? ≠ some (some a) := by
  cases rows with
  | nil => simp [marked]
  | cons row rows => simp [marked_cons]

theorem map_some_append_inj {row row' : List α} {rest rest' : List (Option α)}
    (hRest : ∀ a, rest.head? ≠ some (some a)) (hRest' : ∀ a, rest'.head? ≠ some (some a))
    (hSame : row.map some ++ rest = row'.map some ++ rest') : row = row' ∧ rest = rest' := by
  induction row generalizing row' with
  | nil =>
      cases row' with
      | nil => exact ⟨rfl, hSame⟩
      | cons b later' =>
          refine absurd ?_ (hRest b)
          rw [List.map_nil, List.nil_append] at hSame
          rw [hSame]
          rfl
  | cons a later ih =>
      cases row' with
      | nil =>
          refine absurd ?_ (hRest' a)
          rw [List.map_nil, List.nil_append] at hSame
          rw [← hSame]
          rfl
      | cons b later' =>
          rw [List.map_cons, List.map_cons, List.cons_append, List.cons_append, List.cons.injEq,
            Option.some_inj] at hSame
          obtain ⟨hRow, hRest⟩ := ih hSame.2
          rw [hSame.1, hRow]
          exact ⟨rfl, hRest⟩

theorem marked_injective : Function.Injective (marked (α := α)) := by
  intro rows rows' hSame
  induction rows generalizing rows' with
  | nil =>
      cases rows' with
      | nil => rfl
      | cons row' rest' => cases hSame
  | cons row rest ih =>
      cases rows' with
      | nil => cases hSame
      | cons row' rest' =>
          rw [marked_cons, marked_cons, List.cons.injEq] at hSame
          obtain ⟨hRow, hRest⟩ :=
            map_some_append_inj (head?_marked rest) (head?_marked rest') hSame.2
          rw [hRow, ih hRest]

end PrefixCode
