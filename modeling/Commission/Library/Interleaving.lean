import Mathlib.Algebra.BigOperators.Group.Finset.Piecewise

/-! Runs of a system whose next step is chosen from outside: by a scheduler, by
a peer, or by the operating system. -/
namespace Interleaving

section Run

variable {State Event : Type*} (step : State → Event → Option State)

/-- The state after the events, if each of them can happen in its turn. -/
def run (s : State) : List Event → Option State
  | [] => some s
  | event :: rest => (step s event).bind fun s' => run s' rest

/-- A condition holds at every step of the run, of the state before it and its
event. -/
def Along (P : State → Event → Prop) (s : State) : List Event → Prop
  | [] => True
  | event :: rest => P s event ∧ ∀ s', step s event = some s' → Along P s' rest

variable {step} {s s' : State} {event : Event} {events : List Event}

theorem run_cons {rest : List Event} :
    run step s (event :: rest) = some s' ↔
      ∃ middle, step s event = some middle ∧ run step middle rest = some s' :=
  Option.bind_eq_some_iff

theorem run_append (first second : List Event) :
    run step s (first ++ second) = (run step s first).bind fun middle => run step middle second := by
  induction first generalizing s with
  | nil => rfl
  | cons event rest ih =>
      simp only [List.cons_append, run, Option.bind_assoc]
      congr 1
      funext middle
      exact ih

/-- What every step preserves, every run preserves. -/
theorem run_invariant (Inv : State → Prop)
    (hStep : ∀ s event s', Inv s → step s event = some s' → Inv s') (hInv : Inv s)
    (hRun : run step s events = some s') : Inv s' := by
  induction events generalizing s with
  | nil =>
      cases hRun
      exact hInv
  | cons event rest ih =>
      obtain ⟨middle, hFirst, hRest⟩ := run_cons.mp hRun
      exact ih (hStep s event middle hInv hFirst) hRest

/-- The same where the steps preserve it only under a condition which the run
meets throughout. -/
theorem run_invariant_along (Inv : State → Prop) {P : State → Event → Prop}
    (hStep : ∀ s event s', Inv s → P s event → step s event = some s' → Inv s') (hInv : Inv s)
    (hAlong : Along step P s events) (hRun : run step s events = some s') : Inv s' := by
  induction events generalizing s with
  | nil =>
      cases hRun
      exact hInv
  | cons event rest ih =>
      obtain ⟨middle, hFirst, hRest⟩ := run_cons.mp hRun
      exact ih (hStep s event middle hInv hAlong.1 hFirst) (hAlong.2 middle hFirst) hRest

/-- What holds for an event in every state holds wherever the event comes. -/
theorem along_of_forall {P : State → Event → Prop} (hAll : ∀ event ∈ events, ∀ s, P s event) :
    Along step P s events := by
  induction events generalizing s with
  | nil => trivial
  | cons event rest ih =>
      refine ⟨hAll event (List.mem_cons_self ..) s, fun s' _ => ih fun later hLater => ?_⟩
      exact hAll later (List.mem_cons_of_mem _ hLater)

theorem Along.cons {P : State → Event → Prop} {rest : List Event} (hHere : P s event)
    (hFirst : step s event = some s') (hRest : Along step P s' rest) :
    Along step P s (event :: rest) := by
  refine ⟨hHere, fun other hOther => ?_⟩
  cases hFirst.symm.trans hOther
  exact hRest

theorem Along.append {P : State → Event → Prop} {first second : List Event}
    (hFirst : Along step P s first)
    (hSecond : ∀ middle, run step s first = some middle → Along step P middle second) :
    Along step P s (first ++ second) := by
  induction first generalizing s with
  | nil => exact hSecond s rfl
  | cons event rest ih =>
      refine ⟨hFirst.1, fun s' hStep => ih (hFirst.2 s' hStep) fun middle hRest => ?_⟩
      exact hSecond middle (run_cons.mpr ⟨s', hStep, hRest⟩)

theorem Along.imp {P Q : State → Event → Prop} (hImp : ∀ s event, P s event → Q s event)
    (hAlong : Along step P s events) : Along step Q s events := by
  induction events generalizing s with
  | nil => trivial
  | cons event rest ih =>
      exact ⟨hImp s event hAlong.1, fun s' hFirst => ih (hAlong.2 s' hFirst)⟩

/-- A condition which follows from an invariant holds along every run. -/
theorem along_of_invariant (Inv : State → Prop) {P : State → Event → Prop}
    (hStep : ∀ s event s', Inv s → step s event = some s' → Inv s')
    (hImplies : ∀ s event, Inv s → P s event) (hInv : Inv s) : Along step P s events := by
  induction events generalizing s with
  | nil => trivial
  | cons event rest ih =>
      exact ⟨hImplies s event hInv, fun s' hFirst => ih (hStep s event s' hInv hFirst)⟩

/-- A condition which follows, for the steps taken, from an invariant kept under
another condition. -/
theorem along_of_invariant_along (Inv : State → Prop) {P Q : State → Event → Prop}
    (hStep : ∀ s event s', Inv s → P s event → step s event = some s' → Inv s')
    (hImplies : ∀ s event s', Inv s → step s event = some s' → Q s event) (hInv : Inv s)
    (hAlong : Along step P s events) (hRun : run step s events = some s') :
    Along step Q s events := by
  induction events generalizing s with
  | nil => trivial
  | cons event rest ih =>
      obtain ⟨middle, hFirst, hRest⟩ := run_cons.mp hRun
      refine ⟨hImplies s event middle hInv hFirst, fun other hOther => ?_⟩
      rw [hFirst] at hOther
      cases hOther
      exact ih (hStep s event middle hInv hAlong.1 hFirst) (hAlong.2 middle hFirst) hRest

/-- Where every state short of the target has a step to a smaller rank, some run
leads to the target. -/
theorem exists_run_of_rank (Inv Target : State → Prop) (rank : State → ℕ)
    (hStep : ∀ s, Inv s → ¬Target s → ∃ event s', step s event = some s' ∧ Inv s' ∧ rank s' < rank s)
    (hInv : Inv s) : ∃ events s', run step s events = some s' ∧ Target s' ∧ Inv s' := by
  induction hRank : rank s using Nat.strong_induction_on generalizing s with
  | _ n ih =>
      by_cases hTarget : Target s
      · exact ⟨[], s, rfl, hTarget, hInv⟩
      · obtain ⟨event, middle, hFirst, hMiddle, hLess⟩ := hStep s hInv hTarget
        obtain ⟨rest, s', hRest, hReached⟩ := ih (rank middle) (hRank ▸ hLess) hMiddle rfl
        exact ⟨event :: rest, s', run_cons.mpr ⟨middle, hFirst, hRest⟩, hReached⟩

/-- The same with a condition on the steps, and a rank which need not be a function
of the state. -/
theorem exists_along_of_rank (Inv : ℕ → State → Prop) (Target : State → Prop)
    {P : State → Event → Prop}
    (hStep : ∀ rank s, Inv rank s → ¬Target s →
      ∃ event s', step s event = some s' ∧ P s event ∧ ∃ rank' < rank, Inv rank' s')
    {rank : ℕ} (hInv : Inv rank s) :
    ∃ events s', run step s events = some s' ∧ Along step P s events ∧ Target s' := by
  induction rank using Nat.strong_induction_on generalizing s with
  | _ rank ih =>
      by_cases hTarget : Target s
      · exact ⟨[], s, rfl, trivial, hTarget⟩
      · obtain ⟨event, middle, hFirst, hHolds, rank', hLess, hMiddle⟩ := hStep rank s hInv hTarget
        obtain ⟨rest, s', hRest, hAlong, hReached⟩ := ih rank' hLess hMiddle
        refine ⟨event :: rest, s', run_cons.mpr ⟨middle, hFirst, hRest⟩, ⟨hHolds, ?_⟩, hReached⟩
        intro other hOther
        rw [hFirst] at hOther
        cases hOther
        exact hAlong

/-- A run which leaves the condition at some step can be cut there. -/
theorem exists_not_of_not_along {P : State → Event → Prop} (hRun : run step s events = some s')
    (hNot : ¬ Along step P s events) :
    ∃ first event rest before after, events = first ++ event :: rest ∧
      run step s first = some before ∧ ¬ P before event ∧ step before event = some after ∧
      run step after rest = some s' := by
  induction events generalizing s with
  | nil => exact absurd trivial hNot
  | cons event rest ih =>
      obtain ⟨middle, hFirst, hRest⟩ := run_cons.mp hRun
      by_cases hHolds : P s event
      · have hLater : ¬ Along step P middle rest := by
          intro hAlong
          refine hNot ⟨hHolds, fun other hOther => ?_⟩
          rw [hFirst] at hOther
          cases hOther
          exact hAlong
        obtain ⟨first, bad, tail, before, after, rfl, hBefore, hBad, hStep, hTail⟩ :=
          ih hRest hLater
        refine ⟨event :: first, bad, tail, before, after, rfl, ?_, hBad, hStep, hTail⟩
        exact run_cons.mpr ⟨middle, hFirst, hBefore⟩
      · exact ⟨[], event, rest, s, middle, rfl, rfl, hHolds, hFirst, hRest⟩

end Run

/-- A sum over threads, after one of them has changed. -/
theorem sum_update_add {ι α M : Type*} [DecidableEq ι] [AddCommMonoid M] {threads : Finset ι} {i : ι}
    (hMem : i ∈ threads) (weight : ι → α → M) (locals : ι → α) (next : α) :
    (∑ j ∈ threads, weight j (Function.update locals i next j)) + weight i (locals i) =
      (∑ j ∈ threads, weight j (locals j)) + weight i next := by
  have hUpdate : ∀ j, weight j (Function.update locals i next j) =
      Function.update (fun j => weight j (locals j)) i (weight i next) j :=
    fun j => Function.apply_update weight locals i next j
  simp only [hUpdate]
  rw [Finset.sum_update_of_mem hMem, ← Finset.sum_sdiff (Finset.singleton_subset_iff.mpr hMem),
    Finset.sum_singleton]
  ac_rfl

end Interleaving
