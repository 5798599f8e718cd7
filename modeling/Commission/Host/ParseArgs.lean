import Commission.Host.CommandLine
import Mathlib.Data.List.Induction

/-! Which command lines `Args::parse` takes, by the groups of the loop over `argv`. -/
namespace Commission

/-- The arguments of an option take a field which may be set before. -/
def FieldAfter {α : Type} (WellFormed : Argument → α → Prop) (before : Option α)
    (arguments : List Argument) (after : Option α) : Prop :=
  (arguments = [] ∧ after = before) ∨
    (before = none ∧ ∃ s value, arguments = [s] ∧ WellFormed s value ∧ after = some value)

/-- What the groups make of the fields. -/
@[mk_iff]
structure Extends (groups : List OptionGroup) (before after : Args) : Prop where
  devices : ∃ lists, List.Forall₂ LooseList (argumentsOf .device groups) lists ∧
    (before.devices ++ lists.flatten).Nodup ∧ after.devices = before.devices ++ lists.flatten
  threads : FieldAfter (NumeralIn 1 1024) before.threads (argumentsOf .threads groups) after.threads
  client : FieldAfter Address before.client (argumentsOf .client groups) after.client
  server : FieldAfter Address before.server (argumentsOf .server groups) after.server
  output : FieldAfter (fun s value => value = s) before.outputFile (argumentsOf .output groups)
    after.outputFile
  start : FieldAfter (NumeralIn (-2 ^ 63) (2 ^ 63 - 1)) before.startSeed
    (argumentsOf .start groups) after.startSeed
  size : FieldAfter (NumeralIn 0 (2 ^ 31 - 1)) before.minSize (argumentsOf .size groups)
    after.minSize

section Field

variable {α : Type} {WellFormed : Argument → α → Prop} {before after : Option α} {value : α}
  {s : Argument} {arguments : List Argument}

theorem fieldAfter_nil_iff : FieldAfter WellFormed before [] after ↔ after = before := by
  simp [FieldAfter]

theorem fieldAfter_some_iff :
    FieldAfter WellFormed (some value) arguments after ↔ arguments = [] ∧ after = some value := by
  simp [FieldAfter]

theorem fieldAfter_cons_iff :
    FieldAfter WellFormed before (s :: arguments) after ↔
      before = none ∧ ∃ value, WellFormed s value ∧
        FieldAfter WellFormed (some value) arguments after := by
  simp only [fieldAfter_some_iff]
  constructor
  · rintro (⟨hNil, -⟩ | ⟨hBefore, s', value, hArguments, hValue, hAfter⟩)
    · cases hNil
    · cases hArguments
      exact ⟨hBefore, value, hValue, rfl, hAfter⟩
  · rintro ⟨hBefore, value, hValue, rfl, hAfter⟩
    exact .inr ⟨hBefore, s, value, rfl, hValue, hAfter⟩

theorem fieldAfter_none_iff :
    FieldAfter WellFormed none arguments after ↔ Field WellFormed arguments after := by
  simp [FieldAfter, Field]

end Field

@[simp]
theorem argumentsOf_nil (o : CliOption) : argumentsOf o [] = [] := rfl

theorem argumentsOf_cons (o o' : CliOption) (s : Argument) (groups : List OptionGroup) :
    argumentsOf o ((o', s) :: groups) =
      if o' = o then s :: argumentsOf o groups else argumentsOf o groups := by
  by_cases h : o' = o
  · simp [argumentsOf, h]
  · simp [argumentsOf, h]

theorem extends_nil_iff {before after : Args} (hBefore : before.devices.Nodup) :
    Extends [] before after ↔ after = before := by
  constructor
  · intro h
    obtain ⟨⟨lists, hLists, -, hDevices⟩, hThreads, hClient, hServer, hOutput, hStart, hSize⟩ := h
    cases hLists
    simp only [argumentsOf_nil, fieldAfter_nil_iff, List.flatten_nil, List.append_nil] at *
    cases before
    cases after
    simp_all
  · rintro rfl
    constructor <;> simp [fieldAfter_nil_iff, hBefore]

/-- One list of devices after another. -/
theorem devices_cons_iff {s : Argument} {arguments : List Argument} {before after : List ℤ}
    (hBefore : before.Nodup) :
    (∃ lists, List.Forall₂ LooseList (s :: arguments) lists ∧ (before ++ lists.flatten).Nodup ∧
        after = before ++ lists.flatten) ↔
      ∃ middle, deviceLoop s.length s before = some middle ∧
        ∃ lists, List.Forall₂ LooseList arguments lists ∧ (middle ++ lists.flatten).Nodup ∧
          after = middle ++ lists.flatten := by
  simp only [deviceLoop_eq_some_iff le_rfl hBefore]
  constructor
  · rintro ⟨lists, hLists, hNodup, hAfter⟩
    cases hLists with
    | @cons _ list _ lists hList hLists =>
        rw [List.flatten_cons, ← List.append_assoc] at hNodup hAfter
        have hMiddle := (List.nodup_append.mp hNodup).1
        exact ⟨before ++ list, ⟨list, hList, hMiddle, rfl⟩, lists, hLists, hNodup, hAfter⟩
  · rintro ⟨middle, ⟨list, hList, hMiddle, rfl⟩, lists, hLists, hNodup, hAfter⟩
    rw [List.append_assoc, ← List.flatten_cons] at hNodup hAfter
    exact ⟨list :: lists, .cons hList hLists, hNodup, hAfter⟩

/-- The groups are taken one after another. -/
theorem extends_cons_iff {o : CliOption} {s : Argument} {groups : List OptionGroup}
    {before after : Args} (hBefore : before.devices.Nodup) :
    Extends ((o, s) :: groups) before after ↔
      ∃ middle, applyOption before o (some s) = .ok middle ∧ Extends groups middle after := by
  simp only [extends_iff, applyOption_eq_ok_iff, argumentsOf_cons]
  cases o with
  | device =>
      simp only [devices_cons_iff hBefore, reduceCtorEq, if_true, if_false]
      constructor
      · rintro ⟨⟨devices, hLoop, hLists⟩, hRest⟩
        exact ⟨{ before with devices }, ⟨devices, hLoop, rfl⟩, hLists, hRest⟩
      · rintro ⟨_, ⟨devices, hLoop, rfl⟩, hLists, hRest⟩
        exact ⟨⟨devices, hLoop, hLists⟩, hRest⟩
  | threads | client | server | output | start | size =>
      simp only [fieldAfter_cons_iff, reduceCtorEq, if_true, if_false]
      grind

/-! The loop over `argv`. -/

/-- No option adds a device twice. -/
theorem applyOption_nodup {before middle : Args} {o : CliOption} {s : Argument}
    (hBefore : before.devices.Nodup) (h : applyOption before o (some s) = .ok middle) :
    middle.devices.Nodup := by
  rw [applyOption_eq_ok_iff] at h
  cases o with
  | device =>
      obtain ⟨devices, hLoop, rfl⟩ := h
      obtain ⟨more, -, hNodup, rfl⟩ := (deviceLoop_eq_some_iff le_rfl hBefore).mp hLoop
      exact hNodup
  | threads | client | server | start | size =>
      obtain ⟨-, value, -, rfl⟩ := h
      exact hBefore
  | output =>
      obtain ⟨-, rfl⟩ := h
      exact hBefore

theorem ofArgument_name (o : CliOption) : CliOption.ofArgument o.name = some o := by
  cases o <;> decide

theorem name_of_ofArgument {arg : Argument} {o : CliOption}
    (h : CliOption.ofArgument arg = some o) : o.name = arg := by
  rw [CliOption.ofArgument] at h
  simpa using List.find?_some h

theorem applyOption_none (args : Args) (o : CliOption) (args' : Args) :
    applyOption args o none ≠ .ok args' := by
  cases o <;> simp [applyOption, parseArgumentInt, checkArgument, bind_eq_ok_iff]

@[simp]
theorem render_cons (o : CliOption) (s : Argument) (groups : List OptionGroup) :
    render ((o, s) :: groups) = o.name :: s :: render groups := rfl

/-- The loop takes what is a row of groups, and no other `argv`. -/
theorem parseLoop_eq_ok_iff {rest : List Argument} {before after : Args}
    (hBefore : before.devices.Nodup) :
    parseLoop rest before = .ok after ↔
      ∃ groups, rest = render groups ∧ Extends groups before after := by
  induction rest using List.twoStepInduction generalizing before with
  | nil =>
      constructor
      · intro h
        cases h
        exact ⟨[], rfl, (extends_nil_iff hBefore).mpr rfl⟩
      · rintro ⟨groups, hRender, hExtends⟩
        cases groups with
        | nil =>
            rw [(extends_nil_iff hBefore).mp hExtends]
            rfl
        | cons group groups => cases hRender
  | singleton arg =>
      constructor
      · intro h
        rw [parseLoop] at h
        split at h
        · cases h
        · exact absurd h (applyOption_none _ _ _)
      · rintro ⟨groups, hRender, -⟩
        cases groups with
        | nil => cases hRender
        | cons group groups => cases hRender
  | cons_cons arg argument rest ih _ =>
      constructor
      · intro h
        rw [parseLoop] at h
        split at h
        · cases h
        next o hOption =>
          obtain ⟨middle, hApply, hLoop⟩ := bind_eq_ok_iff.mp h
          obtain ⟨groups, rfl, hRest⟩ := (ih (applyOption_nodup hBefore hApply)).mp hLoop
          obtain rfl := name_of_ofArgument hOption
          exact ⟨(o, argument) :: groups, rfl,
            (extends_cons_iff hBefore).mpr ⟨middle, hApply, hRest⟩⟩
      · rintro ⟨groups, hRender, hExtends⟩
        cases groups with
        | nil => cases hRender
        | cons group groups =>
            obtain ⟨o, s⟩ := group
            cases hRender
            obtain ⟨middle, hApply, hRest⟩ := (extends_cons_iff hBefore).mp hExtends
            rw [parseLoop, ofArgument_name]
            apply bind_eq_ok_iff.mpr
            exact ⟨middle, hApply,
              (ih (applyOption_nodup hBefore hApply)).mpr ⟨groups, rfl, hRest⟩⟩

/-! The rules after the loop. -/

/-- The devices with the default. -/
def withDefault (devices : List ℤ) (server : Option HostService) : List ℤ :=
  if devices = [] ∧ server = none then [0] else devices

theorem finishParse_eq_ok_iff {args args' : Args} :
    finishParse args = .ok args' ↔
      (args.client ≠ none → args.threads = none ∧ args.outputFile = none ∧ args.minSize = none) ∧
        args' = { args with devices := withDefault args.devices args.server } ∧
        (args.startSeed ≠ none → withDefault args.devices args.server ≠ []) := by
  have hFilled : (if args.devices = [] ∧ args.server = none then { args with devices := [0] }
      else args) = { args with devices := withDefault args.devices args.server } := by
    rw [withDefault]
    split <;> rfl
  simp only [finishParse, hFilled, Option.isSome_iff_ne_none]
  clear hFilled
  split
  next hThreads => simp [hThreads]
  next hThreads =>
    split
    next hOutput => simp [hOutput]
    next hOutput =>
      split
      next hStart => simp [hStart]
      next hStart =>
        split
        next hSize => simp [hSize]
        next hSize =>
          simp only [Except.ok.injEq, eq_comm]
          tauto

theorem field_none_iff {α : Type} {WellFormed : Argument → α → Prop} {arguments : List Argument}
    {out : Option α} (h : Field WellFormed arguments out) : out = none ↔ arguments = [] := by
  obtain ⟨rfl, rfl⟩ | ⟨s, value, rfl, -, rfl⟩ := h
  · simp
  · simp

/-- What is left of the groups once the rules after the loop are checked. -/
theorem extends_finishParse_iff {groups : List OptionGroup} {args : Args} :
    (∃ middle, Extends groups {} middle ∧ finishParse middle = .ok args) ↔
      Describes LooseList groups args := by
  simp only [extends_iff, finishParse_eq_ok_iff, fieldAfter_none_iff, List.nil_append]
  constructor
  · rintro ⟨middle, ⟨⟨lists, hLists, hNodup, hDevices⟩, hThreads, hClient, hServer, hOutput, hStart,
      hSize⟩, hAlone, rfl, hStarted⟩
    simp only [ne_eq, field_none_iff hThreads, field_none_iff hClient, field_none_iff hOutput,
      field_none_iff hStart, field_none_iff hSize] at hAlone hStarted
    refine ⟨⟨lists, hLists, hNodup, ?_⟩, hThreads, hClient, hServer, hOutput, hStart, hSize, hAlone,
      hStarted⟩
    simp only [withDefault, hDevices, field_none_iff hServer]
  · intro h
    obtain ⟨lists, hLists, hNodup, hDevices⟩ := h.devices
    have hDefault : args.devices = withDefault lists.flatten args.server := by
      rw [hDevices]
      simp only [withDefault, field_none_iff h.server]
    refine ⟨{ args with devices := lists.flatten }, ⟨⟨lists, hLists, hNodup, rfl⟩, h.threads,
      h.client, h.server, h.output, h.start, h.size⟩, ?_, ?_, ?_⟩
    · simp only [ne_eq, field_none_iff h.threads, field_none_iff h.client, field_none_iff h.output,
        field_none_iff h.size]
      exact h.alone
    · simp only [← hDefault]
    · simp only [← hDefault, ne_eq, field_none_iff h.start]
      exact h.started

/-- What `Args::parse` takes, and the values it reads. -/
theorem parse_eq_ok_iff {argv : List Argument} {args : Args} :
    Args.parse argv = .ok args ↔
      ∃ groups, argv.tail = render groups ∧ Describes LooseList groups args := by
  rw [Args.parse]
  constructor
  · intro h
    obtain ⟨middle, hLoop, hFinish⟩ := bind_eq_ok_iff.mp h
    obtain ⟨groups, hRender, hExtends⟩ := (parseLoop_eq_ok_iff List.nodup_nil).mp hLoop
    exact ⟨groups, hRender, extends_finishParse_iff.mp ⟨middle, hExtends, hFinish⟩⟩
  · rintro ⟨groups, hRender, hDescribes⟩
    obtain ⟨middle, hExtends, hFinish⟩ := extends_finishParse_iff.mpr hDescribes
    apply bind_eq_ok_iff.mpr
    exact ⟨middle, (parseLoop_eq_ok_iff List.nodup_nil).mpr ⟨groups, hRender, hExtends⟩, hFinish⟩

end Commission
