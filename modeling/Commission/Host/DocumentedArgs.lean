import Commission.Host.ParseArgs

/-! The command lines of the usage text against those which `Args::parse` takes: the loop over
the devices also stops where a device should follow, at the start of an empty argument and
after a last comma. -/
namespace Commission

open FromChars

/-- `Args::parse` takes exactly the documented command lines, and reads the values written
there. -/
def TakesDocumented (argv : List Argument) : Prop :=
  ((∃ args, Args.parse argv = .ok args) ↔ ∃ args, Documented argv args) ∧
    ∀ args, Args.parse argv = .ok args → Documented argv args

/-- A device is missing at the end of the argument. -/
def LacksDevice (s : Argument) : Prop := s = [] ∨ s.getLast? = some ','

/-- The argument of `--device` without the missing device; an empty one is left out. -/
def mendList (s : Argument) : Option Argument :=
  if s = [] then none else if s.getLast? = some ',' then some s.dropLast else some s

def mend (groups : List OptionGroup) : List OptionGroup :=
  groups.filterMap fun group =>
    if group.1 = .device then (mendList group.2).map fun s => (.device, s) else some group

/-! Lists of devices. -/

variable {s t : Argument} {device : ℤ} {devices : List ℤ}

theorem DeviceNumeral.not_lacksDevice (h : DeviceNumeral s device) : ¬LacksDevice s := by
  rintro (hNil | hComma)
  · exact h.1.ne_nil hNil
  · have hLast : ',' ∈ s := List.mem_of_getLast? hComma
    cases h.1 with
    | plain _ hDigits => exact absurd (hDigits ',' hLast) (by decide)
    | minus _ hDigits =>
        cases hLast with
        | tail _ hMem => exact absurd (hDigits ',' hMem) (by decide)

theorem DeviceList.not_lacksDevice (h : DeviceList s devices) : ¬LacksDevice s := by
  induction h with
  | last hDevice => exact hDevice.not_lacksDevice
  | @more s rest _ _ hDevice _ ih =>
      rintro (hNil | hComma)
      · simp at hNil
      · apply ih
        cases rest with
        | nil => exact .inl rfl
        | cons c rest =>
            right
            simpa [List.getLast?_append, List.getLast?_cons_cons] using hComma

theorem DeviceList.looseList (h : DeviceList s devices) : LooseList s devices := by
  induction h with
  | last hDevice => exact .last hDevice
  | more hDevice _ ih => exact .more hDevice ih

theorem DeviceList.looseList_comma (h : DeviceList s devices) :
    LooseList (s ++ [',']) devices := by
  induction h with
  | last hDevice => exact .more hDevice .done
  | more hDevice _ ih =>
      rw [List.append_assoc, List.cons_append]
      exact .more hDevice ih

/-- The three ways in which a list of devices ends. -/
theorem LooseList.end_cases (h : LooseList s devices) :
    (s = [] ∧ devices = []) ∨ DeviceList s devices ∨
      ∃ t, s = t ++ [','] ∧ DeviceList t devices := by
  induction h with
  | done => exact .inl ⟨rfl, rfl⟩
  | last hDevice => exact .inr (.inl (.last hDevice))
  | @more s rest _ _ hDevice _ ih =>
      right
      obtain ⟨rfl, rfl⟩ | hRest | ⟨t, rfl, hRest⟩ := ih
      · exact .inr ⟨s, rfl, .last hDevice⟩
      · exact .inl (.more hDevice hRest)
      · exact .inr ⟨s ++ ',' :: t, by simp, .more hDevice hRest⟩

theorem mendList_of_not_lacksDevice (h : ¬LacksDevice s) : mendList s = some s := by
  rw [LacksDevice, not_or] at h
  rw [mendList, if_neg h.1, if_neg h.2]

theorem mendList_comma (s : Argument) : mendList (s ++ [',']) = some s := by
  simp [mendList]

theorem eq_or_eq_comma_of_mendList (h : mendList s = some t) : s = t ∨ s = t ++ [','] := by
  rw [mendList] at h
  split at h
  · cases h
  · split at h
    next hComma =>
      cases h
      exact .inr (List.dropLast_append_getLast? ',' hComma).symm
    next =>
      cases h
      exact .inl rfl

theorem mendList_eq_none_iff : mendList s = none ↔ s = [] := by
  rw [mendList]
  split
  next hNil => simp [hNil]
  next hSome => split <;> simp [hSome]

/-- The loop over the devices takes a list as if its end were mended. -/
theorem looseList_iff_mendList :
    LooseList s devices ↔
      (mendList s = none ∧ devices = []) ∨ ∃ t, mendList s = some t ∧ DeviceList t devices := by
  constructor
  · intro h
    obtain ⟨rfl, rfl⟩ | hList | ⟨t, rfl, hList⟩ := h.end_cases
    · exact .inl ⟨rfl, rfl⟩
    · exact .inr ⟨s, mendList_of_not_lacksDevice hList.not_lacksDevice, hList⟩
    · exact .inr ⟨t, mendList_comma t, hList⟩
  · rintro (⟨hNone, rfl⟩ | ⟨t, hMend, hList⟩)
    · rw [mendList_eq_none_iff.mp hNone]
      exact .done
    · obtain rfl | rfl := eq_or_eq_comma_of_mendList hMend
      · exact hList.looseList
      · exact hList.looseList_comma

theorem exists_lists_iff_mendList {arguments : List Argument} :
    (∃ lists, List.Forall₂ LooseList arguments lists ∧ lists.flatten = devices) ↔
      ∃ lists, List.Forall₂ DeviceList (arguments.filterMap mendList) lists ∧
        lists.flatten = devices := by
  induction arguments generalizing devices with
  | nil => simp
  | cons s arguments ih =>
      constructor
      · rintro ⟨_, hLists, rfl⟩
        cases hLists with
        | @cons _ list _ lists hList hLists =>
            obtain ⟨lists', hLists', hFlatten⟩ := ih.mp ⟨lists, hLists, rfl⟩
            rw [List.flatten_cons, ← hFlatten]
            obtain ⟨hNone, rfl⟩ | ⟨t, hMend, hList⟩ := looseList_iff_mendList.mp hList
            · rw [List.filterMap_cons_none hNone]
              exact ⟨lists', hLists', rfl⟩
            · rw [List.filterMap_cons_some hMend]
              exact ⟨list :: lists', .cons hList hLists', rfl⟩
      · rintro ⟨lists, hLists, rfl⟩
        cases hMend : mendList s with
        | none =>
            rw [List.filterMap_cons_none hMend] at hLists
            obtain ⟨lists', hLists', hFlatten⟩ := ih.mpr ⟨lists, hLists, rfl⟩
            have hList : LooseList s [] := looseList_iff_mendList.mpr (.inl ⟨hMend, rfl⟩)
            exact ⟨[] :: lists', .cons hList hLists', hFlatten⟩
        | some t =>
            rw [List.filterMap_cons_some hMend] at hLists
            cases hLists with
            | @cons _ list _ lists hList hLists =>
                obtain ⟨lists', hLists', hFlatten⟩ := ih.mpr ⟨lists, hLists, rfl⟩
                have hLoose : LooseList s list :=
                  looseList_iff_mendList.mpr (.inr ⟨t, hMend, hList⟩)
                refine ⟨list :: lists', .cons hLoose hLists', ?_⟩
                rw [List.flatten_cons, hFlatten, List.flatten_cons]

/-! Command lines. -/

variable {groups groups' : List OptionGroup} {args : Args}

theorem mend_cons_device (s : Argument) (groups : List OptionGroup) :
    mend ((.device, s) :: groups) =
      ((mendList s).map fun t => (CliOption.device, t)).toList ++ mend groups := by
  cases hMend : mendList s with
  | none => simp [mend, hMend]
  | some t => simp [mend, hMend]

theorem mend_cons_of_ne {o : CliOption} (ho : o ≠ .device) (s : Argument)
    (groups : List OptionGroup) : mend ((o, s) :: groups) = (o, s) :: mend groups := by
  simp [mend, ho]

theorem argumentsOf_mend_device (groups : List OptionGroup) :
    argumentsOf .device (mend groups) = (argumentsOf .device groups).filterMap mendList := by
  induction groups with
  | nil => rfl
  | cons group groups ih =>
      obtain ⟨o, s⟩ := group
      by_cases ho : o = .device
      · subst ho
        rw [mend_cons_device, argumentsOf_cons, if_pos rfl, List.filterMap_cons, ← ih]
        cases mendList s with
        | none => rfl
        | some t => simp [argumentsOf_cons]
      · rw [mend_cons_of_ne ho, argumentsOf_cons, argumentsOf_cons, if_neg ho, if_neg ho, ih]

theorem argumentsOf_mend_of_ne {o : CliOption} (ho : o ≠ .device) (groups : List OptionGroup) :
    argumentsOf o (mend groups) = argumentsOf o groups := by
  induction groups with
  | nil => rfl
  | cons group groups ih =>
      obtain ⟨o', s⟩ := group
      by_cases ho' : o' = .device
      · subst ho'
        rw [mend_cons_device, argumentsOf_cons, if_neg ho.symm, ← ih]
        cases mendList s with
        | none => rfl
        | some t => simp [argumentsOf_cons, ho.symm]
      · rw [mend_cons_of_ne ho', argumentsOf_cons, argumentsOf_cons, ih]

theorem mend_eq_self (h : ∀ s ∈ argumentsOf .device groups, ¬LacksDevice s) :
    mend groups = groups := by
  induction groups with
  | nil => rfl
  | cons group groups ih =>
      obtain ⟨o, s⟩ := group
      rw [argumentsOf_cons] at h
      by_cases ho : o = .device
      · subst ho
        rw [if_pos rfl, List.forall_mem_cons] at h
        rw [mend_cons_device, mendList_of_not_lacksDevice h.1, ih h.2]
        rfl
      · rw [if_neg ho] at h
        rw [mend_cons_of_ne ho, ih h]

/-- `Args::parse` reads a command line as if its lists of devices were mended. -/
theorem describes_looseList_iff_mend :
    Describes LooseList groups args ↔ Describes DeviceList (mend groups) args := by
  simp only [describes_iff, argumentsOf_mend_device, ne_eq, reduceCtorEq, not_false_eq_true,
    argumentsOf_mend_of_ne]
  apply and_congr_left'
  constructor
  · rintro ⟨lists, hLists, hValues⟩
    obtain ⟨lists', hLists', hFlatten⟩ := exists_lists_iff_mendList.mp ⟨lists, hLists, rfl⟩
    rw [← hFlatten] at hValues
    exact ⟨lists', hLists', hValues⟩
  · rintro ⟨lists, hLists, hValues⟩
    obtain ⟨lists', hLists', hFlatten⟩ := exists_lists_iff_mendList.mpr ⟨lists, hLists, rfl⟩
    rw [← hFlatten] at hValues
    exact ⟨lists', hLists', hValues⟩

theorem Describes.not_lacksDevice (h : Describes DeviceList groups args) :
    ∀ s ∈ argumentsOf .device groups, ¬LacksDevice s := by
  obtain ⟨lists, hLists, -⟩ := h.devices
  generalize argumentsOf .device groups = arguments at hLists ⊢
  induction hLists with
  | nil => exact List.forall_mem_nil _
  | cons hList _ ih => exact List.forall_mem_cons.mpr ⟨hList.not_lacksDevice, ih⟩

theorem render_injective : Function.Injective render := by
  intro groups groups' h
  induction groups generalizing groups' with
  | nil =>
      cases groups' with
      | nil => rfl
      | cons group groups' => cases h
  | cons group groups ih =>
      cases groups' with
      | nil => cases h
      | cons group' groups' =>
          obtain ⟨o, s⟩ := group
          obtain ⟨o', s'⟩ := group'
          simp only [render_cons, List.cons.injEq] at h
          obtain ⟨hName, rfl, hRest⟩ := h
          have hOption : some o = some o' := by
            rw [← ofArgument_name, ← ofArgument_name, hName]
          cases hOption
          rw [ih hRest]

theorem takesDocumented_iff (argv : List Argument) :
    TakesDocumented argv ↔
      ¬∃ groups, argv.tail = render groups ∧ (∃ s ∈ argumentsOf .device groups, LacksDevice s) ∧
        ∃ args, Describes DeviceList (mend groups) args := by
  constructor
  · rintro ⟨-, hValues⟩ ⟨groups, hRender, ⟨s, hs, hLacks⟩, args, hDescribes⟩
    have hParse : Args.parse argv = .ok args :=
      parse_eq_ok_iff.mpr ⟨groups, hRender, describes_looseList_iff_mend.mpr hDescribes⟩
    obtain ⟨groups', hRender', hDescribes'⟩ := hValues args hParse
    obtain rfl : groups = groups' := render_injective (hRender.symm.trans hRender')
    exact hDescribes'.not_lacksDevice s hs hLacks
  · intro hKind
    have hSound : ∀ args, Args.parse argv = .ok args → Documented argv args := by
      intro args hParse
      obtain ⟨groups, hRender, hDescribes⟩ := parse_eq_ok_iff.mp hParse
      rw [describes_looseList_iff_mend] at hDescribes
      have hFull : ∀ s ∈ argumentsOf .device groups, ¬LacksDevice s := by
        intro s hs hLacks
        exact hKind ⟨groups, hRender, ⟨s, hs, hLacks⟩, args, hDescribes⟩
      rw [mend_eq_self hFull] at hDescribes
      exact ⟨groups, hRender, hDescribes⟩
    constructor
    · constructor
      · rintro ⟨args, hParse⟩
        exact ⟨args, hSound args hParse⟩
      · rintro ⟨args, groups, hRender, hDescribes⟩
        have hMend := mend_eq_self hDescribes.not_lacksDevice
        rw [← hMend, ← describes_looseList_iff_mend] at hDescribes
        exact ⟨args, parse_eq_ok_iff.mpr ⟨groups, hRender, hDescribes⟩⟩
    · exact hSound

theorem not_takesDocumented_of_lacksDevice {program : Argument}
    (hParse : Args.parse [program, "--device".toList, s] = .ok args) (hLacks : LacksDevice s) :
    ¬TakesDocumented [program, "--device".toList, s] := by
  rintro ⟨-, hValues⟩
  obtain ⟨groups, hRender, hDescribes⟩ := hValues args hParse
  obtain rfl : [(.device, s)] = groups := render_injective hRender
  exact hDescribes.not_lacksDevice s (List.mem_singleton_self s) hLacks

/-- `main --device ""` and `main --device 0,` run device 0. -/
theorem not_takesDocumented_missing_device :
    ¬TakesDocumented ["main".toList, "--device".toList, []] ∧
      ¬TakesDocumented ["main".toList, "--device".toList, "0,".toList] := by
  have hEmpty : Args.parse ["main".toList, "--device".toList, []] = .ok { devices := [0] } := by
    decide
  have hComma :
      Args.parse ["main".toList, "--device".toList, "0,".toList] = .ok { devices := [0] } := by
    decide
  constructor
  · exact not_takesDocumented_of_lacksDevice hEmpty (.inl rfl)
  · exact not_takesDocumented_of_lacksDevice hComma (.inr rfl)

end Commission
