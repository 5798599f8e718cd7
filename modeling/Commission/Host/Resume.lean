import Commission.Host.Main

/-! Going on where a process has stopped: the number which it prints is the argument of `--start`
for the next one. -/
namespace Commission.Host

open FromChars

/-- `"%" PRIi64`, for a seed. -/
def seedText (seed : BitVec 64) : Argument := decimal seed.toInt

/-- The same process from another start seed. -/
def Setup.startingAt (setup : Setup) (seed : BitVec 64) : Setup :=
  { setup with cfg := { setup.cfg with startSeed := seed } }

/-- The command line with one more option. -/
def withStart (argv : List Argument) (seed : BitVec 64) : List Argument :=
  argv ++ [CliOption.start.name, seedText seed]

theorem seedText_numeral (seed : BitVec 64) :
    NumeralIn (-2 ^ 63) (2 ^ 63 - 1) (seedText seed) seed.toInt := by
  have hLow := BitVec.le_toInt seed
  have hHigh := BitVec.toInt_lt (x := seed)
  exact ⟨numeral_decimal seed.toInt, by omega, by omega⟩

section Parse

theorem render_append (groups more : List OptionGroup) :
    render (groups ++ more) = render groups ++ render more :=
  List.flatMap_append

theorem argumentsOf_append (o : CliOption) (groups more : List OptionGroup) :
    argumentsOf o (groups ++ more) = argumentsOf o groups ++ argumentsOf o more := by
  rw [argumentsOf, List.filter_append, List.map_append]
  rfl

variable {argv : List Argument} {args : Args}

/-- A command line without `--start` takes it, and nothing else changes. -/
theorem parse_withStart {program : Argument} (hParse : Args.parse (program :: argv) = .ok args)
    (hFresh : args.startSeed = none) (hDevices : args.devices ≠ []) (seed : BitVec 64) :
    Args.parse (withStart (program :: argv) seed) = .ok { args with startSeed := some seed.toInt } := by
  obtain ⟨groups, hRender, hDescribes⟩ := parse_eq_ok_iff.mp hParse
  have hNone : argumentsOf .start groups = [] := (field_none_iff hDescribes.start).mp hFresh
  have hOther (o : CliOption) (ho : o ≠ .start) :
      argumentsOf o (groups ++ [(.start, seedText seed)]) = argumentsOf o groups := by
    rw [argumentsOf_append, argumentsOf_cons, if_neg ho.symm, argumentsOf_nil, List.append_nil]
  have hStart : argumentsOf .start (groups ++ [(.start, seedText seed)]) = [seedText seed] := by
    rw [argumentsOf_append, hNone, argumentsOf_cons, if_pos rfl, argumentsOf_nil, List.nil_append]
  refine parse_eq_ok_iff.mpr ⟨groups ++ [(.start, seedText seed)], ?_, ?_⟩
  · rw [render_append, ← hRender]
    rfl
  · constructor
    case start => exact .inr ⟨_, _, hStart, seedText_numeral seed, rfl⟩
    case started => exact fun _ => hDevices
    case devices =>
      rw [hOther .device (by decide), hOther .server (by decide)]
      exact hDescribes.devices
    case alone =>
      rw [hOther .client (by decide), hOther .threads (by decide), hOther .output (by decide),
        hOther .size (by decide)]
      exact hDescribes.alone
    case threads => exact hOther .threads (by decide) ▸ hDescribes.threads
    case client => exact hOther .client (by decide) ▸ hDescribes.client
    case server => exact hOther .server (by decide) ▸ hDescribes.server
    case output => exact hOther .output (by decide) ▸ hDescribes.output
    case size => exact hOther .size (by decide) ▸ hDescribes.size

end Parse

section Setup

variable {build : Build} {cubiomes : Cubiomes} {random : BitVec 64} {opens : Argument → Bool}
  {program : Argument} {argv : List Argument} {setup : Setup}

/-- Whatever else is on the command line, `--start` only sets the start seed. -/
theorem mainInner_withStart
    (hStart : mainInner build cubiomes random opens (program :: argv) = .ok setup)
    (hFresh : ∀ args, Args.parse (program :: argv) = .ok args → args.startSeed = none)
    (hGpus : setup.cfg.gpus ≠ 0) (seed random' : BitVec 64) :
    mainInner build cubiomes random' opens (withStart (program :: argv) seed) =
      .ok (setup.startingAt seed) := by
  obtain ⟨args, hParse, -, -, hDevices, -⟩ := mainInner_eq_ok hStart
  have hSome : args.devices ≠ [] := by
    rintro hNone
    rw [hDevices, hNone] at hGpus
    exact hGpus rfl
  have hParse' := parse_withStart hParse (hFresh args hParse) hSome seed
  rw [mainInner] at hStart ⊢
  split
  next e hError =>
    rw [hParse'] at hError
    cases hError
  next args' hArgs =>
    rw [hParse'] at hArgs
    cases hArgs
    split at hStart
    · cases hStart
    next args'' hArgs =>
      rw [hParse] at hArgs
      cases hArgs
      have hThreads : threadCount { args with startSeed := some seed.toInt } = threadCount args := rfl
      simp only [hThreads] at hStart ⊢
      split_ifs at hStart ⊢
      · cases hStart
        simp only [Option.map_some, Option.getD_some, BitVec.ofInt_toInt]
        rfl
      · cases hStart
        simp only [Option.map_some, Option.getD_some, BitVec.ofInt_toInt]
        rfl

/-- `total_seeds_checked` -/
def totalSeedsChecked (cfg : Config) (s : State) : BitVec 64 := s.pos - cfg.startSeed

end Setup

end Commission.Host
