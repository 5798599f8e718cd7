import Commission.Library.FromChars
import Mathlib.Algebra.Ring.Int.Defs

/-! The command line of `main.cpp`: `Args::parse` and what it calls. An argument is the list
of its characters, and a failed parse is the message which it prints. -/
namespace Commission

open FromChars

abbrev Argument := List Char

structure HostService where
  host : Argument
  service : Argument
  deriving DecidableEq

/-- `split_address`, at the last colon. -/
def splitAddress (address : Argument) : Option HostService :=
  match address.reverse.dropWhile (· ≠ ':') with
  | [] => none
  | _ :: host => some ⟨host.reverse, (address.reverse.takeWhile (· ≠ ':')).reverse⟩

/-- The options, in the order in which an argument is compared with them. -/
inductive CliOption where
  | device
  | threads
  | client
  | server
  | output
  | start
  | size
  deriving DecidableEq, Repr

namespace CliOption

def name : CliOption → Argument
  | .device => "--device".toList
  | .threads => "--threads".toList
  | .client => "--client".toList
  | .server => "--server".toList
  | .output => "--output".toList
  | .start => "--start".toList
  | .size => "--size".toList

def all : List CliOption := [.device, .threads, .client, .server, .output, .start, .size]

/-- The chain of `strcmp`. -/
def ofArgument (arg : Argument) : Option CliOption := all.find? fun o => o.name = arg

end CliOption

inductive ParseError where
  | duplicate (o : CliOption)
  | missingArgument (o : CliOption)
  | invalidArgument (o : CliOption) (argVal : Argument)
  | invalidAddress (o : CliOption)
  | unknownOption (arg : Argument)
  | threadsAndClient
  | outputAndClient
  | startWithoutGpus
  | sizeWithoutThreads
  deriving DecidableEq

/-- What goes to `stderr`, without the line break. -/
def ParseError.message : ParseError → Argument
  | duplicate o => "duplicate ".toList ++ o.name ++ " option".toList
  | missingArgument o => "missing argument to ".toList ++ o.name
  | invalidArgument o argVal => "invalid argument to ".toList ++ o.name ++ ": ".toList ++ argVal
  | invalidAddress o => "invalid argument to ".toList ++ o.name
  | unknownOption arg => "unknown option: ".toList ++ arg
  | threadsAndClient => "--threads and --client are mutually exclusive".toList
  | outputAndClient => "--output and --client are mutually exclusive".toList
  | startWithoutGpus => "--start does nothing when not running gpus".toList
  | sizeWithoutThreads => "--size does nothing when not running cpu threads".toList

structure Args where
  devices : List ℤ := []
  threads : Option ℤ := none
  client : Option HostService := none
  server : Option HostService := none
  outputFile : Option Argument := none
  startSeed : Option ℤ := none
  minSize : Option ℤ := none
  deriving DecidableEq

def checkDuplicate (duplicate : Bool) (o : CliOption) : Except ParseError Unit :=
  if duplicate then .error (.duplicate o) else .ok ()

/-- `argument` is `argv[i]`, unless `i >= argc`. -/
def checkArgument (argument : Option Argument) (o : CliOption) : Except ParseError Argument :=
  match argument with
  | none => .error (.missingArgument o)
  | some argVal => .ok argVal

/-- `std::from_chars` into an `int` or `int32_t`. -/
def fromCharsInt : List Char → Option (ℤ × List Char) := fromChars (-2 ^ 31) (2 ^ 31 - 1)

/-- `std::from_chars` into an `int64_t`. -/
def fromCharsInt64 : List Char → Option (ℤ × List Char) := fromChars (-2 ^ 63) (2 ^ 63 - 1)

/-- `parse_argument_int`. -/
def parseArgumentInt (parser : List Char → Option (ℤ × List Char)) (argument : Option Argument)
    (out : Option ℤ) (test : ℤ → Bool) (o : CliOption) : Except ParseError ℤ := do
  checkDuplicate out.isSome o
  let argVal ← checkArgument argument o
  match parser argVal with
  | some (val, []) => if test val then .ok val else .error (.invalidArgument o argVal)
  | _ => .error (.invalidArgument o argVal)

/-- The loop over the devices of one argument, from `first` on. A pass takes at least one
character, so as many passes are enough. -/
def deviceLoop : ℕ → List Char → List ℤ → Option (List ℤ)
  | _, [], devices => some devices
  | 0, _ :: _, _ => none
  | passes + 1, first, devices =>
      match fromCharsInt first with
      | none => none
      | some (device, ptr) =>
          if device < 0 ∨ device ∈ devices ∨ (ptr ≠ [] ∧ ptr.head? ≠ some ',') then none
          else deviceLoop passes ptr.tail (devices ++ [device])

/-- The branch of an option, with the argument after it. -/
def applyOption (args : Args) (o : CliOption) (argument : Option Argument) :
    Except ParseError Args :=
  match o with
  | .device => do
      let devicesStr ← checkArgument argument .device
      match deviceLoop devicesStr.length devicesStr args.devices with
      | none => .error (.invalidArgument .device devicesStr)
      | some devices => .ok { args with devices }
  | .threads => do
      let threads ← parseArgumentInt fromCharsInt argument args.threads
        (fun threads => 1 ≤ threads ∧ threads ≤ 1024) .threads
      .ok { args with threads := some threads }
  | .client => do
      checkDuplicate args.client.isSome .client
      let argVal ← checkArgument argument .client
      match splitAddress argVal with
      | none => .error (.invalidAddress .client)
      | some address => .ok { args with client := some address }
  | .server => do
      checkDuplicate args.server.isSome .server
      let argVal ← checkArgument argument .server
      match splitAddress argVal with
      | none => .error (.invalidAddress .server)
      | some address => .ok { args with server := some address }
  | .output => do
      checkDuplicate args.outputFile.isSome .output
      let argVal ← checkArgument argument .output
      .ok { args with outputFile := some argVal }
  | .start => do
      let startSeed ← parseArgumentInt fromCharsInt64 argument args.startSeed (fun _ => true) .start
      .ok { args with startSeed := some startSeed }
  | .size => do
      let minSize ← parseArgumentInt fromCharsInt argument args.minSize
        (fun minSize => 0 ≤ minSize) .size
      .ok { args with minSize := some minSize }

/-- An option's branch fails with a message which names the option. -/
theorem applyOption_error_names {args : Args} {o : CliOption} {argument : Option Argument}
    {e : ParseError} (h : applyOption args o argument = .error e) : o.name <:+: e.message := by
  have hNames : e = .duplicate o ∨ e = .missingArgument o ∨ (∃ s, e = .invalidArgument o s) ∨
      e = .invalidAddress o := by
    cases o <;>
      simp only [applyOption, parseArgumentInt, checkDuplicate, checkArgument, bind,
        Except.bind] at h <;>
      grind
  obtain rfl | rfl | ⟨s, rfl⟩ | rfl := hNames
  · exact ⟨"duplicate ".toList, " option".toList, rfl⟩
  · exact ⟨"missing argument to ".toList, [], List.append_nil _⟩
  · exact ⟨"invalid argument to ".toList, ": ".toList ++ s, (List.append_assoc _ _ _).symm⟩
  · exact ⟨"invalid argument to ".toList, [], List.append_nil _⟩

/-- The loop over `argv` from an option on. -/
def parseLoop : List Argument → Args → Except ParseError Args
  | [], args => .ok args
  | [arg], args =>
      match CliOption.ofArgument arg with
      | none => .error (.unknownOption arg)
      | some o => applyOption args o none
  | arg :: argument :: rest, args =>
      match CliOption.ofArgument arg with
      | none => .error (.unknownOption arg)
      | some o => (applyOption args o (some argument)).bind (parseLoop rest)

/-- The rules after the loop, with the default device filled in. -/
def finishParse (args : Args) : Except ParseError Args :=
  if args.threads.isSome ∧ args.client.isSome then .error .threadsAndClient
  else if args.outputFile.isSome ∧ args.client.isSome then .error .outputAndClient
  else
    let args := if args.devices = [] ∧ args.server = none then { args with devices := [0] } else args
    if args.startSeed.isSome ∧ args.devices = [] then .error .startWithoutGpus
    else if args.minSize.isSome ∧ args.threads = none ∧ args.client.isSome then
      .error .sizeWithoutThreads
    else .ok args

/-- `Args::parse`, which looks at `argv` from its second entry on. -/
def Args.parse (argv : List Argument) : Except ParseError Args :=
  (parseLoop argv.tail {}).bind finishParse

end Commission
