/-!
# Arguments of the command

The word `run` is followed by options: the names of the trace and of the configuration,
the delay, and whether to print the tables. An option with a value takes it from the
next argument, or from its own after an equals sign. Each option may come once, and
only the trace has to be there.
-/

namespace BranchSelector

/-- What the arguments of the command say. -/
structure Arguments where
  trace : Option String := none
  config : Option String := none
  /-- The delay that takes the place of the configured one. -/
  resolveDelay : Option Nat := none
  dump : Bool := false
  deriving DecidableEq, Repr

namespace Arguments

def usage : String :=
  "usage: run --trace <TRACE> [--config <CONFIG>] [--resolve-delay <RESOLVE_DELAY>] [--dump]"

/-- A number that fits 64 bits, as decimal digits after an optional plus sign. -/
def delay? (text : String) : Option Nat :=
  let digits := match text.toList with
    | '+' :: rest => rest
    | all => all
  if digits.isEmpty ∨ !digits.all Char.isDigit then none
  else
    let n := digits.foldl (fun n d => 10 * n + (d.toNat - '0'.toNat)) 0
    if n < UInt64.size then some n else none

/-- Takes in an option that has a value. -/
def withValue (arguments : Arguments) (option value : String) : Option Arguments :=
  match option with
  | "--trace" | "-t" =>
    if arguments.trace.isSome then none else some { arguments with trace := some value }
  | "--config" | "-c" =>
    if arguments.config.isSome then none else some { arguments with config := some value }
  | "--resolve-delay" =>
    if arguments.resolveDelay.isSome then none
    else (delay? value).map fun delay => { arguments with resolveDelay := some delay }
  | _ => none

/-- An argument cut at its first equals sign. -/
def cut (argument : String) : Option (String × String) :=
  let (option, rest) := argument.toList.span (· ≠ '=')
  match rest with
  | [] => none
  | _ :: value => some (String.ofList option, String.ofList value)

/-- Reads the options that are left. -/
def options (arguments : Arguments) : List String → Option Arguments
  | [] => if arguments.trace.isSome then some arguments else none
  | "--dump" :: rest =>
    if arguments.dump then none else options { arguments with dump := true } rest
  | argument :: rest =>
    match cut argument with
    | some (option, value) => (arguments.withValue option value).bind fun next => options next rest
    | none =>
      match rest with
      | [] => none
      | value :: rest => (arguments.withValue argument value).bind fun next => options next rest

def ofList? : List String → Option Arguments
  | "run" :: rest => options {} rest
  | _ => none

end Arguments

end BranchSelector
