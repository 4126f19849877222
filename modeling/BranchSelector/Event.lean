/-!
# Events

What happens during a run is told as events: a message with named values, of one of
four levels of detail.
-/

namespace BranchSelector

/-- How detailed an event is. -/
inductive Level where
  /-- Something that a host should look into. -/
  | warn
  /-- The beginning and the end of a run. -/
  | info
  /-- A change of policy: the threshold, the epoch, the end of a replay. -/
  | debug
  /-- One branch. -/
  | trace
  deriving DecidableEq, Repr

namespace Level

def name : Level → String
  | warn => "WARN"
  | info => "INFO"
  | debug => "DEBUG"
  | trace => "TRACE"

/-- The place of a level in the order from the least detail to the most. -/
def detail : Level → Nat
  | warn => 0
  | info => 1
  | debug => 2
  | trace => 3

end Level

/-- A message with named values. -/
structure Event where
  level : Level
  message : String
  values : List (String × String) := []
  deriving DecidableEq, Repr

/-- The text of an event: its level and its message, and each value after its name. -/
def Event.text (event : Event) : String :=
  event.level.name ++ " " ++ event.message
    ++ String.join (event.values.map fun (name, value) => s!" {name}={value}")

end BranchSelector
