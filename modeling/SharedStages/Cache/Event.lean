import SharedStages.Cache.Label
import SharedStages.StageId

/-! What a cache reports about its operations, to whom and under which label. -/

namespace SharedStages

inductive Event where
  | find (id : StageId) (hit : Bool)
  | findMatching (found : Nat)
  | insert (id : StageId) (inserted : Bool)
  | erase (id : StageId) (erased : Bool)
  | eraseMatching (count : Nat)
  | clear (count : Nat)
  deriving DecidableEq

/-- Who is told of a cache's operations. A recorder keeps a journal of its own; a muted one is
never told anything. -/
inductive Observer where
  | noop
  | tracing
  | recorder (journal : Nat)
  | muted (journal : Nat)
  deriving DecidableEq, Repr

def Observer.isEnabled : Observer → Bool
  | tracing | recorder _ => true
  | noop | muted _ => false

/-- An event on its way to an observer. -/
structure Delivery where
  observer : Observer
  label : Label
  event : Event
  deriving DecidableEq

/-- The level of a trace line: look-ups are finer than changes. -/
inductive Level where
  | trace
  | debug
  deriving DecidableEq, Repr

def Level.text : Level → String
  | trace => "TRACE"
  | debug => "DEBUG"

inductive FieldValue where
  | text (s : String)
  | count (n : Nat)
  | flag (b : Bool)
  deriving DecidableEq, Repr

namespace Event

def level : Event → Level
  | find .. | findMatching .. => .trace
  | insert .. | erase .. | eraseMatching .. | clear .. => .debug

def message : Event → String
  | find .. => "Stage cache find"
  | findMatching .. => "Stage cache find matching"
  | insert .. => "Stage cache insert"
  | erase .. => "Stage cache erase"
  | eraseMatching .. => "Stage cache erase matching"
  | clear .. => "Stage cache clear"

/-- The name of an event in a journal. -/
def kind : Event → String
  | find .. => "Find"
  | findMatching .. => "FindMatching"
  | insert .. => "Insert"
  | erase .. => "Erase"
  | eraseMatching .. => "EraseMatching"
  | clear .. => "Clear"

/-- The id an event is about. -/
def id? : Event → Option StageId
  | find id _ | insert id _ | erase id _ => some id
  | findMatching _ | eraseMatching _ | clear _ => none

/-- What came of the operation, under the name it is reported by. -/
def outcome : Event → String × FieldValue
  | find _ hit => ("hit", .flag hit)
  | findMatching found => ("found", .count found)
  | insert _ inserted => ("inserted", .flag inserted)
  | erase _ erased => ("erased", .flag erased)
  | eraseMatching count => ("count", .count count)
  | clear count => ("count", .count count)

/-- The fields of a trace line, the label first. -/
def fieldsWith (u : Uuids) (e : Event) (label : Label) : List (String × FieldValue) :=
  ("cache", .text (label.textWith u)) ::
    (e.id?.map fun i => ("id", .text i.text)).toList ++ [e.outcome]

def fields (e : Event) (label : Label) : List (String × FieldValue) := e.fieldsWith .numbered label

end Event

end SharedStages
