/-!
# Events

What an operation reports while it runs: a summary of what it did, or a single thing that it
noticed. An event has a level, a message, and details with names. A recorded computation is a value
together with the events reported on the way to it. Computations follow one another, and so do their
events.
-/

namespace SectionedConfig

/-- How much an event matters. -/
inductive Level where
  | trace
  | debug
deriving DecidableEq

/-- The name of a level. -/
def Level.name : Level → String
  | trace => "TRACE"
  | debug => "DEBUG"

/-- A detail of an event. -/
inductive Detail where
  | count (number : Nat)
  | text (text : String)
deriving DecidableEq

/-- What is reported. -/
inductive Event where
  /-- A batch was split into tokens; `line` comes next. -/
  | batchLexed (line tokens : Nat)
  /-- All input was split into tokens. -/
  | inputLexed (tokens lines : Nat)
  /-- A flat map was decoded. -/
  | mapDecoded (assignments keys : Nat)
  /-- The registry of a schema was built. -/
  | registryBuilt (sections fields : Nat)
  /-- A schema leaves a section out. -/
  | sectionIgnored (member : String)
  /-- A schema leaves a field out. -/
  | fieldIgnored (sectionName member : String)
  /-- No slot is bound where an assignment belongs. -/
  | assignmentSkipped (sectionName key : String)
  /-- A target was decoded into. -/
  | targetDecoded (assignments applied skipped : Nat)
  /-- A text was encoded. -/
  | encoded (sections assignments bytes : Nat)
deriving DecidableEq

namespace Event

/-- Summaries are for debugging and everything else for tracing. -/
def level : Event → Level
  | batchLexed .. | sectionIgnored .. | fieldIgnored .. | assignmentSkipped .. => .trace
  | inputLexed .. | mapDecoded .. | registryBuilt .. | targetDecoded .. | encoded .. => .debug

/-- The message of an event. -/
def message : Event → String
  | batchLexed .. => "lexed batch"
  | inputLexed .. => "lexed stream"
  | mapDecoded .. => "decoded config map"
  | registryBuilt .. => "built field map"
  | sectionIgnored .. => "ignoring section member"
  | fieldIgnored .. => "ignoring key member"
  | assignmentSkipped .. => "skipping unbound key"
  | targetDecoded .. => "decoded into schema"
  | encoded .. => "encoded config"

/-- The details of an event by name. -/
def details : Event → List (String × Detail)
  | batchLexed line tokens => [("line", .count line), ("tokens", .count tokens)]
  | inputLexed tokens lines => [("tokens", .count tokens), ("lines", .count lines)]
  | mapDecoded assignments keys => [("assignments", .count assignments), ("keys", .count keys)]
  | registryBuilt sections fields => [("sections", .count sections), ("fields", .count fields)]
  | sectionIgnored member => [("member", .text member)]
  | fieldIgnored sectionName member => [("section", .text sectionName), ("member", .text member)]
  | assignmentSkipped sectionName key => [("section", .text sectionName), ("key", .text key)]
  | targetDecoded assignments applied skipped =>
    [("assignments", .count assignments), ("applied", .count applied), ("skipped", .count skipped)]
  | encoded sections assignments bytes =>
    [("sections", .count sections), ("assignments", .count assignments), ("bytes", .count bytes)]

end Event

/-! ## Recorded computations -/

/-- A value and the events that were reported, the first one first. -/
structure Recorded (α : Type) where
  value : α
  events : List Event

namespace Recorded

instance : Monad Recorded where
  pure value := ⟨value, []⟩
  bind first next :=
    let second := next first.value
    ⟨second.value, first.events ++ second.events⟩

/-- A value with the events that it reports. -/
def reporting {α : Type} (value : α) (events : List Event) : Recorded α :=
  ⟨value, events⟩

/-- Goes on with a result, unless it is an error. -/
def onSuccess {ε α β : Type} (result : Recorded (Except ε α)) (next : α → Recorded (Except ε β)) :
    Recorded (Except ε β) := do
  match ← result with
  | .error error => pure (.error error)
  | .ok value => next value

@[simp]
theorem value_pure {α : Type} (value : α) : (pure value : Recorded α).value = value := rfl

@[simp]
theorem value_bind {α β : Type} (first : Recorded α) (next : α → Recorded β) :
    (first >>= next).value = (next first.value).value := rfl

@[simp]
theorem events_bind {α β : Type} (first : Recorded α) (next : α → Recorded β) :
    (first >>= next).events = first.events ++ (next first.value).events := rfl

end Recorded

end SectionedConfig
