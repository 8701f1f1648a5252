import SectionedConfig.ConfigMap.Encoding
import SectionedConfig.Journal.Event
import SectionedConfig.Registry.Decoding
import SectionedConfig.Registry

/-!
# Journal

The operations of the library with the events that they report. Each value is the one that the
operation without a journal gives; the events say how it came about. An operation that fails reports
what it noticed before the failure and no summary.
-/

namespace SectionedConfig.Journal

variable {Target : Type}

/-- The event of a batch. -/
def batchEvent (batch : Batch) : Event :=
  .batchLexed batch.line batch.tokens.length

/-- The next batch of a token stream. There is nothing to report once the input is used up. -/
def nextBatch (stream : TokenStream) : Recorded (List Token × TokenStream) :=
  .reporting stream.nextBatch ((stream.pending.take 1).map batchEvent)

/-- All tokens that a token stream has left. -/
def rest (stream : TokenStream) : Recorded (List Token × TokenStream) :=
  let (tokens, after) := stream.rest
  .reporting (tokens, after)
    (stream.pending.map batchEvent ++ [.inputLexed tokens.length (after.line - 1)])

/-- The tokens of a whole input. A failure is the last of them. -/
def tokens (stream : TokenStream) : Recorded (List Token) := do
  return (← rest stream).1

/-- The tokens of a whole input, or the failure that ends them. -/
def checkedTokens (stream : TokenStream) : Recorded (Except Error (List Token)) := do
  let _ ← rest stream
  return stream.checked

/-- Decodes tokens into a flat map. -/
def decodeMap (tokens : List Token) : Recorded (Except Error ConfigMap) :=
  let result := ConfigMap.ofTokens tokens
  .reporting result
    (match result with
      | .error _ => []
      | .ok map => [.mapDecoded (Assignment.walk tokens).found.length map.size])

/-- Decodes what a token stream has left into a flat map. -/
def decodeMapFrom (stream : TokenStream) : Recorded (Except Error ConfigMap) :=
  (checkedTokens stream).onSuccess decodeMap

/-- Decodes bytes into a flat map. -/
def decodeMapOfBytes (bytes : List UInt8) : Recorded (Except Error ConfigMap) :=
  match Text.Utf8.decode bytes with
  | .ok text => decodeMapFrom (.ofText (String.ofList text))
  | .error fault => pure (.error (.stream fault.message))

/-- The text of a document that holds a number of assignments. -/
def renderDocument (assignments : Nat) (document : Document) : Recorded (Except Error String) :=
  let result := document.render
  .reporting result
    (match result with
      | .error _ => []
      | .ok text => [.encoded document.sections.length assignments text.utf8ByteSize])

/-- Encodes a flat map. -/
def encodeMap (header : Option String) (map : ConfigMap) : Recorded (Except Error String) :=
  match map.toDocument header with
  | .error error => pure (.error error)
  | .ok document => renderDocument map.size document

/-- What is reported about the fields of a section. A faulty field ends the report. -/
def fieldEvents (sectionName : String) : List (Field Target) → List Event
  | [] => []
  | field :: rest =>
    match field.binding sectionName with
    | .error _ => []
    | .ok none => .fieldIgnored sectionName field.key :: fieldEvents sectionName rest
    | .ok (some _) => fieldEvents sectionName rest

/-- What is reported about the sections of a schema. A faulty section ends the report. -/
def sectionEvents : List (Section Target) → List Event
  | [] => []
  | member :: rest =>
    if member.ignored then .sectionIgnored member.name :: sectionEvents rest
    else
      match checkName member.name with
      | .error _ => []
      | .ok () =>
        fieldEvents member.name member.fields ++
          match member.bindings with
          | .error _ => []
          | .ok _ => sectionEvents rest

/-- Builds the registry of a schema. -/
def registry (schema : Schema Target) : Recorded (Except Error (Registry Target)) :=
  let result := schema.registry
  .reporting result
    (sectionEvents schema.sections ++
      match result with
      | .error _ => []
      | .ok registry => [.registryBuilt registry.sectionNames.length registry.size])

/-- What is reported about assignments. One that cannot be converted ends the report. -/
def assignmentEvents (registry : Registry Target) (hints : Hints) : List Assignment → List Event
  | [] => []
  | assignment :: rest =>
    match registry.update? hints assignment with
    | .error _ => []
    | .ok none =>
      let place := assignment.place hints
      .assignmentSkipped place.sectionName place.field :: assignmentEvents registry hints rest
    | .ok (some _) => assignmentEvents registry hints rest

/-- Decodes tokens into a target. -/
def decode (registry : Registry Target) (hints : Hints) (tokens : List Token) (target : Target) :
    Recorded (Except Error Unit × Target) :=
  let found := (Assignment.walk tokens).found
  .reporting (registry.decode hints tokens target)
    (assignmentEvents registry hints found ++
      match registry.updates hints tokens with
      | .error _ => []
      | .ok updates =>
        let applied := (updates.filterMap id).length
        [.targetDecoded found.length applied (updates.length - applied)])

/-- Decodes tokens into a target that a schema describes. -/
def decodeSchema (schema : Schema Target) (hints : Hints) (tokens : List Token)
    (target : Target) : Recorded (Except Error Unit × Target) := do
  match ← registry schema with
  | .error error => return (.error error, target)
  | .ok registry => decode registry hints tokens target

/-- Decodes what a token stream has left into a target that a schema describes. -/
def decodeSchemaFrom (schema : Schema Target) (hints : Hints) (stream : TokenStream)
    (target : Target) : Recorded (Except Error Unit × Target) := do
  match ← checkedTokens stream with
  | .error error => return (.error error, target)
  | .ok tokens => decodeSchema schema hints tokens target

/-- Encodes a target. -/
def encode (registry : Registry Target) (header : Option String) (target : Target) :
    Recorded (Except Error String) :=
  match registry.toDocument header target with
  | .error error => pure (.error error)
  | .ok document => renderDocument registry.size document

/-- Encodes a target that a schema describes. -/
def encodeSchema (schema : Schema Target) (header : Option String) (target : Target) :
    Recorded (Except Error String) :=
  (registry schema).onSuccess fun registry ↦ encode registry header target

/-! ## The journal changes no value -/

@[simp]
theorem value_tokens (stream : TokenStream) : (tokens stream).value = stream.tokens := rfl

@[simp]
theorem value_checkedTokens (stream : TokenStream) :
    (checkedTokens stream).value = stream.checked := rfl

@[simp]
theorem value_decodeMapFrom (stream : TokenStream) :
    (decodeMapFrom stream).value = ConfigMap.ofStream stream := by
  unfold decodeMapFrom ConfigMap.ofStream Recorded.onSuccess
  rw [Recorded.value_bind, value_checkedTokens]
  cases stream.checked <;> rfl

@[simp]
theorem value_decodeMapOfBytes (bytes : List UInt8) :
    (decodeMapOfBytes bytes).value = ConfigMap.ofBytes bytes := by
  unfold decodeMapOfBytes ConfigMap.ofBytes
  cases Text.Utf8.decode bytes with
  | error fault => rfl
  | ok text => exact value_decodeMapFrom _

@[simp]
theorem value_encodeMap (header : Option String) (map : ConfigMap) :
    (encodeMap header map).value = map.encode header := by
  unfold encodeMap ConfigMap.encode
  cases map.toDocument header <;> rfl

@[simp]
theorem value_registry (schema : Schema Target) : (registry schema).value = schema.registry := rfl

@[simp]
theorem value_decodeSchema (schema : Schema Target) (hints : Hints) (tokens : List Token)
    (target : Target) :
    (decodeSchema schema hints tokens target).value = schema.decode hints tokens target := by
  unfold decodeSchema Schema.decode
  rw [Recorded.value_bind, value_registry]
  cases schema.registry <;> rfl

@[simp]
theorem value_decodeSchemaFrom (schema : Schema Target) (hints : Hints) (stream : TokenStream)
    (target : Target) :
    (decodeSchemaFrom schema hints stream target).value =
      schema.decodeStream hints stream target := by
  unfold decodeSchemaFrom Schema.decodeStream
  rw [Recorded.value_bind, value_checkedTokens]
  cases stream.checked with
  | error error => rfl
  | ok tokens => exact value_decodeSchema ..

@[simp]
theorem value_encode (registry : Registry Target) (header : Option String) (target : Target) :
    (encode registry header target).value = registry.encode header target := by
  unfold encode Registry.encode
  cases registry.toDocument header target <;> rfl

@[simp]
theorem value_encodeSchema (schema : Schema Target) (header : Option String) (target : Target) :
    (encodeSchema schema header target).value = schema.encode header target := by
  unfold encodeSchema Schema.encode Recorded.onSuccess
  rw [Recorded.value_bind, value_registry]
  cases schema.registry with
  | error error => rfl
  | ok registry => exact value_encode ..

end SectionedConfig.Journal
