import SectionedConfig.Decimal
import SectionedConfig.Text.Blank
import SectionedConfig.Token

/-!
# Assignments in a token sequence

Decoding looks at nothing but assignments. They are found by a single walk over the tokens: an
equals sign takes the token before it for the key and the one after it for the value, and the last
section name decides to which section it belongs until a closing brace. The walk also checks that
key and value are what they should be; its fault comes after all assignments found before it.
-/

namespace SectionedConfig

/-- An assignment and the section around it. -/
structure Assignment where
  /-- The section that was named last and is not closed. -/
  enclosing : Option String
  key : Token
  value : Token
deriving DecidableEq

namespace Assignment

/-- The assignments of a token sequence up to the first fault. -/
structure Walk where
  found : List Assignment
  fault : Option Error := none
deriving DecidableEq

/-- Puts an assignment in front of those found later. -/
def Walk.cons (assignment : Assignment) (walk : Walk) : Walk :=
  ⟨assignment :: walk.found, walk.fault⟩

/-- The assignment that an equals sign makes of the tokens around it. -/
def around (enclosing : Option String) (previous : Option Token) (sign : Token)
    (next : Option Token) : Except Error Assignment :=
  match previous with
  | none =>
    .error (.structural sign.line "identifier before assignment" "start of input")
  | some key =>
    if key.kind = .identifier then
      match next with
      | none => .error (.structural sign.line "value after assignment" "end of input")
      | some value =>
        if value.kind.isValue then .ok ⟨enclosing, key, value⟩
        else
          .error (.unsupportedValue key.value
            ("unrecognized value token kind " ++ value.kind.name))
    else .error (.structural sign.line "identifier before assignment" key.kind.name)

/-- Walks over tokens, inside a section and after a token. The end of the file ends the walk. -/
def walkFrom (enclosing : Option String) (previous : Option Token) : List Token → Walk
  | [] => ⟨[], none⟩
  | token :: rest =>
    match token.kind with
    | .endOfFile => ⟨[], none⟩
    | .failure => ⟨[], token.failure?⟩
    | .sectionName => walkFrom (some token.value) (some token) rest
    | .sectionEnd => walkFrom none (some token) rest
    | .assignment =>
      match around enclosing previous token rest.head? with
      | .error fault => ⟨[], some fault⟩
      | .ok assignment => (walkFrom enclosing (some token) rest).cons assignment
    | _ => walkFrom enclosing (some token) rest

/-- Walks over a whole token sequence. -/
def walk (tokens : List Token) : Walk :=
  walkFrom none none tokens

/-- Handles the assignments found in order. The first error counts, and the fault of the walk comes
after all of them. -/
def Walk.traverse {α : Type} (walk : Walk) (handle : Assignment → Except Error α) :
    Except Error (List α) :=
  match walk.found.mapM handle, walk.fault with
  | .error error, _ => .error error
  | .ok _, some fault => .error fault
  | .ok results, none => .ok results

/-- The integer that a bare value denotes. Errors call the key `key`. -/
def integer (key : String) (value : Token) : Except Error Int64 :=
  match Decimal.readInt64? (Text.trim value.value.toList) with
  | some number => .ok number
  | none => .error (.invalidInteger key value.value value.line)

end Assignment

end SectionedConfig
