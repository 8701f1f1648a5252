import SectionedConfig.Text.Quoted
import SectionedConfig.Token.Kind

/-!
# Errors

Everything that can go wrong while a configuration is read, decoded, described by a schema, encoded
or written. The first error ends an operation.
-/

namespace SectionedConfig

/-- The causes of failure, by the stage that notices them. -/
inductive Error where
  /-- Reading the input or writing the output failed. -/
  | stream (reason : String)
  /-- Text on a line is not part of any token. -/
  | lexical (line offset : Nat) (reason : String)
  /-- A token stands where the format wants another one. -/
  | structural (line : Nat) (expected found : String)
  /-- A bare value is no 64-bit integer. -/
  | invalidInteger (key value : String) (line : Nat)
  /-- A value cannot be decoded, or cannot be written so that it reads back. -/
  | unsupportedValue (key reason : String)
  /-- A value is not of the kind that its binding wants. -/
  | typeMismatch (sectionName key expected found : String)
  /-- A schema member has a type that holds neither an integer nor a string. -/
  | unsupportedKind (sectionName key typeName : String)
  /-- Two schema members are bound to the same place. -/
  | duplicateBinding (sectionName key : String)
  /-- A section name or key cannot be written in the format. -/
  | invalidName (name reason : String)
  /-- A map key does not name one section and one field. -/
  | invalidKey (key : String)
  /-- A token of this kind has no written form. -/
  | unformattable (kind : TokenKind)
  /-- Any other failure, in its own words. -/
  | custom (reason : String)
deriving DecidableEq

open Text (quoted)

/-- The wording of an error. -/
def Error.message : Error → String
  | .stream reason => "IO error: " ++ reason
  | .lexical line offset reason =>
    "Lex error at line " ++ toString line ++ ", offset " ++ toString offset ++ ": " ++ reason
  | .structural line expected found =>
    "Structural error at line " ++ toString line ++ ": expected " ++ expected ++ ", found " ++ found
  | .invalidInteger key value line =>
    "Invalid integer " ++ quoted value ++ " for key " ++ quoted key ++ " at line " ++ toString line
  | .unsupportedValue key reason => "Unsupported value for key " ++ quoted key ++ ": " ++ reason
  | .typeMismatch sectionName key expected found =>
    "Type mismatch for " ++ sectionName ++ "/" ++ key ++ ": expected " ++ expected ++ ", found " ++
      found
  | .unsupportedKind sectionName key typeName =>
    "Unsupported field kind for " ++ sectionName ++ "/" ++ key ++ ": " ++ typeName
  | .duplicateBinding sectionName key => "Duplicate binding for " ++ sectionName ++ "/" ++ key
  | .invalidName name reason => "Invalid name " ++ quoted name ++ ": " ++ reason
  | .invalidKey key => "Invalid key " ++ quoted key ++ ": expected \"section/field\""
  | .unformattable kind => "Cannot format token of kind " ++ kind.name
  | .custom reason => "Error: " ++ reason

end SectionedConfig
