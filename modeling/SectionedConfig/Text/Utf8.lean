/-!
# UTF-8

Bytes are read one at a time. Between two characters nothing is remembered; inside a character the
reader knows how many bytes it has seen, how many are to come, which values the next one may have,
and the bits collected so far. The bounds on the second byte exclude overlong forms, surrogates and
code points above U+10FFFF, so every sequence that is accepted encodes one character.
-/

namespace SectionedConfig.Text.Utf8

/-- Why a byte sequence is not a text. -/
inductive Fault where
  /-- The `length` bytes from `index` start a character that the byte after them does not go on
  with, or no character starts with the byte at `index`. -/
  | invalid (length index : Nat)
  /-- The input ends inside the character that starts at `index`. -/
  | incomplete (index : Nat)
deriving DecidableEq

/-- The wording of a fault. -/
def Fault.message : Fault → String
  | .invalid length index =>
    "invalid utf-8 sequence of " ++ toString length ++ " bytes from index " ++ toString index
  | .incomplete index => "incomplete utf-8 byte sequence from index " ++ toString index

/-- A character of which some bytes have been read. -/
structure Started where
  /-- How many bytes have been read. -/
  seen : Nat
  /-- How many bytes follow the next one. -/
  later : Nat
  /-- The least value that the next byte may have. -/
  low : Nat
  /-- The greatest value that the next byte may have. -/
  high : Nat
  /-- The bits of the code point that have been read. -/
  bits : Nat
deriving DecidableEq

/-- What the first byte of a longer character announces. -/
def start? (byte : Nat) : Option Started :=
  if byte < 0xC2 then none
  else if byte < 0xE0 then some ⟨1, 0, 0x80, 0xBF, byte - 0xC0⟩
  else if byte = 0xE0 then some ⟨1, 1, 0xA0, 0xBF, 0⟩
  else if byte = 0xED then some ⟨1, 1, 0x80, 0x9F, 0xD⟩
  else if byte < 0xF0 then some ⟨1, 1, 0x80, 0xBF, byte - 0xE0⟩
  else if byte = 0xF0 then some ⟨1, 2, 0x90, 0xBF, 0⟩
  else if byte < 0xF4 then some ⟨1, 2, 0x80, 0xBF, byte - 0xF0⟩
  else if byte = 0xF4 then some ⟨1, 2, 0x80, 0x8F, 4⟩
  else none

/-- The bits of a code point after one more byte. -/
def Started.push (started : Started) (byte : Nat) : Nat :=
  started.bits * 64 + (byte - 0x80)

/-- What has been read when `bytes` are all decoded or a fault stops the reading: the characters
before it, and the fault. `index` is where the character being read starts. -/
def readFrom (index : Nat) : Option Started → List UInt8 → List Char × Option Fault
  | none, [] => ([], none)
  | some _, [] => ([], some (.incomplete index))
  | none, byte :: bytes =>
    if byte.toNat < 0x80 then
      let (text, fault) := readFrom (index + 1) none bytes
      (Char.ofNat byte.toNat :: text, fault)
    else match start? byte.toNat with
      | none => ([], some (.invalid 1 index))
      | some started => readFrom index (some started) bytes
  | some started, byte :: bytes =>
    if started.low ≤ byte.toNat ∧ byte.toNat ≤ started.high then
      match started.later with
      | 0 =>
        let (text, fault) := readFrom (index + started.seen + 1) none bytes
        (Char.ofNat (started.push byte.toNat) :: text, fault)
      | later + 1 =>
        readFrom index (some ⟨started.seen + 1, later, 0x80, 0xBF, started.push byte.toNat⟩) bytes
    else ([], some (.invalid started.seen index))

/-- The longest text that the bytes start with, and what is wrong after it. -/
def read (bytes : List UInt8) : List Char × Option Fault :=
  readFrom 0 none bytes

/-- The text that the bytes encode, or the first fault. -/
def decode (bytes : List UInt8) : Except Fault (List Char) :=
  match read bytes with
  | (text, none) => .ok text
  | (_, some fault) => .error fault

/-- The bytes that encode a text. -/
def encode (text : String) : List UInt8 :=
  text.toUTF8.toList

end SectionedConfig.Text.Utf8
