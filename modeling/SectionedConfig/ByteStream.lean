import SectionedConfig.Text.Lines
import SectionedConfig.Text.Utf8

/-!
# Input streams

A reader delivers bytes in portions of any size. What counts is the sequence of all bytes before the
stream ends or breaks off, so a stream is that sequence with the reason for breaking off. It is read
line by line: a line that is complete is decoded on its own, and one that a failure cuts short is
lost.
-/

namespace SectionedConfig

open Text

/-- What a reader answers when it is asked for bytes. -/
inductive Delivery where
  /-- Some bytes; none at all mean that the stream ends. -/
  | bytes (bytes : List UInt8)
  /-- Reading fails. -/
  | failure (reason : String)
  /-- Reading was interrupted and can be tried again. -/
  | interruption
deriving DecidableEq

/-- All bytes that a reader delivers, and why it breaks off if it does. -/
structure ByteStream where
  bytes : List UInt8
  failure : Option String := none
deriving DecidableEq

/-- A line of text, or why it could not be read. -/
abbrev LineRead := Except String (Line Char)

namespace ByteStream

/-- Collects what a reader delivers up to the end or a failure. -/
def ofDeliveries : List Delivery → ByteStream
  | [] => ⟨[], none⟩
  | .bytes [] :: _ => ⟨[], none⟩
  | .bytes portion :: rest =>
    let stream := ofDeliveries rest
    ⟨portion ++ stream.bytes, stream.failure⟩
  | .failure reason :: _ => ⟨[], some reason⟩
  | .interruption :: rest => ofDeliveries rest

/-- Why a line that is not UTF-8 cannot be read. -/
def notText : String := "stream did not contain valid UTF-8"

/-- Decodes the bytes of a line. -/
def readLine (line : Line UInt8) : LineRead :=
  match Utf8.decode line.content with
  | .ok content => .ok ⟨content, line.terminated⟩
  | .error _ => .error notText

/-- The lines of a stream. A failure takes the place of the line that it interrupts. -/
def lines (stream : ByteStream) : List LineRead :=
  let lines := Line.cut 10 stream.bytes
  match stream.failure with
  | none => lines.map readLine
  | some reason => (lines.filter Line.terminated).map readLine ++ [.error reason]

end ByteStream

/-- The lines of a text, which can always be read. -/
def linesOfText (text : String) : List LineRead :=
  (Line.cut '\n' text.toList).map .ok

end SectionedConfig
