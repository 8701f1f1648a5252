import SectionedConfig.Text.Blank
import SectionedConfig.Text.Separators
import SectionedConfig.Token.Kind

/-!
# The segments of a line

Four characters cut a line: braces, the equals sign and the number sign. A brace closes one segment
and the next one starts after it. The first equals sign or number sign ends the cutting, because
everything after it is a value or a comment.
-/

namespace SectionedConfig

/-- The content of a line, cut at the characters that have a meaning. -/
inductive Segments where
  /-- Text up to the end of the line. -/
  | plain (text : List Char)
  /-- Text, an opening brace, and the segments after it. -/
  | opening (name : List Char) (rest : Segments)
  /-- Text, a closing brace, and the segments after it. -/
  | closing (lead : List Char) (rest : Segments)
  /-- Text, an equals sign, and the text after it. -/
  | assignment (key value : List Char)
  /-- Text, a number sign, and the text after it. -/
  | comment (lead text : List Char)
deriving DecidableEq

namespace Segments

/-- Puts a character in front of the first segment. -/
def push (c : Char) : Segments → Segments
  | plain text => plain (c :: text)
  | opening name rest => opening (c :: name) rest
  | closing lead rest => closing (c :: lead) rest
  | assignment key value => assignment (c :: key) value
  | comment lead text => comment (c :: lead) text

/-- Cuts the content of a line, where no line feed stands, by the kinds of its characters. -/
def cut : List Char → Segments
  | [] => plain []
  | c :: rest =>
    match TokenKind.classify c with
    | .sectionStart => opening [] (cut rest)
    | .sectionEnd => closing [] (cut rest)
    | .assignment => assignment [] rest
    | .comment => comment [] rest
    | _ => (cut rest).push c

@[simp]
theorem cut_opening (rest : List Char) : cut ('{' :: rest) = opening [] (cut rest) :=
  rfl

@[simp]
theorem cut_closing (rest : List Char) : cut ('}' :: rest) = closing [] (cut rest) :=
  rfl

@[simp]
theorem cut_equals (rest : List Char) : cut ('=' :: rest) = assignment [] rest :=
  rfl

@[simp]
theorem cut_sign (rest : List Char) : cut ('#' :: rest) = comment [] rest :=
  rfl

/-- The content that the segments were cut from. -/
def join : Segments → List Char
  | plain text => text
  | opening name rest => name ++ '{' :: rest.join
  | closing lead rest => lead ++ '}' :: rest.join
  | assignment key value => key ++ '=' :: value
  | comment lead text => lead ++ '#' :: text

@[simp]
theorem join_push (c : Char) (segments : Segments) :
    (segments.push c).join = c :: segments.join := by
  cases segments <;> rfl

/-- Cutting loses nothing. -/
@[simp]
theorem join_cut (content : List Char) : (cut content).join = content := by
  induction content with
  | nil => rfl
  | cons c rest ih =>
    rw [cut]
    split
    · next hkind =>
      obtain rfl : c = '{' := by simpa using (TokenKind.classify_eq_iff (by decide)).mp hkind
      rw [join, ih, List.nil_append]
    · next hkind =>
      obtain rfl : c = '}' := by simpa using (TokenKind.classify_eq_iff (by decide)).mp hkind
      rw [join, ih, List.nil_append]
    · next hkind =>
      obtain rfl : c = '=' := by simpa using (TokenKind.classify_eq_iff (by decide)).mp hkind
      rw [join, List.nil_append]
    · next hkind =>
      obtain rfl : c = '#' := by simpa using (TokenKind.classify_eq_iff (by decide)).mp hkind
      rw [join, List.nil_append]
    · rw [join_push, ih]

end Segments

/-- Cuts the text after an equals sign into a value and a comment. A number sign starts the comment
unless it stands inside quotation marks, which is when an odd number of them precede it. -/
def cutComment (inQuotes : Bool) : List Char → List Char × Option (List Char)
  | [] => ([], none)
  | c :: rest =>
    if c = '#' ∧ inQuotes = false then ([], some rest)
    else
      let (value, comment) := cutComment (if c = '"' then !inQuotes else inQuotes) rest
      (c :: value, comment)

end SectionedConfig
