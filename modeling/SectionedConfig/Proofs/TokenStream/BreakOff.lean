import SectionedConfig.Proofs.ConfigMap.Sources

/-!
# Streams that break off

A stream that fails behind some bytes is read up to the last line feed among them; what stands
behind it is lost. If all lines up to there are text that the lexer takes, their tokens are followed
by the failure, which names the line that was not read. Otherwise the first line that is no text, or
that the lexer does not take, settles what is read, as if the stream had ended behind it.
-/

namespace SectionedConfig

open Text

/-- The reader delivers the bytes and fails. Portions may be cut anywhere but are not empty, and
reading may be interrupted. What would come after the failure is not asked for. -/
inductive BreaksOff : List Delivery → List UInt8 → String → Prop where
  | failure (reason : String) (rest : List Delivery) :
      BreaksOff (.failure reason :: rest) [] reason
  | portion {portion bytes : List UInt8} {rest : List Delivery} {reason : String}
      (hportion : portion ≠ []) (hrest : BreaksOff rest bytes reason) :
      BreaksOff (.bytes portion :: rest) (portion ++ bytes) reason
  | interruption {bytes : List UInt8} {rest : List Delivery} {reason : String}
      (hrest : BreaksOff rest bytes reason) : BreaksOff (.interruption :: rest) bytes reason

namespace ByteStream

/-- The contents of the lines that end with a line feed. -/
def completeLines (bytes : List UInt8) : List (List UInt8) :=
  (bytes.splitOn 10).dropLast

/-- The stream that delivers lines with the given contents and ends. -/
def ofContents (contents : List (List UInt8)) : ByteStream :=
  ⟨contents.flatMap (· ++ [10]), none⟩

/-- A line of text that the lexer takes has this content. -/
def Lexes (content : List UInt8) : Prop :=
  ∃ text tokens, Utf8.encode text = content ++ [10] ∧
    (TokenStream.ofText text).checked = .ok tokens

/-- The error for a line that cannot be read. -/
def lineFailure (number : Nat) (reason : String) : Error :=
  .stream ("line " ++ toString number ++ ": " ++ reason)

/-- What is reported for a line behind the given ones. What the lexer finds on the line is counted
from the start of the stream. -/
inductive Complaint (before : List (List UInt8)) (content : List UInt8) : Error → Prop where
  | notText (hbytes : ∀ text, Utf8.encode text ≠ content ++ [10]) :
      Complaint before content
        (lineFailure (before.length + 1) "stream did not contain valid UTF-8")
  | lexical {text : String} {offset : Nat} {reason : String}
      (htext : Utf8.encode text = content ++ [10])
      (hchecked : (TokenStream.ofText text).checked = .error (.lexical 1 offset reason)) :
      Complaint before content
        (.lexical (before.length + 1) ((before.flatMap (· ++ [10])).length + offset) reason)

variable {deliveries : List Delivery} {bytes content : List UInt8} {reason : String}
  {contents before : List (List UInt8)}

theorem ofDeliveries_of_breaksOff (h : BreaksOff deliveries bytes reason) :
    ofDeliveries deliveries = ⟨bytes, some reason⟩ := by
  induction h with
  | failure reason rest => rfl
  | portion hportion _ ih =>
    rw [ofDeliveries, ih]
    exact hportion
  | interruption _ ih => exact ih

/-! ## Lines of bytes -/

theorem notMem_of_mem_completeLines (h : content ∈ completeLines bytes) : 10 ∉ content := by
  obtain ⟨contents, last, hcontents, hlast, rfl⟩ := Line.exists_contents 10 bytes
  rw [completeLines, Line.splitOn_flatMap_append hcontents hlast, List.dropLast_concat] at h
  exact hcontents content h

/-- The line that a content makes. -/
def read (content : List UInt8) : LineRead :=
  readLine ⟨content, true⟩

/-- A failure takes the place of what stands behind the last line feed. -/
theorem lines_of_failure (bytes : List UInt8) (reason : String) :
    lines ⟨bytes, some reason⟩ = (completeLines bytes).map read ++ [.error reason] := by
  obtain ⟨contents, last, hcontents, hlast, rfl⟩ := Line.exists_contents 10 bytes
  have hfilter : (Line.cut 10 (contents.flatMap (· ++ [10]) ++ last)).filter Line.terminated =
      contents.map (⟨·, true⟩) := by
    rw [Line.cut_flatMap_append hcontents hlast]
    by_cases hnil : last = [] <;> simp [hnil, List.filter_map, Function.comp_def]
  rw [completeLines, Line.splitOn_flatMap_append hcontents hlast, List.dropLast_concat]
  simp only [lines, hfilter, List.map_map]
  rfl

theorem lines_ofContents (h : ∀ content ∈ contents, 10 ∉ content) :
    lines (ofContents contents) = contents.map read := by
  have hcut : Line.cut 10 (contents.flatMap (· ++ [10]) ++ []) = contents.map (⟨·, true⟩) ++ [] :=
    Line.cut_flatMap_append h List.not_mem_nil
  rw [List.append_nil, List.append_nil] at hcut
  simp only [lines, ofContents, hcut, List.map_map]
  rfl

/-! ## One line -/

theorem length_flatMap_utf8EncodeChar (text : List Char) :
    (text.flatMap String.utf8EncodeChar).length = byteSize text := by
  induction text with
  | nil => rfl
  | cons c rest ih =>
    rw [List.flatMap_cons, List.length_append, ih, String.length_utf8EncodeChar, byteSize_cons]

theorem eq_of_read_eq_ok {line : Line Char} (h : read content = .ok line) :
    line.terminated = true ∧ content = line.content.flatMap String.utf8EncodeChar := by
  unfold read readLine at h
  split at h
  next hdecode =>
    cases h
    exact ⟨rfl, Utf8.decode_eq_ok_iff.mp hdecode⟩
  next => cases h

theorem eq_of_read_eq_error (h : read content = .error reason) : reason = notText := by
  unfold read readLine at h
  split at h
  next => cases h
  next => exact (Except.error.inj h).symm

/-- A text of one line is read as that line. -/
theorem exists_line_of_encode (hfeed : 10 ∉ content) {text : String}
    (htext : Utf8.encode text = content ++ [10]) :
    ∃ line, Line.cut '\n' text.toList = [line] ∧ read content = .ok line := by
  have hcut : Line.cut 10 (content ++ [10]) = [⟨content, true⟩] := Line.cut_append_feed hfeed []
  rw [← htext, Utf8.encode_eq, Utf8.cut_flatMap] at hcut
  obtain ⟨line, hline, hencoded⟩ := List.map_eq_singleton_iff.mp hcut
  exact ⟨line, hline, by rw [read, ← hencoded, readLine_encodeLine]⟩

/-- A line that can be read is a text of one line. -/
theorem exists_encode_of_read (hfeed : 10 ∉ content) {line : Line Char}
    (h : read content = .ok line) :
    ∃ text, Utf8.encode text = content ++ [10] ∧ Line.cut '\n' text.toList = [line] := by
  have htext : Utf8.encode (String.ofList (line.content ++ ['\n'])) = content ++ [10] := by
    rw [Utf8.encode_eq, String.toList_ofList, List.flatMap_append, ← (eq_of_read_eq_ok h).2]
    rfl
  obtain ⟨other, hcut, hother⟩ := exists_line_of_encode hfeed htext
  obtain rfl := Except.ok.inj (h.symm.trans hother)
  exact ⟨_, htext, hcut⟩

theorem lexes_iff (hfeed : 10 ∉ content) :
    Lexes content ↔ ∃ line, read content = .ok line ∧ line.scan.fault = none := by
  constructor
  · rintro ⟨text, tokens, htext, hchecked⟩
    obtain ⟨line, hcut, hread⟩ := exists_line_of_encode hfeed htext
    have hfaultless := (TokenStream.faultless_of_checked hchecked).1
    rw [Faultless, hcut, List.forall_mem_singleton] at hfaultless
    exact ⟨line, hread, hfaultless⟩
  · rintro ⟨line, hread, hfault⟩
    obtain ⟨text, htext, hcut⟩ := exists_encode_of_read hfeed hread
    have hfaultless : Faultless text := by
      rw [Faultless, hcut, List.forall_mem_singleton]
      exact hfault
    exact ⟨text, _, htext, TokenStream.checked_of_faultless hfaultless⟩

/-- A line that does not lex ends the tokens with what is reported for it. -/
theorem exists_complaint (hfeed : 10 ∉ content) (hbad : ¬ Lexes content)
    (before : List (List UInt8)) :
    ∃ error front, Complaint before content error ∧ ∀ rest,
      (Batch.ofLines [] (before.length + 1) (before.flatMap (· ++ [10])).length
        (read content :: rest)).flatMap Batch.tokens = front ++ [.ofError error] := by
  cases hread : read content with
  | error reason =>
    obtain rfl := eq_of_read_eq_error hread
    refine ⟨_, [], .notText fun text htext ↦ ?_, fun rest ↦ rfl⟩
    obtain ⟨line, _, hline⟩ := exists_line_of_encode hfeed htext
    rw [hread] at hline
    cases hline
  | ok line =>
    cases hfault : line.scan.fault with
    | none => exact absurd ((lexes_iff hfeed).mpr ⟨line, hread, hfault⟩) hbad
    | some fault =>
      obtain ⟨text, htext, hcut⟩ := exists_encode_of_read hfeed hread
      have hfirst : FirstFault text [] line fault := ⟨⟨[], hcut⟩, nofun, hfault⟩
      have hchecked : (TokenStream.ofText text).checked =
          .error (.lexical 1 fault.start fault.cause.message) := by
        rw [hfirst.checked_eq, FirstFault.error, LineFault.toError]
        simp
      refine ⟨_, line.scan.lexemes.map (Lexeme.toToken (before.length + 1)
        (before.flatMap (· ++ [10])).length), .lexical htext hchecked, fun rest ↦ ?_⟩
      rw [Batch.ofLines, hfault]
      simp [LineFault.toError]

/-! ## Lines in a row -/

/-- The contents are those of lines of text that the lexer takes. -/
structure ReadAs (contents : List (List UInt8)) (lines : List (Line Char)) : Prop where
  read_eq : contents.map read = lines.map .ok
  terminated : ∀ line ∈ lines, line.terminated = true
  faultless : ∀ line ∈ lines, line.scan.fault = none
  length_eq : lines.length = contents.length
  byteSize_eq : byteSize (lines.flatMap (Line.units '\n')) =
    (contents.flatMap (· ++ [10])).length

theorem exists_readAs (h : ∀ content ∈ contents, 10 ∉ content)
    (hlexes : ∀ content ∈ contents, Lexes content) : ∃ lines, ReadAs contents lines := by
  induction contents with
  | nil => exact ⟨[], rfl, nofun, nofun, rfl, rfl⟩
  | cons content others ih =>
    obtain ⟨hfeed, hfeeds⟩ := List.forall_mem_cons.mp h
    obtain ⟨hlex, hlexes⟩ := List.forall_mem_cons.mp hlexes
    obtain ⟨lines, hlines⟩ := ih hfeeds hlexes
    obtain ⟨line, hline, hfault⟩ := (lexes_iff hfeed).mp hlex
    obtain ⟨hterminated, hcontent⟩ := eq_of_read_eq_ok hline
    have hsize : byteSize (Line.units '\n' line) = (content ++ [10]).length := by
      rw [Line.units, if_pos hterminated, byteSize_append, List.length_append, hcontent,
        length_flatMap_utf8EncodeChar]
      rfl
    refine ⟨line :: lines, ?_, List.forall_mem_cons.mpr ⟨hterminated, hlines.terminated⟩,
      List.forall_mem_cons.mpr ⟨hfault, hlines.faultless⟩, congrArg (· + 1) hlines.length_eq, ?_⟩
    · rw [List.map_cons, hline, hlines.read_eq]
      rfl
    · rw [List.flatMap_cons, List.flatMap_cons, byteSize_append, hsize, hlines.byteSize_eq,
        ← List.length_append]

/-- Lines that lex give tokens of their own, and what is read behind them is numbered and placed as
their length says. -/
theorem exists_tokens_append (h : ∀ content ∈ contents, 10 ∉ content)
    (hlexes : ∀ content ∈ contents, Lexes content) :
    ∃ front, ∀ rest, (TokenStream.ofLines (contents.map read ++ rest)).tokens =
      front ++ (Batch.ofLines [] (contents.length + 1) (contents.flatMap (· ++ [10])).length
        rest).flatMap Batch.tokens := by
  obtain ⟨lines, hlines⟩ := exists_readAs h hlexes
  refine ⟨Batch.startOfFile :: Batch.tokensOf 1 0 lines, fun rest ↦ ?_⟩
  rw [hlines.read_eq, TokenStream.tokens_ofLines,
    Batch.tokens_append 1 0 hlines.terminated hlines.faultless, hlines.byteSize_eq,
    hlines.length_eq, Nat.zero_add, Nat.add_comm 1, List.cons_append]

end ByteStream

/-- Decoding a stream comes to the error that lexing it comes to. -/
theorem ConfigMap.ofStream_of_checked {stream : TokenStream} {error : Error}
    (h : stream.checked = .error error) : ofStream stream = .error error := by
  rw [ofStream, h]
  rfl

open ByteStream

/-- A stream that fails behind lines that all lex gives the tokens of these lines and, in place of
the end of the file, the failure with the number of the next line. Nothing is made of the bytes
behind the last line feed. If one of the lines is no text or does not lex, the first such line
settles the tokens, as if the stream had ended behind it, and the error, which is that of its text
alone but for the place. In any case decoding the stream comes to the error that lexing it comes
to. -/
theorem TokenStream.tokens_of_breaksOff {deliveries : List Delivery} {bytes : List UInt8}
    {reason : String} (h : BreaksOff deliveries bytes reason) :
    let stream := ofBytes (.ofDeliveries deliveries)
    let contents := completeLines bytes
    ((∀ content ∈ contents, Lexes content) →
      ∃ front, (ofBytes (ofContents contents)).checked = .ok (front ++ [.endOfFile]) ∧
        stream.tokens = front ++ [.ofError (lineFailure (contents.length + 1) reason)] ∧
        stream.checked = .error (lineFailure (contents.length + 1) reason) ∧
        ConfigMap.ofStream stream = .error (lineFailure (contents.length + 1) reason)) ∧
    ∀ before content after, contents = before ++ content :: after →
      (∀ other ∈ before, Lexes other) → ¬ Lexes content →
        stream.tokens = (ofBytes (ofContents (before ++ [content]))).tokens ∧
          ∃ error, Complaint before content error ∧ stream.checked = .error error ∧
            ConfigMap.ofStream stream = .error error := by
  intro stream contents
  have hfeeds : ∀ content ∈ contents, 10 ∉ content := fun _ ↦ notMem_of_mem_completeLines
  have hstream : stream = ofLines (contents.map read ++ [.error reason]) := by
    rw [← lines_of_failure, ← ofDeliveries_of_breaksOff h]
    rfl
  constructor
  · intro hlexes
    obtain ⟨front, hfront⟩ := exists_tokens_append hfeeds hlexes
    have hended : (ofBytes (ofContents contents)).tokens = front ++ [.endOfFile] := by
      rw [ofBytes, lines_ofContents hfeeds, ← List.append_nil (contents.map read)]
      exact hfront []
    have hbroken : stream.tokens =
        front ++ [.ofError (lineFailure (contents.length + 1) reason)] := by
      rw [hstream]
      exact hfront [.error reason]
    have hchecked := checked_of_ofError hbroken
    refine ⟨front, ?_, hbroken, hchecked, ConfigMap.ofStream_of_checked hchecked⟩
    rw [checked_of_endOfFile hended, hended]
  · intro before content after hcontents hbefore hbad
    rw [hcontents, List.forall_mem_append, List.forall_mem_cons] at hfeeds
    obtain ⟨hfeeds, hfeed, _⟩ := hfeeds
    obtain ⟨front, hfront⟩ := exists_tokens_append hfeeds hbefore
    obtain ⟨error, lexemes, hcomplaint, hlexemes⟩ := exists_complaint hfeed hbad before
    have htokens (rest : List LineRead) :
        (ofLines (before.map read ++ read content :: rest)).tokens =
          front ++ lexemes ++ [.ofError error] := by
      rw [hfront, hlexemes, List.append_assoc]
    have hbroken : stream.tokens = front ++ lexemes ++ [.ofError error] := by
      rw [hstream, hcontents, List.map_append, List.map_cons, List.append_assoc, List.cons_append,
        htokens]
    have hended : (ofBytes (ofContents (before ++ [content]))).tokens =
        front ++ lexemes ++ [.ofError error] := by
      have hall : ∀ other ∈ before ++ [content], 10 ∉ other :=
        List.forall_mem_append.mpr ⟨hfeeds, List.forall_mem_singleton.mpr hfeed⟩
      rw [ofBytes, lines_ofContents hall, List.map_append, List.map_singleton, htokens]
    have hchecked := checked_of_ofError hbroken
    exact ⟨hbroken.trans hended.symm, error, hcomplaint, hchecked,
      ConfigMap.ofStream_of_checked hchecked⟩

/-- A stream fails inside an accented letter, which is lost with its line. One that fails behind a
line that is no text is refused for the line before it, where an equals sign has no key. -/
theorem TokenStream.tokens_of_breaksOff_midway :
    ∃ deliveries broken,
      BreaksOff deliveries [107, 61, 49, 10, 35, 0xC3] "reset" ∧
      completeLines [107, 61, 49, 10, 35, 0xC3] = [[107, 61, 49]] ∧ Lexes [107, 61, 49] ∧
      ConfigMap.ofStream (ofBytes (.ofDeliveries deliveries)) = .error (.stream "line 2: reset") ∧
      BreaksOff broken [107, 61, 49, 10, 32, 61, 10, 0xFF, 10] "reset" ∧ ¬ Lexes [32, 61] ∧
      (ofBytes (.ofDeliveries broken)).tokens =
        (ofBytes (ofContents [[107, 61, 49], [32, 61]])).tokens ∧
      Complaint [[107, 61, 49]] [32, 61] (.lexical 2 5 "assignment without a key") ∧
      ConfigMap.ofStream (ofBytes (.ofDeliveries broken)) =
        .error (.lexical 2 5 "assignment without a key") := by
  have hbreaks : BreaksOff [.bytes [107, 61, 49, 10, 35], .interruption, .bytes [0xC3],
      .failure "reset"] [107, 61, 49, 10, 35, 0xC3] "reset" :=
    .portion (by decide) (.interruption (.portion (by decide) (.failure "reset" [])))
  have hbroken : BreaksOff [.bytes [107, 61, 49, 10, 32, 61, 10, 0xFF, 10], .failure "reset",
      .bytes [10]] [107, 61, 49, 10, 32, 61, 10, 0xFF, 10] "reset" :=
    .portion (by decide) (.failure "reset" [.bytes [10]])
  have hlexes : Lexes [107, 61, 49] := by
    rw [lexes_iff (by decide)]
    exact ⟨⟨['k', '=', '1'], true⟩, rfl, rfl⟩
  have hbad : ¬ Lexes [32, 61] := by
    rw [lexes_iff (by decide)]
    rintro ⟨line, hread, hfault⟩
    have hline : read [32, 61] = .ok ⟨[' ', '='], true⟩ := rfl
    obtain rfl := Except.ok.inj (hline.symm.trans hread)
    cases hfault
  have hcomplete : completeLines [107, 61, 49, 10, 35, 0xC3] = [[107, 61, 49]] := by decide
  obtain ⟨front, _, _, _, hfailure⟩ := (tokens_of_breaksOff hbreaks).1 (by simpa [hcomplete])
  obtain ⟨htokens, error, hcomplaint, hchecked, hstream⟩ := (tokens_of_breaksOff hbroken).2
    [[107, 61, 49]] [32, 61] [[0xFF]] (by decide) (by simpa) hbad
  have herror : (ofBytes (.ofDeliveries [.bytes [107, 61, 49, 10, 32, 61, 10, 0xFF, 10],
      .failure "reset", .bytes [10]])).checked =
        .error (.lexical 2 5 "assignment without a key") := by
    decide +kernel
  obtain rfl := Except.error.inj (hchecked.symm.trans herror)
  exact ⟨_, _, hbreaks, hcomplete, hlexes, hfailure, hbroken, hbad, htokens, hcomplaint, hstream⟩

end SectionedConfig
