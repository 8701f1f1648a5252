import SectionedConfig.Proofs.Text.Utf8
import SectionedConfig.Proofs.TokenStream

/-!
# What a byte stream is read as

Only the sequence of its bytes matters of a stream that ends in order, not the portions in which
they were delivered. If they are the encoding of a text, the lines of the stream are those of the
text. Otherwise one of them cannot be read, and lexing ends with a failure there or before.
-/

namespace SectionedConfig

open Text

/-- The reader delivers the bytes and ends. Portions may be cut anywhere but are not empty, and
reading may be interrupted. What would come after the end is not asked for. -/
inductive Delivers : List Delivery → List UInt8 → Prop where
  | nil : Delivers [] []
  | ended (rest : List Delivery) : Delivers (.bytes [] :: rest) []
  | portion {portion bytes : List UInt8} {rest : List Delivery} (hportion : portion ≠ [])
      (hrest : Delivers rest bytes) : Delivers (.bytes portion :: rest) (portion ++ bytes)
  | interruption {bytes : List UInt8} {rest : List Delivery} (hrest : Delivers rest bytes) :
      Delivers (.interruption :: rest) bytes

namespace ByteStream

theorem ofDeliveries_of_delivers {deliveries : List Delivery} {bytes : List UInt8}
    (h : Delivers deliveries bytes) : ofDeliveries deliveries = ⟨bytes, none⟩ := by
  induction h with
  | nil => rfl
  | ended rest => rfl
  | portion hportion _ ih =>
    rw [ofDeliveries, ih]
    exact hportion
  | interruption _ ih => exact ih

theorem readLine_encodeLine (line : Line Char) : readLine (Utf8.encodeLine line) = .ok line := by
  have hdecode : Utf8.decode (Utf8.encodeLine line).content = .ok line.content :=
    Utf8.decode_eq_ok_iff.mpr rfl
  rw [readLine, hdecode]
  rfl

/-- The lines of a stream that delivers a text are those of the text. -/
theorem lines_encode (text : String) : lines ⟨Utf8.encode text, none⟩ = linesOfText text := by
  have hread : readLine ∘ Utf8.encodeLine = Except.ok := funext readLine_encodeLine
  rw [lines, Utf8.encode_eq, Utf8.cut_flatMap, linesOfText, ← hread]
  exact List.map_map

theorem terminated_of_readLine {line : Line UInt8} {read : Line Char}
    (h : readLine line = .ok read) : read.terminated = line.terminated := by
  unfold readLine at h
  split at h
  next =>
    cases h
    rfl
  next => cases h

/-- Bytes that are no text have a line that cannot be read. -/
theorem exists_readLine_eq_error {bytes : List UInt8}
    (h : ∀ text : String, bytes ≠ Utf8.encode text) :
    ∃ line ∈ Line.cut 10 bytes, readLine line = .error notText := by
  by_contra hnone
  have hlines : ∀ line ∈ Line.cut 10 bytes,
      ∃ content : List Char, line.content = content.flatMap String.utf8EncodeChar := by
    intro line hline
    cases hdecode : Utf8.decode line.content with
    | ok content => exact ⟨content, Utf8.decode_eq_ok_iff.mp hdecode⟩
    | error fault =>
      refine absurd ⟨line, hline, ?_⟩ hnone
      rw [readLine, hdecode]
  obtain ⟨text, htext⟩ := Utf8.exists_flatMap_units hlines
  rw [Line.flatMap_units_cut] at htext
  apply h (String.ofList text)
  rw [Utf8.encode_eq, String.toList_ofList, htext]

end ByteStream

/-- A line that cannot be read ends the tokens with a failure, unless an earlier line does. -/
theorem Batch.exists_getLast?_tokens (number offset : Nat) {before rest : List (Line UInt8)}
    {line : Line UInt8} {reason : String}
    (hchain : (before ++ line :: rest).IsChain fun line _ ↦ line.terminated = true)
    (hline : ByteStream.readLine line = .error reason) :
    ∃ error, ((ofLines [] number offset
      ((before ++ line :: rest).map ByteStream.readLine)).flatMap Batch.tokens).getLast? =
        some (.ofError error) := by
  induction before generalizing number offset with
  | nil =>
    rw [List.nil_append, List.map_cons, hline]
    exact ⟨.stream ("line " ++ toString number ++ ": " ++ reason), rfl⟩
  | cons first others ih =>
    have hterminated := Line.terminated_of_isChain hchain first List.mem_cons_self
    rw [List.cons_append, List.map_cons]
    cases hread : ByteStream.readLine first with
    | error other => exact ⟨.stream ("line " ++ toString number ++ ": " ++ other), rfl⟩
    | ok read =>
      rw [← ByteStream.terminated_of_readLine hread] at hterminated
      rw [ofLines]
      cases hfault : read.scan.fault with
      | some fault => exact ⟨fault.toError number offset, by simp⟩
      | none =>
        obtain ⟨error, herror⟩ :=
          ih (number + 1) (offset + read.byteSize) (List.isChain_cons.mp hchain).2
        refine ⟨error, ?_⟩
        simp only [hterminated, if_true, List.flatMap_cons, List.getLast?_append, herror]
        rfl

/-- Bytes that are no text are refused by the lexer. -/
theorem TokenStream.exists_checked_eq_error {bytes : List UInt8}
    (h : ∀ text : String, bytes ≠ Utf8.encode text) :
    ∃ error, (ofBytes ⟨bytes, none⟩).checked = .error error := by
  obtain ⟨line, hline, hread⟩ := ByteStream.exists_readLine_eq_error h
  obtain ⟨before, rest, hcut⟩ := List.append_of_mem hline
  have hchain := Line.isChain_cut 10 bytes
  rw [hcut] at hchain
  obtain ⟨error, herror⟩ := Batch.exists_getLast?_tokens 1 0 hchain hread
  rw [← hcut] at herror
  refine ⟨error, ?_⟩
  have hlast : (ofBytes ⟨bytes, none⟩).tokens.getLast? = some (.ofError error) := by
    rw [ofBytes, tokens_ofLines, ByteStream.lines, List.getLast?_cons, herror]
    rfl
  rw [checked, hlast]
  rfl

end SectionedConfig
