import SectionedConfig.ConfigMap
import SectionedConfig.Proofs.ByteStream
import SectionedConfig.Proofs.Results
import SectionedConfig.Sink

/-!
# Decoding text from different sources

A flat map can be decoded from a text, from the bytes of a text, and from a stream that delivers
these bytes. All three give the same result, an error included. Bytes that are no text are refused
both ways, though the stream may be refused for an earlier line. What a sink holds after a text was
written to it is again a source of that text.
-/

namespace SectionedConfig.ConfigMap

open Text

theorem ofBytes_encode (text : String) : ofBytes (Utf8.encode text) = ofText text := by
  have hdecode : Utf8.decode (Utf8.encode text) = .ok text.toList :=
    Utf8.decode_eq_ok_iff.mpr (Utf8.encode_eq text)
  rw [ofBytes, hdecode]
  exact congrArg ofText String.ofList_toList

/-- A sink to which a text was written holds bytes that are decoded like the text. -/
theorem ofBytes_of_writeEncoded {sink : Sink} {encoded : Except Error String} {bytes : List UInt8}
    (h : sink.writeEncoded (encoded.map Utf8.encode) = (bytes, .ok ())) :
    ∃ text, encoded = .ok text ∧ ofBytes bytes = ofText text := by
  obtain ⟨hencoded, _⟩ := Sink.writeEncoded_eq_ok_iff.mp h
  obtain ⟨text, htext, rfl⟩ := map_eq_ok_iff.mp hencoded
  exact ⟨text, htext, ofBytes_encode text⟩

theorem ofStream_encode (text : String) :
    ofStream (.ofBytes ⟨Utf8.encode text, none⟩) = ofText text := by
  rw [TokenStream.ofBytes, ByteStream.lines_encode]
  rfl

theorem exists_ofBytes_eq_error {bytes : List UInt8}
    (h : ∀ text : String, bytes ≠ Utf8.encode text) :
    ∃ error, ofBytes bytes = .error error := by
  unfold ofBytes
  cases hdecode : Utf8.decode bytes with
  | error fault => exact ⟨_, rfl⟩
  | ok text =>
    refine absurd ?_ (h (String.ofList text))
    rw [Utf8.encode_eq, String.toList_ofList]
    exact Utf8.decode_eq_ok_iff.mp hdecode

theorem exists_ofStream_eq_error {bytes : List UInt8}
    (h : ∀ text : String, bytes ≠ Utf8.encode text) :
    ∃ error, ofStream (.ofBytes ⟨bytes, none⟩) = .error error := by
  obtain ⟨error, herror⟩ := TokenStream.exists_checked_eq_error h
  rw [ofStream, herror]
  exact ⟨error, rfl⟩

/-- However bytes are delivered, decoding the stream, decoding the bytes at once and decoding the
text that they encode give the same result. If they encode no text, the first two fail. So either
both succeed with the same map or neither does. -/
theorem ofStream_of_delivers {deliveries : List Delivery} {bytes : List UInt8}
    (h : Delivers deliveries bytes) :
    (∀ text : String, bytes = Utf8.encode text →
      ofStream (.ofBytes (.ofDeliveries deliveries)) = ofText text ∧ ofBytes bytes = ofText text) ∧
    ((∀ text : String, bytes ≠ Utf8.encode text) →
      (∃ error, ofStream (.ofBytes (.ofDeliveries deliveries)) = .error error) ∧
        ∃ error, ofBytes bytes = .error error) ∧
    ∀ map, ofStream (.ofBytes (.ofDeliveries deliveries)) = .ok map ↔ ofBytes bytes = .ok map := by
  rw [ByteStream.ofDeliveries_of_delivers h]
  have htext : ∀ text : String, bytes = Utf8.encode text →
      ofStream (.ofBytes ⟨bytes, none⟩) = ofText text ∧ ofBytes bytes = ofText text := by
    rintro text rfl
    exact ⟨ofStream_encode text, ofBytes_encode text⟩
  have hnone : (∀ text : String, bytes ≠ Utf8.encode text) →
      (∃ error, ofStream (.ofBytes ⟨bytes, none⟩) = .error error) ∧
        ∃ error, ofBytes bytes = .error error :=
    fun hbytes ↦ ⟨exists_ofStream_eq_error hbytes, exists_ofBytes_eq_error hbytes⟩
  refine ⟨htext, hnone, fun map ↦ ?_⟩
  by_cases hencoded : ∃ text : String, bytes = Utf8.encode text
  · obtain ⟨text, hbytes⟩ := hencoded
    obtain ⟨hstream, hslice⟩ := htext text hbytes
    rw [hstream, hslice]
  · obtain ⟨⟨error, hstream⟩, fault, hslice⟩ := hnone (not_exists.mp hencoded)
    rw [hstream, hslice]
    exact iff_of_false nofun nofun

/-- An accented letter is delivered in two portions with an interruption between them. A line that
is no text is refused, also where lexing does not come to it because an earlier line is wrong. -/
theorem ofStream_of_delivers_split :
    ofStream (.ofBytes (.ofDeliveries [.bytes [107, 61, 34, 0xC3], .interruption,
      .bytes [0xA9, 34, 10], .bytes []])) = .ok (.ofList [("k", .string "é")]) ∧
    ofBytes [107, 61, 34, 0xC3, 0xA9, 34, 10] = .ok (.ofList [("k", .string "é")]) ∧
    (∃ error, ofStream (.ofBytes (.ofDeliveries [.bytes [107, 10, 0xC3], .bytes [10]])) =
      .error error) ∧
    ∃ error, ofBytes [107, 10, 0xC3, 10] = .error error := by
  have hsplit : Delivers [.bytes [107, 61, 34, 0xC3], .interruption, .bytes [0xA9, 34, 10],
      .bytes []] [107, 61, 34, 0xC3, 0xA9, 34, 10] :=
    .portion (by decide) (.interruption (.portion (by decide) (.ended [])))
  have hencoded : [107, 61, 34, 0xC3, 0xA9, 34, 10] = Utf8.encode "k=\"é\"\n" := by
    rw [Utf8.encode_eq]
    rfl
  have hmap : ofText "k=\"é\"\n" = .ok (.ofList [("k", .string "é")]) := by decide +kernel
  have hbroken : Delivers [.bytes [107, 10, 0xC3], .bytes [10]] [107, 10, 0xC3, 10] :=
    .portion (by decide) (.portion (by decide) .nil)
  have hnone (text : String) : [107, 10, 0xC3, 10] ≠ Utf8.encode text := by
    intro heq
    have hdecode := Utf8.decode_eq_ok_iff.mpr (heq.trans (Utf8.encode_eq text))
    have hfault : Utf8.decode [107, 10, 0xC3, 10] = .error (.invalid 1 2) := rfl
    cases hfault.symm.trans hdecode
  obtain ⟨hstream, hslice⟩ := (ofStream_of_delivers hsplit).1 _ hencoded
  obtain ⟨hrefused, hfault⟩ := (ofStream_of_delivers hbroken).2.1 hnone
  exact ⟨hstream.trans hmap, hslice.trans hmap, hrefused, hfault⟩

end SectionedConfig.ConfigMap
