import Mathlib.Tactic.IntervalCases
import SectionedConfig.Proofs.Text.Lines
import SectionedConfig.Text.Utf8

/-!
# UTF-8 is read as it is written

The reader takes a sequence of bytes for a character exactly if it is the encoding of that character
in strings, so it accepts the encodings of texts and nothing else. A line feed is encoded by a byte
that occurs in no other encoding. Cutting bytes into lines is therefore cutting the text that they
encode, and bytes whose lines are all texts are a text themselves.
-/

namespace SectionedConfig.Text.Utf8

open String (utf8EncodeChar)

/-! ## Reading one character -/

/-- Behind what has been read of a character, the bytes go on to a code point. -/
inductive Completes : Started → List UInt8 → Nat → Prop where
  | last {seen low high bits : Nat} {byte : UInt8}
      (hbounds : low ≤ byte.toNat ∧ byte.toNat ≤ high) :
      Completes ⟨seen, 0, low, high, bits⟩ [byte] (bits * 64 + (byte.toNat - 0x80))
  | next {seen later low high bits code : Nat} {byte : UInt8} {rest : List UInt8}
      (hbounds : low ≤ byte.toNat ∧ byte.toNat ≤ high)
      (hrest : Completes ⟨seen + 1, later, 0x80, 0xBF, bits * 64 + (byte.toNat - 0x80)⟩ rest code) :
      Completes ⟨seen, later + 1, low, high, bits⟩ (byte :: rest) code

/-- The bytes are taken for a character. -/
inductive Reads : List UInt8 → Char → Prop where
  | single {byte : UInt8} (hbyte : byte.toNat < 0x80) : Reads [byte] (Char.ofNat byte.toNat)
  | longer {byte : UInt8} {started : Started} {rest : List UInt8} {code : Nat}
      (hbyte : ¬ byte.toNat < 0x80) (hstart : start? byte.toNat = some started)
      (hrest : Completes started rest code) : Reads (byte :: rest) (Char.ofNat code)

theorem readFrom_of_completes {started : Started} {head : List UInt8} {code : Nat}
    (h : Completes started head code) (index : Nat) (rest : List UInt8) :
    ∃ next, readFrom index (some started) (head ++ rest) =
      (Char.ofNat code :: (readFrom next none rest).1, (readFrom next none rest).2) := by
  induction h with
  | last hbounds =>
    rw [List.singleton_append, readFrom, if_pos hbounds]
    exact ⟨_, rfl⟩
  | next hbounds _ ih =>
    rw [List.cons_append, readFrom, if_pos hbounds]
    exact ih

theorem readFrom_of_reads {head : List UInt8} {c : Char} (h : Reads head c) (index : Nat)
    (rest : List UInt8) :
    ∃ next, readFrom index none (head ++ rest) =
      (c :: (readFrom next none rest).1, (readFrom next none rest).2) := by
  cases h with
  | single hbyte =>
    rw [List.singleton_append, readFrom, if_pos hbyte]
    exact ⟨_, rfl⟩
  | longer hbyte hstart hrest =>
    rw [List.cons_append, readFrom, if_neg hbyte, hstart]
    exact readFrom_of_completes hrest index rest

theorem exists_completes {index : Nat} {started : Started} {bytes : List UInt8} {text : List Char}
    (h : readFrom index (some started) bytes = (text, none)) :
    ∃ head code rest next others, bytes = head ++ rest ∧ Completes started head code ∧
      text = Char.ofNat code :: others ∧ readFrom next none rest = (others, none) := by
  induction bytes generalizing started with
  | nil => cases h
  | cons byte bytes ih =>
    obtain ⟨seen, later, low, high, bits⟩ := started
    rw [readFrom] at h
    split at h
    next hbounds =>
      cases later with
      | zero =>
        obtain ⟨htext, hfault⟩ := Prod.mk.inj h
        exact ⟨[byte], _, bytes, _, _, rfl, .last hbounds, htext.symm, Prod.ext rfl hfault⟩
      | succ later =>
        obtain ⟨head, code, rest, next, others, rfl, hhead, htext, hrest⟩ := ih h
        exact ⟨byte :: head, code, rest, next, others, rfl, .next hbounds hhead, htext, hrest⟩
    next => cases h

/-- What is read without a fault starts with what is taken for the first character. -/
theorem exists_reads {index : Nat} {byte : UInt8} {bytes : List UInt8} {text : List Char}
    (h : readFrom index none (byte :: bytes) = (text, none)) :
    ∃ head c rest next others, byte :: bytes = head ++ rest ∧ Reads head c ∧
      text = c :: others ∧ readFrom next none rest = (others, none) := by
  rw [readFrom] at h
  split at h
  next hbyte =>
    obtain ⟨htext, hfault⟩ := Prod.mk.inj h
    exact ⟨[byte], _, bytes, _, _, rfl, .single hbyte, htext.symm, Prod.ext rfl hfault⟩
  next hbyte =>
    split at h
    next => cases h
    next started hstart =>
      obtain ⟨head, code, rest, next, others, rfl, hhead, htext, hrest⟩ := exists_completes h
      exact ⟨byte :: head, _, rest, next, others, rfl, .longer hbyte hstart hhead, htext, hrest⟩

/-! ## What the first byte of a longer character announces -/

theorem start?_two {byte : Nat} (h : 0xC2 ≤ byte ∧ byte < 0xE0) :
    start? byte = some ⟨1, 0, 0x80, 0xBF, byte - 0xC0⟩ := by
  rw [start?, if_neg (by omega), if_pos h.2]

theorem start?_three {byte : Nat} (h : 0xE0 ≤ byte ∧ byte < 0xF0) :
    ∃ low high, start? byte = some ⟨1, 1, low, high, byte - 0xE0⟩ ∧
      ∀ next, low ≤ next ∧ next ≤ high ↔ 0x80 ≤ next ∧ next ≤ 0xBF ∧
        (byte = 0xE0 → 0xA0 ≤ next) ∧ (byte = 0xED → next ≤ 0x9F) := by
  obtain ⟨hlow, hhigh⟩ := h
  interval_cases byte <;> exact ⟨_, _, rfl, by omega⟩

theorem start?_four {byte : Nat} (h : 0xF0 ≤ byte ∧ byte ≤ 0xF4) :
    ∃ low high, start? byte = some ⟨1, 2, low, high, byte - 0xF0⟩ ∧
      ∀ next, low ≤ next ∧ next ≤ high ↔ 0x80 ≤ next ∧ next ≤ 0xBF ∧
        (byte = 0xF0 → 0x90 ≤ next) ∧ (byte = 0xF4 → next ≤ 0x8F) := by
  obtain ⟨hlow, hhigh⟩ := h
  interval_cases byte <;> exact ⟨_, _, rfl, by omega⟩

theorem lead_of_start? {byte : Nat} {started : Started} (h : start? byte = some started) :
    (0xC2 ≤ byte ∧ byte < 0xE0) ∨ (0xE0 ≤ byte ∧ byte < 0xF0) ∨ (0xF0 ≤ byte ∧ byte ≤ 0xF4) := by
  by_contra hlead
  have hnone : start? byte = none := by
    unfold start?
    split_ifs <;> first | rfl | omega
  rw [hnone] at h
  cases h

/-! ## The encoding of a character -/

section

variable {first second third fourth : UInt8} {code : Nat}

/-- The encoding of a code point that is a character. -/
theorem utf8EncodeChar_ofNat (h : code < 0xD800 ∨ 0xDFFF < code ∧ code < 0x110000) :
    utf8EncodeChar (Char.ofNat code) =
      if code < 0x80 then [UInt8.ofNat code]
      else if code < 0x800 then
        [UInt8.ofNat (code / 64 + 0xC0), UInt8.ofNat (code % 64 + 0x80)]
      else if code < 0x10000 then
        [UInt8.ofNat (code / 4096 + 0xE0), UInt8.ofNat (code / 64 % 64 + 0x80),
          UInt8.ofNat (code % 64 + 0x80)]
      else
        [UInt8.ofNat (code / 262144 + 0xF0), UInt8.ofNat (code / 4096 % 64 + 0x80),
          UInt8.ofNat (code / 64 % 64 + 0x80), UInt8.ofNat (code % 64 + 0x80)] := by
  have hcode : (Char.ofNat code).val.toNat = code := by
    rw [Char.ofNat, dif_pos h]
    rfl
  unfold utf8EncodeChar
  rw [hcode]
  dsimp only
  by_cases hone : code < 0x80
  · rw [if_pos (Nat.le_of_lt_succ hone), if_pos hone]
  by_cases htwo : code < 0x800
  · have hfirst : code / 64 % 32 = code / 64 := by omega
    rw [if_neg (by omega), if_pos (by omega), if_neg hone, if_pos htwo, hfirst]
  by_cases hthree : code < 0x10000
  · have hfirst : code / 4096 % 16 = code / 4096 := by omega
    rw [if_neg (by omega), if_neg (by omega), if_pos (by omega), if_neg hone, if_neg htwo,
      if_pos hthree, hfirst]
  · have hfirst : code / 262144 % 8 = code / 262144 := by omega
    rw [if_neg (by omega), if_neg (by omega), if_neg (by omega), if_neg hone, if_neg htwo,
      if_neg hthree, hfirst]

theorem ofNat_eq (byte : UInt8) (h : code = byte.toNat) : UInt8.ofNat code = byte := by
  rw [h, UInt8.ofNat_toNat]

theorem utf8EncodeChar_two (hfirst : 0xC2 ≤ first.toNat ∧ first.toNat < 0xE0)
    (hsecond : 0x80 ≤ second.toNat ∧ second.toNat ≤ 0xBF) :
    utf8EncodeChar (Char.ofNat ((first.toNat - 0xC0) * 64 + (second.toNat - 0x80))) =
      [first, second] := by
  rw [utf8EncodeChar_ofNat (by omega), if_neg (by omega), if_pos (by omega),
    ofNat_eq first (by omega), ofNat_eq second (by omega)]

theorem utf8EncodeChar_three (hfirst : 0xE0 ≤ first.toNat ∧ first.toNat < 0xF0)
    (hsecond : 0x80 ≤ second.toNat ∧ second.toNat ≤ 0xBF ∧
      (first.toNat = 0xE0 → 0xA0 ≤ second.toNat) ∧ (first.toNat = 0xED → second.toNat ≤ 0x9F))
    (hthird : 0x80 ≤ third.toNat ∧ third.toNat ≤ 0xBF) :
    utf8EncodeChar (Char.ofNat (((first.toNat - 0xE0) * 64 + (second.toNat - 0x80)) * 64 +
      (third.toNat - 0x80))) = [first, second, third] := by
  rw [utf8EncodeChar_ofNat (by omega), if_neg (by omega), if_neg (by omega), if_pos (by omega),
    ofNat_eq first (by omega), ofNat_eq second (by omega), ofNat_eq third (by omega)]

theorem utf8EncodeChar_four (hfirst : 0xF0 ≤ first.toNat ∧ first.toNat ≤ 0xF4)
    (hsecond : 0x80 ≤ second.toNat ∧ second.toNat ≤ 0xBF ∧
      (first.toNat = 0xF0 → 0x90 ≤ second.toNat) ∧ (first.toNat = 0xF4 → second.toNat ≤ 0x8F))
    (hthird : 0x80 ≤ third.toNat ∧ third.toNat ≤ 0xBF)
    (hfourth : 0x80 ≤ fourth.toNat ∧ fourth.toNat ≤ 0xBF) :
    utf8EncodeChar (Char.ofNat ((((first.toNat - 0xF0) * 64 + (second.toNat - 0x80)) * 64 +
      (third.toNat - 0x80)) * 64 + (fourth.toNat - 0x80))) = [first, second, third, fourth] := by
  rw [utf8EncodeChar_ofNat (by omega), if_neg (by omega), if_neg (by omega), if_neg (by omega),
    ofNat_eq first (by omega), ofNat_eq second (by omega), ofNat_eq third (by omega),
    ofNat_eq fourth (by omega)]

theorem reads_two (h : 0x80 ≤ code ∧ code < 0x800) (hfirst : first.toNat = code / 64 + 0xC0)
    (hsecond : second.toNat = code % 64 + 0x80) : Reads [first, second] (Char.ofNat code) := by
  have hcode : (first.toNat - 0xC0) * 64 + (second.toNat - 0x80) = code := by omega
  rw [← hcode]
  exact .longer (by omega) (start?_two (by omega)) (.last (by omega))

theorem reads_three (h : 0x800 ≤ code ∧ code < 0x10000) (hvalid : code < 0xD800 ∨ 0xDFFF < code)
    (hfirst : first.toNat = code / 4096 + 0xE0) (hsecond : second.toNat = code / 64 % 64 + 0x80)
    (hthird : third.toNat = code % 64 + 0x80) : Reads [first, second, third] (Char.ofNat code) := by
  have hcode : ((first.toNat - 0xE0) * 64 + (second.toNat - 0x80)) * 64 +
      (third.toNat - 0x80) = code := by
    omega
  have hlead : 0xE0 ≤ first.toNat ∧ first.toNat < 0xF0 := by omega
  obtain ⟨low, high, hstart, hbounds⟩ := start?_three hlead
  have hnext := (hbounds second.toNat).mpr (by omega)
  rw [← hcode]
  exact .longer (by omega) hstart (.next hnext (.last (by omega)))

theorem reads_four (h : 0x10000 ≤ code ∧ code < 0x110000)
    (hfirst : first.toNat = code / 262144 + 0xF0) (hsecond : second.toNat = code / 4096 % 64 + 0x80)
    (hthird : third.toNat = code / 64 % 64 + 0x80) (hfourth : fourth.toNat = code % 64 + 0x80) :
    Reads [first, second, third, fourth] (Char.ofNat code) := by
  have hcode : (((first.toNat - 0xF0) * 64 + (second.toNat - 0x80)) * 64 +
      (third.toNat - 0x80)) * 64 + (fourth.toNat - 0x80) = code := by
    omega
  have hlead : 0xF0 ≤ first.toNat ∧ first.toNat ≤ 0xF4 := by omega
  obtain ⟨low, high, hstart, hbounds⟩ := start?_four hlead
  have hnext := (hbounds second.toNat).mpr (by omega)
  rw [← hcode]
  exact .longer (by omega) hstart (.next hnext (.next (by omega) (.last (by omega))))

end

/-- Nothing but the encoding of a character is taken for it. -/
theorem utf8EncodeChar_of_reads {head : List UInt8} {c : Char} (h : Reads head c) :
    utf8EncodeChar c = head := by
  cases h with
  | single hbyte => rw [utf8EncodeChar_ofNat (by omega), if_pos hbyte, UInt8.ofNat_toNat]
  | longer hbyte hstart hrest =>
    rcases lead_of_start? hstart with hlead | hlead | hlead
    · rw [start?_two hlead] at hstart
      cases hstart
      cases hrest with
      | last hsecond => exact utf8EncodeChar_two hlead hsecond
    · obtain ⟨low, high, hthree, hbounds⟩ := start?_three hlead
      obtain rfl := Option.some.inj (hthree.symm.trans hstart)
      cases hrest with
      | next hsecond hrest =>
        cases hrest with
        | last hthird => exact utf8EncodeChar_three hlead ((hbounds _).mp hsecond) hthird
    · obtain ⟨low, high, hfour, hbounds⟩ := start?_four hlead
      obtain rfl := Option.some.inj (hfour.symm.trans hstart)
      cases hrest with
      | next hsecond hrest =>
        cases hrest with
        | next hthird hrest =>
          cases hrest with
          | last hfourth =>
            exact utf8EncodeChar_four hlead ((hbounds _).mp hsecond) hthird hfourth

theorem toNat_ofNat {n : Nat} (h : n < 256) : (UInt8.ofNat n).toNat = n :=
  UInt8.toNat_ofNat_of_lt' h

/-- The encoding of a character is taken for it. -/
theorem reads_utf8EncodeChar (c : Char) : Reads (utf8EncodeChar c) c := by
  have hchar : Char.ofNat c.toNat = c := Char.ofNat_toNat c
  have hvalid : c.toNat < 0xD800 ∨ 0xDFFF < c.toNat ∧ c.toNat < 0x110000 := c.valid
  generalize c.toNat = code at hchar hvalid
  subst hchar
  rw [utf8EncodeChar_ofNat hvalid]
  split_ifs with hone htwo hthree
  · have hbyte : (UInt8.ofNat code).toNat = code := toNat_ofNat (by omega)
    have hsingle := Reads.single (hbyte.trans_lt hone)
    rwa [hbyte] at hsingle
  · exact reads_two (by omega) (toNat_ofNat (by omega)) (toNat_ofNat (by omega))
  · exact reads_three (by omega) (by omega) (toNat_ofNat (by omega)) (toNat_ofNat (by omega))
      (toNat_ofNat (by omega))
  · exact reads_four (by omega) (toNat_ofNat (by omega)) (toNat_ofNat (by omega))
      (toNat_ofNat (by omega)) (toNat_ofNat (by omega))

/-! ## Texts -/

theorem readFrom_eq_iff {index : Nat} {bytes : List UInt8} {text : List Char} :
    readFrom index none bytes = (text, none) ↔ bytes = text.flatMap utf8EncodeChar := by
  constructor
  · intro h
    induction text generalizing index bytes with
    | nil =>
      cases bytes with
      | nil => rfl
      | cons byte bytes =>
        obtain ⟨_, _, _, _, _, _, _, htext, _⟩ := exists_reads h
        cases htext
    | cons c text ih =>
      cases bytes with
      | nil => cases h
      | cons byte bytes =>
        obtain ⟨head, c, rest, next, others, hbytes, hhead, htext, hrest⟩ := exists_reads h
        cases htext
        rw [hbytes, List.flatMap_cons, utf8EncodeChar_of_reads hhead, ih hrest]
  · rintro rfl
    induction text generalizing index with
    | nil => rfl
    | cons c text ih =>
      obtain ⟨next, hnext⟩ :=
        readFrom_of_reads (reads_utf8EncodeChar c) index (text.flatMap utf8EncodeChar)
      rw [List.flatMap_cons, hnext, ih]

/-- Bytes are decoded if they are the encoding of a text, and only then. -/
theorem decode_eq_ok_iff {bytes : List UInt8} {text : List Char} :
    decode bytes = .ok text ↔ bytes = text.flatMap utf8EncodeChar := by
  rw [← readFrom_eq_iff, decode, read]
  cases readFrom 0 none bytes with
  | mk text fault => cases fault <;> simp

/-- A byte array lists what it was made of. -/
theorem toList_toByteArray (bytes : List UInt8) : bytes.toByteArray.toList = bytes := by
  have hloop (array : ByteArray) (index : Nat) (before : List UInt8) :
      ByteArray.toList.loop array index before =
        before.reverse ++ array.data.toList.drop index := by
    fun_induction ByteArray.toList.loop array index before with
    | case1 index before hindex ih =>
      have hlength : index < array.data.toList.length := hindex
      have hget : array.get! index = array.data.toList[index] :=
        getElem!_pos array.data index hindex
      rw [ih, List.drop_eq_getElem_cons hlength, hget, List.reverse_cons, List.append_assoc,
        List.singleton_append]
    | case2 index before hindex =>
      have hlength : array.data.toList.length ≤ index := Nat.le_of_not_lt hindex
      rw [List.drop_eq_nil_of_le hlength, List.append_nil]
  rw [ByteArray.toList, hloop, List.toList_data_toByteArray]
  rfl

/-- A text is encoded character by character. -/
theorem encode_eq (text : String) : encode text = text.toList.flatMap utf8EncodeChar := by
  have hbytes : text.toUTF8 = (text.toList.flatMap utf8EncodeChar).toByteArray := by
    rw [String.toUTF8_eq_toByteArray]
    exact (congrArg String.toByteArray String.ofList_toList.symm).trans String.toByteArray_ofList
  rw [encode, hbytes, toList_toByteArray]

/-! ## Lines -/

theorem utf8EncodeChar_feed : utf8EncodeChar '\n' = [10] := rfl

theorem utf8EncodeChar_ne_nil (c : Char) : utf8EncodeChar c ≠ [] := by
  intro hnil
  have hreads := reads_utf8EncodeChar c
  rw [hnil] at hreads
  cases hreads

theorem low_of_start? {byte : Nat} {started : Started} (h : start? byte = some started) :
    0x80 ≤ started.low := by
  unfold start? at h
  split_ifs at h <;> cases h <;> simp

theorem le_of_completes {started : Started} {head : List UInt8} {code : Nat}
    (h : Completes started head code) (hlow : 0x80 ≤ started.low) :
    ∀ byte ∈ head, 0x80 ≤ byte.toNat := by
  induction h with
  | last hbounds => exact List.forall_mem_singleton.mpr (hlow.trans hbounds.1)
  | next hbounds _ ih => exact List.forall_mem_cons.mpr ⟨hlow.trans hbounds.1, ih le_rfl⟩

/-- A line feed is encoded by a byte that occurs in no other encoding. -/
theorem eq_feed_of_reads {head : List UInt8} {c : Char} (h : Reads head c) (hmem : 10 ∈ head) :
    c = '\n' := by
  cases h with
  | single hbyte =>
    rw [← List.mem_singleton.mp hmem]
    rfl
  | longer hbyte hstart hrest =>
    have hlater := le_of_completes hrest (low_of_start? hstart)
    rcases List.mem_cons.mp hmem with rfl | hmem
    · exact absurd (by decide) hbyte
    · exact absurd (hlater 10 hmem) (by decide)

theorem notMem_flatMap {content : List Char} (h : '\n' ∉ content) :
    10 ∉ content.flatMap utf8EncodeChar := by
  intro hmem
  obtain ⟨c, hc, hbyte⟩ := List.mem_flatMap.mp hmem
  rw [eq_feed_of_reads (reads_utf8EncodeChar c) hbyte] at hc
  exact h hc

/-- The line with its content encoded. -/
def encodeLine (line : Line Char) : Line UInt8 :=
  ⟨line.content.flatMap utf8EncodeChar, line.terminated⟩

/-- The bytes of a text are cut into the bytes of its lines. -/
theorem cut_flatMap (text : List Char) :
    Line.cut 10 (text.flatMap utf8EncodeChar) = (Line.cut '\n' text).map encodeLine := by
  obtain ⟨contents, last, hcontents, hlast, rfl⟩ := Line.exists_contents '\n' text
  have hbytes : (contents.flatMap (· ++ ['\n']) ++ last).flatMap utf8EncodeChar =
      (contents.map fun content ↦ content.flatMap utf8EncodeChar).flatMap (· ++ [10]) ++
        last.flatMap utf8EncodeChar := by
    simp only [List.flatMap_append, List.flatMap_assoc, List.flatMap_map, List.flatMap_singleton,
      utf8EncodeChar_feed]
  have hnil : last.flatMap utf8EncodeChar = [] ↔ last = [] := by
    rw [List.flatMap_eq_nil_iff, List.eq_nil_iff_forall_not_mem]
    exact forall₂_congr fun c _ ↦ iff_false_intro (utf8EncodeChar_ne_nil c)
  have hencoded : ∀ content ∈ contents.map fun content ↦ content.flatMap utf8EncodeChar,
      10 ∉ content :=
    List.forall_mem_map.mpr fun content hcontent ↦ notMem_flatMap (hcontents content hcontent)
  rw [hbytes, Line.cut_flatMap_append hencoded (notMem_flatMap hlast),
    Line.cut_flatMap_append hcontents hlast, List.map_append, List.map_map, List.map_map]
  simp only [hnil]
  split <;> rfl

/-- Lines of bytes that are all texts are put together to a text. -/
theorem exists_flatMap_units {lines : List (Line UInt8)}
    (h : ∀ line ∈ lines, ∃ content : List Char, line.content = content.flatMap utf8EncodeChar) :
    ∃ text : List Char, lines.flatMap (Line.units 10) = text.flatMap utf8EncodeChar := by
  induction lines with
  | nil => exact ⟨[], rfl⟩
  | cons line rest ih =>
    obtain ⟨⟨content, hcontent⟩, hrest⟩ := List.forall_mem_cons.mp h
    obtain ⟨text, htext⟩ := ih hrest
    rw [List.flatMap_cons, htext, Line.units, hcontent]
    split
    next =>
      refine ⟨content ++ '\n' :: text, ?_⟩
      rw [List.flatMap_append, List.flatMap_cons, utf8EncodeChar_feed, List.append_assoc]
    next => exact ⟨content ++ text, List.flatMap_append.symm⟩

end SectionedConfig.Text.Utf8
