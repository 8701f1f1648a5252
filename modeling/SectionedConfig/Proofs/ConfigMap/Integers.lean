import SectionedConfig.Proofs.ConfigMap.Encoded
import SectionedConfig.Proofs.ConfigMap.OneLine
import SectionedConfig.Proofs.ConfigMap.Refusal
import SectionedConfig.Proofs.Decimal.Numeral

/-!
# Integers

A bare value that is a numeral is decoded as the value of the numeral if that fits in 64 bits. Any
other bare value is refused with its key, its text and its line. What is written for an integer, on
a line of its own, in a map or in a target, is such a numeral and is decoded as the integer.
-/

namespace SectionedConfig

open Decimal Text

/-! ## Bare values -/

/-- A text that can stand behind an equals sign and is neither a string nor a list there. -/
structure IsBareText (text : List Char) : Prop where
  unquoted : '"' ∉ text
  unremarked : '#' ∉ text
  unbroken : '\n' ∉ text
  unbracketed : (trim text).head? ≠ some '['

namespace IsBareText

variable {text : List Char}

theorem wellFormed (h : IsBareText text) : (ValueForm.bare (trim text)).WellFormed where
  recognisable := ⟨tight_trim text, h.unbracketed, fun hc ↦ h.unquoted (mem_of_mem_strip hc)⟩
  uncommented := uncommented_of_notMem (fun hc ↦ h.unremarked (mem_of_mem_strip hc)) false
  unbroken := fun hc ↦ h.unbroken (mem_of_mem_strip hc)

theorem closed (h : IsBareText text) :
    quotesAfter false (ValueForm.bare (trim text)).written = false :=
  quotesAfter_of_notMem (fun hc ↦ h.unquoted (mem_of_mem_strip hc)) false

/-- A bare value is a form between white space. -/
theorem exists_gaps (h : IsBareText text) :
    ∃ lead tail : Gap, text = lead.text ++ (ValueForm.bare (trim text)).written ++ tail.text := by
  obtain ⟨lead, tail, hlead, htail, htext⟩ : ∃ lead tail, Blank lead ∧ Blank tail ∧
      text = lead ++ trim text ++ tail := exists_eq_append_strip_append isBlank text
  have hunbroken : '\n' ∉ lead ++ trim text ++ tail := htext ▸ h.unbroken
  simp only [List.mem_append, not_or] at hunbroken
  exact ⟨⟨lead, hlead, hunbroken.1.1⟩, ⟨tail, htail, hunbroken.2⟩, htext⟩

end IsBareText

/-- The numeral of an integer is a bare value. -/
theorem isBareText_write (n : Int) : IsBareText (write n) where
  unquoted := notMem_write (by decide) (by decide)
  unremarked := notMem_write (by decide) (by decide)
  unbroken := notMem_write (by decide) (by decide)
  unbracketed := fun h ↦
    notMem_write (by decide) (by decide) (mem_of_mem_strip (List.mem_of_head? h))

namespace LineLayout

/-- The layout with more white space around the value. -/
def padded (layout : LineLayout) (lead tail : Gap) : LineLayout :=
  { layout with
    afterSign := layout.afterSign.append lead
    tail := tail.append layout.tail }

theorem text_padded (layout : LineLayout) (lead tail : Gap) (key : String) (value : List Char) :
    (layout.padded lead tail).text key value =
      layout.text key (lead.text ++ value ++ tail.text) := by
  have hspaced : (layout.padded lead tail).spaced value =
      layout.spaced (lead.text ++ value ++ tail.text) := by
    simp [spaced, padded, Gap.append]
  rw [text, text, content, content, hspaced]
  rfl

/-- The layout in which an assignment is rendered outside sections. -/
def rendered : LineLayout where
  lead := .none
  beforeSign := .space
  afterSign := .space
  tail := .none
  remark := none
  terminated := true
  unbroken := nofun

end LineLayout

/-- An assignment that is the only line of a document is rendered in this layout. -/
theorem Document.render_pushLine_assign (key : String) (form : ValueForm) :
    (pushLine .empty (.assign key form.token)).render =
      .ok (LineLayout.rendered.text key form.written) := by
  let clause := Sheet.assignmentLine (key, form)
  have htokens : Statement.tokensOf (pushLine .empty (.assign key form.token)).statements =
      [clause].flatMap Clause.freshTokens := by
    rw [List.flatMap_singleton]
    exact tokensOf_assign (key, form)
  let sheet : Sheet := ⟨[clause], none⟩
  have hsheet : numberLines 1 ([clause].flatMap Clause.freshTokens) = [] ++ sheet.tokens := by
    rw [numberLines_flatMap]
    exact (List.append_nil _).symm
  have htext : String.ofList sheet.text = LineLayout.rendered.text key form.written := by
    simp [sheet, clause, Sheet.text, Sheet.contentsOf, Sheet.lastContent, Sheet.assignmentLine,
      Clause.text, Layout.Cursor.gap, LineLayout.text, LineLayout.content, LineLayout.spaced,
      LineLayout.rendered, Gap.none, Gap.space]
  rw [Document.render_eq, htokens, hsheet, Sheet.render_tokens sheet [] (List.forall_mem_nil _),
    htext]

namespace ConfigMap

/-- A line with a bare value makes an entry with the integer that the value is read as, or is
refused if there is none. -/
theorem ofText_line_bare {key : String} (hkey : IsNameText key.toList) (layout : LineLayout)
    {value : List Char} (hvalue : IsBareText value) :
    ofText (layout.text key value) =
      match readInt64? (trim value) with
      | some number => .ok (.ofList [(key, .int64 number)])
      | none => .error (.invalidInteger key (String.ofList (trim value)) 1) := by
  obtain ⟨lead, tail, htext⟩ := hvalue.exists_gaps
  have hline := ofText_line (layout.padded lead tail) hkey hvalue.wellFormed hvalue.closed
  rw [LineLayout.text_padded, ← htext] at hline
  let token := (ValueForm.bare (trim value)).lexeme.onLine 1
  have htrim : trim token.value.toList = trim value := by
    change trim (String.ofList (trim value)).toList = trim value
    rw [String.toList_ofList, trim_eq_self (tight_trim value)]
  rw [hline]
  change ((Assignment.integer key token).map fun number ↦ (key, Value.int64 number)).map
    (fun entry ↦ OrderedMap.ofList [entry]) = _
  cases hread : readInt64? (trim value) with
  | some number =>
    have hdenotes : Denotes (trim token.value.toList) number.toInt :=
      htrim.symm ▸ readInt64?_eq_some_iff.mp hread
    rw [Assignment.integer_eq_ok_iff.mpr hdenotes]
    rfl
  | none =>
    have hnone : ¬ IsInt64 (trim token.value.toList) := htrim.symm ▸ not_isInt64_iff.mpr hread
    rw [Assignment.integer_eq_error_iff.mpr ⟨hnone, rfl⟩]
    rfl

variable {text key : String} {number : Int64}

/-- A line with a bare value makes an entry with the integer that the value denotes, and with no
other one. -/
theorem ofText_line_eq_ok_iff (hkey : IsNameText key.toList) (layout : LineLayout)
    {value : List Char} (hvalue : IsBareText value) :
    (ofText (layout.text key value)).map OrderedMap.entries = .ok [(key, .int64 number)] ↔
      Denotes (trim value) number.toInt := by
  have hentries (found : Int64) :
      (OrderedMap.ofList [(key, Value.int64 found)]).entries = [(key, .int64 found)] := rfl
  rw [← readInt64?_eq_some_iff, ofText_line_bare hkey layout hvalue]
  cases readInt64? (trim value) with
  | some found => simp [Except.map, hentries]
  | none => simp [Except.map]

/-! ## Written integers -/

/-- An assignment of an integer on a line of its own is rendered, and is decoded as the integer. -/
theorem exists_ofText_pushLine (hkey : IsNameText key.toList) (number : Int64) :
    ∃ text, (Document.pushLine .empty (.assignInt64 key number)).render = .ok text ∧
      (ofText text).map OrderedMap.entries = .ok [(key, .int64 number)] := by
  refine ⟨_, Document.render_pushLine_assign key (.bare (write number.toInt)), ?_⟩
  have htight := (Value.wellFormed_bare_write number.toInt).recognisable.1
  refine (ofText_line_eq_ok_iff hkey .rendered (isBareText_write number.toInt)).mpr ?_
  rw [trim_eq_self htight, ← read?_eq_some_iff, read?_write]

/-- A map of nothing but an integer is encoded. -/
theorem exists_encode_integer (header : Option String) {place : Place} (hplace : place.Named)
    (number : Int64) : ∃ text, encode header (.ofList [(place.key, .int64 number)]) = .ok text := by
  have hkey : IsPlaceKey place.key :=
    isPlaceKey_iff.mpr ⟨place, placeOfKey_eq_ok_iff.mpr ⟨hplace, rfl⟩⟩
  refine exists_encode_iff.mpr fun entry hentry ↦ ?_
  obtain rfl := List.mem_singleton.mp hentry
  exact ⟨hkey, trivial⟩

/-- A text that is encoded from a map or a target in which a key has an integer. -/
inductive EncodedWith (text key : String) (number : Int64) : Prop where
  | map {header : Option String} {map : ConfigMap} (hnumber : map.get? key = some (.int64 number))
      (htext : map.encode header = .ok text)
  | target {Target : Type} {schema : Schema Target} {header : Option String} {source : Target}
      {place : Place} {get : Target → Int64} {set : Int64 → Target → Target}
      (hslot : schema.Binds place (.int64 get set)) (hkey : place.key = key)
      (hnumber : get source = number) (htext : schema.encode header source = .ok text)

/-- An encoded integer is decoded as it was, whatever else is encoded with it. -/
theorem EncodedWith.exists_ofText (h : EncodedWith text key number) :
    ∃ decoded, ofText text = .ok decoded ∧ decoded.get? key = some (.int64 number) := by
  cases h with
  | map hnumber htext =>
    obtain ⟨decoded, hdecoded, hget⟩ := exists_ofText_encode htext
    exact ⟨decoded, hdecoded, hget key _ hnumber⟩
  | target hslot hkey hnumber htext =>
    subst hkey hnumber
    obtain ⟨decoded, hdecoded, hget⟩ := Schema.exists_ofText_encode htext
    exact ⟨decoded, hdecoded, hget _ _ hslot⟩

/-! ## Exact values -/

/-- A bare value is decoded as the integer that it denotes, if that is within the bounds of 64 bits,
and is refused with its key, its text and its line if it denotes no such integer. An integer is
decoded from what is written for it on a line of its own, and from every text in which it is
encoded. -/
theorem ofText_line_numeral {key : String} (hkey : IsNameText key.toList) :
    (∀ (layout : LineLayout) (value : List Char), IsBareText value →
      (∀ n : Int,
        (∃ number : Int64, number.toInt = n ∧
          (ofText (layout.text key value)).map OrderedMap.entries = .ok [(key, .int64 number)]) ↔
            (-2 ^ 63 ≤ n ∧ n ≤ 2 ^ 63 - 1) ∧ Denotes (trim value) n) ∧
      ((∀ n : Int, -2 ^ 63 ≤ n ∧ n ≤ 2 ^ 63 - 1 → ¬ Denotes (trim value) n) →
        ofText (layout.text key value) =
          .error (.invalidInteger key (String.ofList (trim value)) 1))) ∧
    ∀ number : Int64,
      (∃ text, (Document.pushLine .empty (.assignInt64 key number)).render = .ok text ∧
        (ofText text).map OrderedMap.entries = .ok [(key, .int64 number)]) ∧
      (∀ header place, Place.Named place →
        ∃ text, encode header (.ofList [(place.key, .int64 number)]) = .ok text) ∧
      ∀ text entryKey, EncodedWith text entryKey number →
        ∃ decoded, ofText text = .ok decoded ∧ decoded.get? entryKey = some (.int64 number) := by
  constructor
  · intro layout value hvalue
    constructor
    · intro n
      rw [← exists_toInt_eq_iff, ← exists_and_right]
      refine exists_congr fun number ↦ and_congr_right ?_
      rintro rfl
      exact ofText_line_eq_ok_iff hkey layout hvalue
    · intro hnone
      rw [ofText_line_bare hkey layout hvalue, readInt64?_eq_none_iff.mpr hnone]
  · intro number
    refine ⟨exists_ofText_pushLine hkey number, ?_, ?_⟩
    · exact fun header place hplace ↦ exists_encode_integer header hplace number
    · exact fun text entryKey h ↦ h.exists_ofText

/-- The least integer with a zero in front of it, the integer above the greatest one with a sign and
white space around it, and a section in which the least integer is encoded. -/
theorem ofText_line_numeral_extremes :
    IsNameText "k".toList ∧
      (ofText "k=-09223372036854775808").map OrderedMap.entries =
        .ok [("k", .int64 Int64.minValue)] ∧
      ofText "k=\t+9223372036854775808 " =
        .error (.invalidInteger "k" "+9223372036854775808" 1) ∧
      ∃ decoded, ofText "s \x7b\n\tn = -9223372036854775808\n\x7d\n" = .ok decoded ∧
        decoded.get? "s/n" = some (.int64 Int64.minValue) := by
  have hkey : IsNameText "k".toList := (nameFault?_eq_none_iff.mp (by decide)).isNameText
  let layout : LineLayout := ⟨.none, .none, .none, .none, none, false, nofun⟩
  obtain ⟨hline, hwritten⟩ := ofText_line_numeral hkey
  refine ⟨hkey, ?_, ?_, ?_⟩
  · have hvalue : IsBareText "-09223372036854775808".toList :=
      ⟨by decide, by decide, by decide, by decide⟩
    obtain ⟨number, hnumber, hdecoded⟩ :=
      ((hline layout _ hvalue).1 (-2 ^ 63)).mpr ⟨by decide, by decide⟩
    obtain rfl : number = Int64.minValue := Int64.toInt_inj.mp hnumber
    exact hdecoded
  · have hvalue : IsBareText "\t+9223372036854775808 ".toList :=
      ⟨by decide, by decide, by decide, by decide⟩
    exact (hline layout _ hvalue).2 (readInt64?_eq_none_iff.mp (by decide))
  · have hencode : encode none (.ofList [("s/n", .int64 Int64.minValue)]) =
        .ok "s \x7b\n\tn = -9223372036854775808\n\x7d\n" := by
      decide +kernel
    exact (hwritten Int64.minValue).2.2 _ _ (.map rfl hencode)

end ConfigMap

end SectionedConfig
