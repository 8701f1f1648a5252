import SectionedConfig.Proofs.ConfigMap.RoundTrip
import SectionedConfig.Proofs.Document.Appending

/-!
# Refused maps

A map is refused for a key that does not name a field of a section, or else for a value that would
not read back, and for nothing else. The first key in the order of the map is reported, whatever the
values are. If all keys are good, it is the first value in the order of the places, with its field
and the reason in words. Putting the sections together and writing them cannot fail.
-/

namespace SectionedConfig

open Text

/-! ## Keys -/

/-- The key consists of two nonempty texts around its only separator. -/
structure Separated (key sectionName field : String) : Prop where
  key_eq : key = composeKey sectionName field
  sectionName_ne : sectionName ≠ ""
  field_ne : field ≠ ""
  sectionName_plain : keySeparator ∉ sectionName.toList
  field_plain : keySeparator ∉ field.toList

/-- A key with a name on each side of its only separator. -/
def IsPlaceKey (key : String) : Prop :=
  ∃ sectionName field, Separated key sectionName field ∧ IsName sectionName ∧ IsName field

/-- The error that a key is refused with. The names are looked at from left to right, and only if
there are two of them. -/
inductive KeyFault (key : String) : Error → Prop where
  | invalidKey (h : ∀ sectionName field, ¬ Separated key sectionName field) :
      KeyFault key (.invalidKey key)
  | invalidSection {sectionName field reason : String} (h : Separated key sectionName field)
      (hrefused : NameRefused sectionName reason) :
      KeyFault key (.invalidName sectionName reason)
  | invalidField {sectionName field reason : String} (h : Separated key sectionName field)
      (hsection : IsName sectionName) (hrefused : NameRefused field reason) :
      KeyFault key (.invalidName field reason)

theorem separated_iff {key sectionName field : String} :
    Separated key sectionName field ↔ splitKey? key = some (sectionName, field) ∧
      ¬ (sectionName.isEmpty ∨ field.isEmpty ∨ keySeparator ∈ field.toList) := by
  simp only [String.isEmpty_iff, not_or]
  constructor
  · rintro ⟨rfl, hsection, hfield, hplain, hfieldPlain⟩
    refine ⟨?_, hsection, hfield, hfieldPlain⟩
    rw [splitKey?, toList_composeKey]
    rw [keySeparator] at hplain ⊢
    rw [cutFirst_append hplain]
    simp
  · rintro ⟨hsplit, hsection, hfield, hfieldPlain⟩
    obtain ⟨⟨before, after⟩, hcut, hpair⟩ := Option.map_eq_some_iff.mp hsplit
    obtain ⟨rfl, rfl⟩ := Prod.mk.inj hpair
    obtain ⟨htext, hplain⟩ := cutFirst_eq_some hcut
    refine ⟨?_, hsection, hfield, by simpa using hplain, hfieldPlain⟩
    apply String.toList_injective
    simp [htext, toList_composeKey, keySeparator]

theorem Separated.placeOfKey_eq {key sectionName field : String}
    (h : Separated key sectionName field) :
    placeOfKey key =
      (checkName sectionName).bind fun _ ↦ (checkName field).map fun _ ↦ ⟨sectionName, field⟩ := by
  obtain ⟨hsplit, hparts⟩ := separated_iff.mp h
  rw [placeOfKey, hsplit]
  exact if_neg hparts

theorem placeOfKey_of_not_separated {key : String}
    (h : ∀ sectionName field, ¬ Separated key sectionName field) :
    placeOfKey key = .error (.invalidKey key) := by
  unfold placeOfKey
  split
  next => rfl
  next sectionName field hsplit =>
    split
    next => rfl
    next hparts => exact absurd (separated_iff.mpr ⟨hsplit, hparts⟩) (h sectionName field)

theorem isPlaceKey_iff {key : String} : IsPlaceKey key ↔ ∃ place, placeOfKey key = .ok place := by
  constructor
  · rintro ⟨sectionName, field, h, hsection, hfield⟩
    rw [h.placeOfKey_eq, checkName_eq_ok_iff.mpr hsection, checkName_eq_ok_iff.mpr hfield]
    exact ⟨_, rfl⟩
  · rintro ⟨place, hplace⟩
    obtain ⟨hnamed, hkey⟩ := placeOfKey_eq_ok_iff.mp hplace
    by_cases h : ∃ sectionName field, Separated key sectionName field
    · obtain ⟨sectionName, field, h⟩ := h
      rw [h.placeOfKey_eq] at hplace
      obtain ⟨_, hsection, hplace⟩ := bind_eq_ok_iff.mp hplace
      obtain ⟨_, hfield, _⟩ := map_eq_ok_iff.mp hplace
      exact ⟨_, _, h, checkName_eq_ok_iff.mp hsection, checkName_eq_ok_iff.mp hfield⟩
    · rw [placeOfKey_of_not_separated fun sectionName field hseparated ↦
        h ⟨sectionName, field, hseparated⟩] at hplace
      cases hplace

theorem placeOfKey_eq_error_iff {key : String} {error : Error} :
    placeOfKey key = .error error ↔ KeyFault key error := by
  by_cases h : ∃ sectionName field, Separated key sectionName field
  · obtain ⟨sectionName, field, h⟩ := h
    rw [h.placeOfKey_eq]
    constructor
    · intro herror
      rcases bind_eq_error_iff.mp herror with hsection | ⟨_, hsection, hfield⟩
      · obtain ⟨reason, hrefused, rfl⟩ := checkName_eq_error_iff.mp hsection
        exact .invalidSection h hrefused
      · obtain ⟨reason, hrefused, rfl⟩ := checkName_eq_error_iff.mp (map_eq_error_iff.mp hfield)
        exact .invalidField h (checkName_eq_ok_iff.mp hsection) hrefused
    · -- There is only one way to separate a key.
      have hsame {sectionName' field' : String} (h' : Separated key sectionName' field') :
          (sectionName', field') = (sectionName, field) :=
        Option.some.inj ((separated_iff.mp h').1.symm.trans (separated_iff.mp h).1)
      intro herror
      cases herror with
      | invalidKey hnot => exact absurd h (hnot sectionName field)
      | invalidSection h' hrefused =>
        obtain ⟨rfl, rfl⟩ := Prod.mk.inj (hsame h')
        rw [checkName_eq_error_iff.mpr ⟨_, hrefused, rfl⟩]
        rfl
      | invalidField h' hsection hrefused =>
        obtain ⟨rfl, rfl⟩ := Prod.mk.inj (hsame h')
        rw [checkName_eq_ok_iff.mpr hsection, checkName_eq_error_iff.mpr ⟨_, hrefused, rfl⟩]
        rfl
  · have hnot (sectionName field : String) : ¬ Separated key sectionName field :=
      fun hseparated ↦ h ⟨sectionName, field, hseparated⟩
    rw [placeOfKey_of_not_separated hnot]
    constructor
    · rintro ⟨⟩
      exact .invalidKey hnot
    · intro herror
      cases herror with
      | invalidKey => rfl
      | invalidSection h' => exact absurd h' (hnot _ _)
      | invalidField h' => exact absurd h' (hnot _ _)

/-! ## Values -/

/-- What is wrong with a list item: the first reserved character in it, or else the white space
around it. -/
inductive ItemRefused (item : String) : String → Prop where
  | character {before after : List Char} {c : Char} (h : item.toList = before ++ c :: after)
      (hbefore : ∀ earlier ∈ before, earlier ∉ itemReserved) (hc : c ∈ itemReserved) :
      ItemRefused item ("list element " ++ quoted item ++ " contains " ++ quotedChar c)
  | blank (hplain : ∀ c ∈ item.toList, c ∉ itemReserved) (h : ¬ Tight isBlank item.toList) :
      ItemRefused item ("list element " ++ quoted item ++ " has surrounding whitespace")

namespace Value

/-- A value that is encoded: an integer, a string without line breaks, quotation marks and opening
brackets, or a list of items. -/
def Encodable : Value → Prop
  | string text => '\n' ∉ text.toList ∧ '\r' ∉ text.toList ∧ '"' ∉ text.toList ∧ '[' ∉ text.toList
  | list items => ∀ item ∈ items, IsItem item
  | _ => True

/-- What is wrong with a value. Line breaks are noticed before quotation marks, those before
brackets, and a list is at fault for its first bad item. -/
inductive Refused : Value → String → Prop where
  | lineBreak {text : String} (h : '\n' ∈ text.toList ∨ '\r' ∈ text.toList) :
      Refused (string text) "string contains a line break"
  | quotationMark {text : String} (hfeed : '\n' ∉ text.toList) (hreturn : '\r' ∉ text.toList)
      (h : '"' ∈ text.toList) : Refused (string text) "string contains a quote"
  | bracket {text : String} (hfeed : '\n' ∉ text.toList) (hreturn : '\r' ∉ text.toList)
      (hquote : '"' ∉ text.toList) (h : '[' ∈ text.toList) :
      Refused (string text) "string containing '[' would decode as a list"
  | item {before after : List String} {item reason : String}
      (hbefore : ∀ earlier ∈ before, IsItem earlier) (h : ItemRefused item reason) :
      Refused (list (before ++ item :: after)) reason

theorem itemFault?_eq_none_iff {item : String} : itemFault? item = none ↔ IsItem item := by
  refine ⟨isItem_of_itemFault?, fun h ↦ ?_⟩
  have hfind : item.toList.find? (fun c ↦ itemReserved.contains c) = none := by
    rw [List.find?_eq_none]
    intro c hc
    simpa using h.plain c hc
  rw [itemFault?, hfind]
  exact if_pos (trim_eq_self h.tight)

theorem itemRefused_of_itemFault? {item : String} {fault : ValueFault}
    (h : itemFault? item = some fault) : ItemRefused item fault.message := by
  unfold itemFault? at h
  split at h
  next c hfind =>
    obtain ⟨hc, before, after, hitem, hbefore⟩ := List.find?_eq_some_iff_append.mp hfind
    obtain rfl := Option.some.inj h
    exact .character hitem (by simpa using hbefore) (by simpa using hc)
  next hfind =>
    split at h
    next => cases h
    next hblank =>
      obtain rfl := Option.some.inj h
      exact .blank (by simpa using hfind) fun htight ↦ hblank (trim_eq_self htight)

theorem exists_itemFault?_of_itemRefused {item reason : String} (h : ItemRefused item reason) :
    ∃ fault, itemFault? item = some fault ∧ fault.message = reason := by
  unfold itemFault?
  cases h with
  | @character before after c hitem hbefore hc =>
    have hfind : item.toList.find? (fun c ↦ itemReserved.contains c) = some c :=
      List.find?_eq_some_iff_append.mpr
        ⟨by simpa using hc, before, after, hitem, by simpa using hbefore⟩
    rw [hfind]
    exact ⟨.itemCharacter item c, rfl, rfl⟩
  | blank hplain hblank =>
    have hfind : item.toList.find? (fun c ↦ itemReserved.contains c) = none := by
      simpa using hplain
    rw [hfind]
    refine ⟨.itemBlank item, if_neg fun htrim ↦ hblank ?_, rfl⟩
    rw [← htrim]
    exact tight_trim item.toList

theorem encodable_or_refused (value : Value) :
    value.Encodable ∨ ∃ reason, value.Refused reason := by
  cases value with
  | int64 number => exact .inl trivial
  | string text =>
    by_cases hfeed : '\n' ∈ text.toList
    · exact .inr ⟨_, .lineBreak (.inl hfeed)⟩
    by_cases hreturn : '\r' ∈ text.toList
    · exact .inr ⟨_, .lineBreak (.inr hreturn)⟩
    by_cases hquote : '"' ∈ text.toList
    · exact .inr ⟨_, .quotationMark hfeed hreturn hquote⟩
    by_cases hbracket : '[' ∈ text.toList
    · exact .inr ⟨_, .bracket hfeed hreturn hquote hbracket⟩
    exact .inl ⟨hfeed, hreturn, hquote, hbracket⟩
  | list items =>
    cases hfault : items.findSome? itemFault? with
    | none =>
      rw [List.findSome?_eq_none_iff] at hfault
      exact .inl fun item hitem ↦ itemFault?_eq_none_iff.mp (hfault item hitem)
    | some fault =>
      obtain ⟨before, item, after, rfl, hitem, hbefore⟩ := List.findSome?_eq_some_iff.mp hfault
      refine .inr ⟨fault.message, .item ?_ (itemRefused_of_itemFault? hitem)⟩
      exact fun earlier hearlier ↦ itemFault?_eq_none_iff.mp (hbefore earlier hearlier)
  | emptyList => exact .inl trivial

theorem Encodable.exists_encode {value : Value} (h : value.Encodable) (field : String) :
    ∃ statement, value.encode field = .ok statement := by
  cases value with
  | int64 number => exact ⟨_, rfl⟩
  | string text =>
    obtain ⟨hfeed, hreturn, hquote, hbracket⟩ := h
    simp [encode, textFault?, hfeed, hreturn, hquote, hbracket]
  | list items =>
    have hfault : items.findSome? itemFault? = none :=
      List.findSome?_eq_none_iff.mpr fun item hitem ↦ itemFault?_eq_none_iff.mpr (h item hitem)
    simp [encode, hfault]
  | emptyList => exact ⟨_, rfl⟩

theorem Refused.encode_eq {value : Value} {reason : String} (h : value.Refused reason)
    (field : String) : value.encode field = .error (.unsupportedValue field reason) := by
  cases h with
  | lineBreak h =>
    simp only [encode, textFault?, if_pos h]
    rfl
  | quotationMark hfeed hreturn h =>
    simp only [encode, textFault?, hfeed, hreturn, or_self, if_false, if_pos h]
    rfl
  | bracket hfeed hreturn hquote h =>
    simp only [encode, textFault?, hfeed, hreturn, or_self, if_false, hquote, if_pos h]
    rfl
  | @item before after item reason hbefore h =>
    obtain ⟨fault, hitem, rfl⟩ := exists_itemFault?_of_itemRefused h
    have hfault : (before ++ item :: after).findSome? itemFault? = some fault :=
      List.findSome?_eq_some_iff.mpr ⟨before, item, after, rfl, hitem,
        fun earlier hearlier ↦ itemFault?_eq_none_iff.mpr (hbefore earlier hearlier)⟩
    simp only [encode, hfault]
    rfl

theorem encode_eq_error_iff {field : String} {value : Value} {error : Error} :
    value.encode field = .error error ↔
      ∃ reason, value.Refused reason ∧ error = .unsupportedValue field reason := by
  constructor
  · intro herror
    rcases value.encodable_or_refused with h | ⟨reason, h⟩
    · obtain ⟨statement, hstatement⟩ := h.exists_encode field
      cases herror.symm.trans hstatement
    · rw [h.encode_eq field] at herror
      exact ⟨reason, h, (Except.error.inj herror).symm⟩
  · rintro ⟨reason, h, rfl⟩
    exact h.encode_eq field

theorem encodable_iff {value : Value} {field : String} :
    value.Encodable ↔ ∃ statement, value.encode field = .ok statement := by
  refine ⟨fun h ↦ h.exists_encode field, ?_⟩
  rintro ⟨statement, hstatement⟩
  refine value.encodable_or_refused.resolve_right ?_
  rintro ⟨reason, h⟩
  cases hstatement.symm.trans (h.encode_eq field)

end Value

/-! ## Maps -/

namespace ConfigMap

/-- The error for the first bad key of a map, in the order of the map. -/
def FirstKeyFault (map : ConfigMap) (error : Error) : Prop :=
  ∃ before key after, map.keys = before ++ key :: after ∧
    (∀ earlier ∈ before, IsPlaceKey earlier) ∧ KeyFault key error

/-- All keys are good, and the error is for the first bad value of the map, by section and by field
in the same section. It names the field. -/
def FirstValueFault (map : ConfigMap) (error : Error) : Prop :=
  (∀ key ∈ map.keys, IsPlaceKey key) ∧
    ∃ place : Place, ∃ value reason, (place.key, value) ∈ map.entries ∧ value.Refused reason ∧
      error = .unsupportedValue place.field reason ∧
      ∀ other : Place, ∀ value', (other.key, value') ∈ map.entries → other.Before place →
        value'.Encodable

theorem index_eq_error_iff {map : ConfigMap} {error : Error} :
    map.index = .error error ↔ map.FirstKeyFault error := by
  have hkeys : map.index = .error error ↔ map.keys.mapM placeOfKey = .error error := by
    rw [index, map_eq_error_iff, OrderedMap.keys, List.mapM_map]
    exact mapM_eq_error_congr fun entry _ _ ↦ map_eq_error_iff
  rw [hkeys, mapM_eq_error_iff, FirstKeyFault]
  simp only [isPlaceKey_iff, placeOfKey_eq_error_iff]

theorem exists_index_iff {map : ConfigMap} :
    (∃ index, map.index = .ok index) ↔ ∀ key ∈ map.keys, IsPlaceKey key := by
  constructor
  · rintro ⟨index, hindex⟩ key hkey
    obtain ⟨⟨_, value⟩, hentry, rfl⟩ := List.mem_map.mp hkey
    obtain ⟨hnamed, hentries⟩ := index_spec hindex
    obtain ⟨place, hplace, rfl⟩ := (hentries _ value).mp hentry
    exact isPlaceKey_iff.mpr ⟨place, placeOfKey_eq_ok_iff.mpr ⟨hnamed _ hplace, rfl⟩⟩
  · intro h
    apply exists_index
    intro entry hentry
    obtain ⟨place, hplace⟩ := isPlaceKey_iff.mp (h entry.1 (List.mem_map_of_mem hentry))
    exact ⟨place, placeOfKey_eq_ok_iff.mp hplace⟩

/-- The sections of an index are refused for the first of its entries that is. -/
theorem mapM_encodeSection_eq_error_iff {index : Index Value} {error : Error} :
    index.sections.mapM encodeSection = .error error ↔
      (index.entries.mapM fun entry ↦ entry.2.encode entry.1.field) = .error error := by
  rw [← index.flatMap_sections, mapM_flatMap_eq_error_iff]
  apply mapM_eq_error_congr
  intro block _ cause
  rw [encodeSection, map_eq_error_iff, Index.entriesOf, List.mapM_map]
  rfl

/-- The values of an index are refused for the first of them that is bad. -/
theorem mapM_encode_eq_error_iff {map : ConfigMap} {index : Index Value}
    (h : map.index = .ok index) {error : Error} :
    (index.entries.mapM fun entry ↦ entry.2.encode entry.1.field) = .error error ↔
      map.FirstValueFault error := by
  have hkeys := exists_index_iff.mp ⟨index, h⟩
  obtain ⟨hnamed, hentries⟩ := index_spec h
  have hmem (place : Place) (value : Value) :
      (place.key, value) ∈ map.entries ↔ (place, value) ∈ index.entries := by
    rw [hentries]
    refine ⟨?_, fun hplace ↦ ⟨place, hplace, rfl⟩⟩
    rintro ⟨other, hother, hkey⟩
    obtain rfl := (Place.composeKey_eq_key_iff (hnamed _ hother)).mp hkey
    exact hother
  simp only [mapM_eq_error_iff, FirstValueFault, hmem, Value.encode_eq_error_iff,
    ← Value.encodable_iff]
  constructor
  · rintro ⟨before, ⟨place, value⟩, after, hsplit, hbefore, reason, hrefused, rfl⟩
    refine ⟨hkeys, place, value, reason, by simp [hsplit], hrefused, rfl, ?_⟩
    intro other value' hother hlt
    exact hbefore _ ((Index.mem_before_iff hsplit (other, value')).mpr ⟨hother, hlt⟩)
  · rintro ⟨_, place, value, reason, hplace, hrefused, rfl, hfirst⟩
    obtain ⟨before, after, hsplit⟩ := List.append_of_mem hplace
    refine ⟨before, (place, value), after, hsplit, ?_, reason, hrefused, rfl⟩
    rintro ⟨other, value'⟩ hearlier
    obtain ⟨hother, hlt⟩ := (Index.mem_before_iff hsplit (other, value')).mp hearlier
    exact hfirst other value' hother hlt

/-- A document that has been put together can be written. -/
theorem exists_render_of_toDocument {map : ConfigMap} {header : Option String}
    {document : Document} (h : map.toDocument header = .ok document) :
    ∃ text, document.render = .ok text := by
  obtain ⟨index, _, hdocument⟩ := bind_eq_ok_iff.mp h
  obtain ⟨sections, hsections, rfl⟩ := map_eq_ok_iff.mp hdocument
  have hencode : ∀ field (value : Value) statement, value.encode field = .ok statement →
      value.ReadsBack ∧ statement = .assign field value.form.token :=
    fun _ _ _ ↦ Value.encode_eq_ok
  obtain ⟨_, rfl⟩ := eq_blockStatements_of_mapM hencode hsections
  exact ⟨_, render_ofSections header (index.map Value.form)⟩

theorem encode_eq_error_iff {map : ConfigMap} {header : Option String} {error : Error} :
    map.encode header = .error error ↔ map.FirstKeyFault error ∨ map.FirstValueFault error := by
  have hrender : map.encode header = .error error ↔ map.toDocument header = .error error := by
    refine bind_eq_error_iff.trans (or_iff_left ?_)
    rintro ⟨document, hdocument, herror⟩
    obtain ⟨text, htext⟩ := exists_render_of_toDocument hdocument
    cases herror.symm.trans htext
  rw [hrender, toDocument, bind_eq_error_iff, index_eq_error_iff]
  refine or_congr_right ⟨?_, fun h ↦ ?_⟩
  · rintro ⟨index, hindex, h⟩
    exact (mapM_encode_eq_error_iff hindex).mp
      (mapM_encodeSection_eq_error_iff.mp (map_eq_error_iff.mp h))
  · obtain ⟨index, hindex⟩ := exists_index_iff.mpr h.1
    exact ⟨index, hindex, map_eq_error_iff.mpr
      (mapM_encodeSection_eq_error_iff.mpr ((mapM_encode_eq_error_iff hindex).mpr h))⟩

theorem exists_encode_iff {map : ConfigMap} {header : Option String} :
    (∃ text, map.encode header = .ok text) ↔
      ∀ entry ∈ map.entries, IsPlaceKey entry.1 ∧ entry.2.Encodable := by
  constructor
  · rintro ⟨text, htext⟩ entry hentry
    obtain ⟨document, hdocument, _⟩ := bind_eq_ok_iff.mp htext
    obtain ⟨index, hindex, hdocument⟩ := bind_eq_ok_iff.mp hdocument
    obtain ⟨sections, hsections, _⟩ := map_eq_ok_iff.mp hdocument
    have hencode : ∀ field (value : Value) statement, value.encode field = .ok statement →
        value.Encodable ∧ statement = .assign field value.form.token :=
      fun _ _ statement hstatement ↦ ⟨Value.encodable_iff.mpr ⟨statement, hstatement⟩,
        (Value.encode_eq_ok hstatement).2⟩
    obtain ⟨hvalues, _⟩ := eq_blockStatements_of_mapM hencode hsections
    obtain ⟨place, hplace, _⟩ := ((index_spec hindex).2 entry.1 entry.2).mp hentry
    exact ⟨exists_index_iff.mp ⟨index, hindex⟩ entry.1 (List.mem_map_of_mem hentry),
      hvalues _ hplace⟩
  · intro h
    rw [exists_eq_ok_iff]
    intro error herror
    rcases encode_eq_error_iff.mp herror with ⟨before, key, after, hsplit, _, hfault⟩ |
      ⟨_, place, value, reason, hentry, hrefused, _⟩
    · have hkey : key ∈ map.keys := by simp [hsplit]
      obtain ⟨entry, hentry, rfl⟩ := List.mem_map.mp hkey
      obtain ⟨place, hplace⟩ := isPlaceKey_iff.mp (h entry hentry).1
      cases hplace.symm.trans (placeOfKey_eq_error_iff.mpr hfault)
    · obtain ⟨statement, hstatement⟩ := (h _ hentry).2.exists_encode place.field
      cases hstatement.symm.trans (hrefused.encode_eq place.field)

/-! ## Putting the document together -/

/-- A section to which its assignments are added one by one. -/
def pushSection (block : String × List (String × Value)) : Except Error Statement :=
  block.2.foldlM (fun statement entry ↦ (entry.2.encode entry.1).bind statement.pushLine)
    (.emptyBlock block.1)

/-- Encodes a map by adding every assignment to its section and every section to the document, with
all the checks that adding makes. -/
def encodePushed (header : Option String) (map : ConfigMap) : Except Error String :=
  (map.index).bind fun index ↦ (index.sections.mapM pushSection).bind fun blocks ↦
    (blocks.foldl Document.pushLine
      (Document.empty.pushAll (header.elim [] Statement.remarkBlock))).render

/-- Assignments can be added to sections. -/
theorem pushSection_eq (block : String × List (String × Value)) :
    pushSection block =
      (encodeSection block).map fun block ↦ Document.blockOfLines block.1 block.2 := by
  obtain ⟨name, fields⟩ := block
  have hpush {assignment : Statement} (h : assignment.isBlock = false) (lines : List Statement) :
      (Document.blockOfLines name lines).pushLine assignment =
        .ok (Document.blockOfLines name (lines ++ [assignment])) := by
    rw [Statement.pushLine_eq_foldlM]
    exact Statement.foldlM_push_blockOfLines (List.forall_mem_singleton.mpr h) name lines
  have hfields (lines : List Statement) :
      fields.foldlM (fun statement entry ↦ (entry.2.encode entry.1).bind statement.pushLine)
        (Document.blockOfLines name lines) =
          (fields.mapM fun (entry : String × Value) ↦ entry.2.encode entry.1).map
            fun assignments ↦ Document.blockOfLines name (lines ++ assignments) := by
    induction fields generalizing lines with
    | nil =>
      exact congrArg (fun all ↦ Except.ok (Document.blockOfLines name all)) lines.append_nil.symm
    | cons entry rest ih =>
      rw [List.foldlM_cons, List.mapM_cons]
      cases hentry : entry.2.encode entry.1 with
      | error error => rfl
      | ok assignment =>
        obtain ⟨_, rfl⟩ := Value.encode_eq_ok hentry
        rw [Except.bind, hpush rfl]
        refine (ih _).trans ?_
        cases rest.mapM fun (entry : String × Value) ↦ entry.2.encode entry.1 with
        | error error => rfl
        | ok assignments => simp [Except.map, bind, Except.bind, pure, Except.pure]
  refine (hfields []).trans ?_
  rw [encodeSection]
  cases fields.mapM fun (entry : String × Value) ↦ entry.2.encode entry.1 <;> rfl

theorem encodePushed_eq (header : Option String) (map : ConfigMap) :
    map.encodePushed header = map.encode header := by
  have hdocument (blocks : List (String × List Statement)) :
      (blocks.map fun block ↦ Document.blockOfLines block.1 block.2).foldl Document.pushLine
        (Document.empty.pushAll (header.elim [] Statement.remarkBlock)) =
          Document.ofSections header blocks := by
    have hstatements := Document.statements_foldl_pushLine
      (Document.empty.pushAll (header.elim [] Statement.remarkBlock))
      (blocks.map fun block ↦ Document.blockOfLines block.1 block.2)
    rw [Statement.onLines, List.flatMap_map] at hstatements
    exact congrArg Document.mk hstatements
  unfold encodePushed encode toDocument
  cases map.index with
  | error error => rfl
  | ok index =>
    simp only [Except.bind, funext pushSection_eq, mapM_map_answer]
    cases index.sections.mapM encodeSection with
    | error error => rfl
    | ok blocks =>
      simp only [Except.map, hdocument]

/-- A map can be encoded if every key has a name on each side of its only separator and every value
is encodable. If a key is not like that, the error is for the first such key, and otherwise for the
first value that is not encodable. The errors that adding to a section could make do not occur. -/
theorem encode_outcome (header : Option String) (map : ConfigMap) :
    ((∃ text, map.encode header = .ok text) ↔
        ∀ entry ∈ map.entries, IsPlaceKey entry.1 ∧ entry.2.Encodable) ∧
      (∀ error, map.encode header = .error error ↔
        map.FirstKeyFault error ∨ map.FirstValueFault error) ∧
      map.encodePushed header = map.encode header :=
  ⟨exists_encode_iff, fun _ ↦ encode_eq_error_iff, encodePushed_eq header map⟩

/-- A map is encoded although its keys are not sorted. A key with two separators is reported, and
not the bad value in front of it or the bad name behind it, and of two bad names the section. A
value is reported with its field and with the first thing that is wrong with it, although a bad
value of a later section comes earlier in the map, and a list for its first bad item. -/
theorem encode_outcome_refused :
    (∀ entry ∈ [("t/k", Value.list ["a", "b c"]), ("s/k", .emptyList)],
      IsPlaceKey entry.1 ∧ entry.2.Encodable) ∧
    FirstKeyFault (.ofList [("a/k", .string "\""), ("a/b/c", .int64 0), ("d e/f", .int64 1)])
      (.invalidKey "a/b/c") ∧
    FirstKeyFault (.ofList [("a/k", .int64 0), ("d e/f=", .int64 1)])
      (.invalidName "d e" "name contains whitespace") ∧
    FirstKeyFault (.ofList [("a/k", .int64 0), ("d/f=", .int64 1)])
      (.invalidName "f=" "name contains reserved character '='") ∧
    ∀ refused ∈ [
        (Value.string "a\n\"", "string contains a line break"),
        (.string "a\"[", "string contains a quote"),
        (.string "a[", "string containing '[' would decode as a list"),
        (.list ["a", "b,]", " c"], "list element \"b,]\" contains ','"),
        (.list ["a", "b\t", "c,"], "list element \"b\\t\" has surrounding whitespace")],
      encode none (.ofList [("t/a", .string "["), ("s/k", refused.1), ("s/b", .int64 1)]) =
          .error (.unsupportedValue "k" refused.2) ∧
        FirstValueFault (.ofList [("t/a", .string "["), ("s/k", refused.1), ("s/b", .int64 1)])
          (.unsupportedValue "k" refused.2) := by
  have hvalue {map : ConfigMap} {field reason : String} :
      ¬ map.FirstKeyFault (.unsupportedValue field reason) := by
    rintro ⟨_, _, _, _, _, h⟩
    cases h
  have hkey {map : ConfigMap} {key : String} : ¬ map.FirstValueFault (.invalidKey key) := by
    rintro ⟨_, _, _, _, _, _, h, _⟩
    cases h
  have hname {map : ConfigMap} {name reason : String} :
      ¬ map.FirstValueFault (.invalidName name reason) := by
    rintro ⟨_, _, _, _, _, _, h, _⟩
    cases h
  refine ⟨?_, ?_, ?_, ?_, fun refused hrefused ↦ ?_⟩
  · have hencode : encode (some "h")
        (.ofList [("t/k", .list ["a", "b c"]), ("s/k", .emptyList)]) =
          .ok "# h\ns \x7b\n\tk = []\n\x7d\nt \x7b\n\tk = [\"a\", \"b c\"]\n\x7d\n" := by
      decide +kernel
    exact (encode_outcome _ _).1.mp ⟨_, hencode⟩
  · exact (((encode_outcome none _).2.1 _).mp (by decide +kernel)).resolve_right hkey
  · exact (((encode_outcome none _).2.1 _).mp (by decide +kernel)).resolve_right hname
  · exact (((encode_outcome none _).2.1 _).mp (by decide +kernel)).resolve_right hname
  · have herror :
        encode none (.ofList [("t/a", .string "["), ("s/k", refused.1), ("s/b", .int64 1)]) =
          .error (.unsupportedValue "k" refused.2) := by
      revert refused
      decide +kernel
    exact ⟨herror, (((encode_outcome none _).2.1 _).mp herror).resolve_left hvalue⟩

end ConfigMap

end SectionedConfig
