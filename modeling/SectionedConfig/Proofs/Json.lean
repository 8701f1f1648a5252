import SectionedConfig.Json
import SectionedConfig.Proofs.Decimal.Numeral
import SectionedConfig.Proofs.Results
import SectionedConfig.Proofs.Text.Quoted
import SectionedConfig.Proofs.Value.Form

/-!
# Values survive JSON

JSON has a grammar of its own, and what is written for a value or a map is a text of that grammar:
strings with escapes, numbers without a plus sign or zeros in front, arrays and objects. The text
stands for a JSON value that is read as the value it was written for, the list without items being
read as the empty list. Two strings are never written alike.

Reading accepts three forms and nothing else, and says of anything else what is wrong: an integer
that does not fit, the first item of an array that is no string, or a value of another form.
-/

namespace SectionedConfig

open Text

namespace Json

/-! ## Strings -/

/-- How JSON writes characters between quotation marks. -/
def quoting : Convention where
  plain c := 0x20 ≤ c.toNat ∧ c ≠ '"' ∧ c ≠ '\\'
  letters := [('"', '"'), ('\\', '\\'), ('/', '/'), ('b', '\x08'), ('f', '\x0c'), ('n', '\n'),
    ('r', '\r'), ('t', '\t')]
  coded digits c := digits.length = 4 ∧ hexNumber? digits = some c.toNat

theorem shows_escape (c : Char) : quoting.Shows (escape c) c := by
  unfold escape
  split_ifs with hquote hslash hbackspace hfeed hline hreturn htab hcontrol
  · exact .letter (by simp [quoting, hquote])
  · exact .letter (by simp [quoting, hslash])
  · exact .letter (by simp [quoting, hbackspace])
  · exact .letter (by simp [quoting, hfeed])
  · exact .letter (by simp [quoting, hline])
  · exact .letter (by simp [quoting, hreturn])
  · exact .letter (by simp [quoting, htab])
  · have hpadded : ∀ n < 0x20,
        (List.replicate (4 - (Nat.toDigits 16 n).length) '0' ++ Nat.toDigits 16 n).length = 4 ∧
          hexNumber? (List.replicate (4 - (Nat.toDigits 16 n).length) '0' ++
            Nat.toDigits 16 n) = some n := by
      decide +kernel
    exact .coded (hpadded c.toNat hcontrol)
  · exact .plain ⟨Nat.le_of_not_lt hcontrol, hquote, hslash⟩

/-- A code point has four digits, so its end can be told. -/
theorem coded_unique {digits other rest rest' : List Char} {c d : Char}
    (h : quoting.coded digits c) (hother : quoting.coded other d)
    (heq : digits ++ rest = other ++ rest') : digits = other ∧ c = d := by
  obtain ⟨hlength, hvalue⟩ := h
  obtain ⟨hlength', hvalue'⟩ := hother
  obtain ⟨rfl, _⟩ := List.append_inj heq (hlength.trans hlength'.symm)
  exact ⟨rfl, Char.toNat_inj.mp (Option.some.inj (hvalue.symm.trans hvalue'))⟩

theorem readable_quoting : quoting.Readable '"' where
  plain _ h := h.2
  mark := by decide
  letters := by decide
  coding := by decide
  coded := coded_unique

theorem toList_quote (text : String) :
    (quote text).toList = '"' :: text.toList.flatMap escape ++ ['"'] :=
  String.toList_ofList

/-- A string at the start of a JSON text can be told from the text. -/
theorem quote_unique {text other rest rest' : String}
    (heq : quote text ++ rest = quote other ++ rest') : text = other ∧ rest = rest' := by
  have hunits : text.toList.flatMap escape ++ '"' :: rest.toList =
      other.toList.flatMap escape ++ '"' :: rest'.toList := by
    simpa [toList_quote] using congrArg String.toList heq
  obtain ⟨htext, hrest⟩ := readable_quoting.flatMap_unique shows_escape hunits
  exact ⟨String.toList_inj.mp htext, String.toList_inj.mp hrest⟩

/-! ## Numbers -/

/-- A numeral without a plus sign, and without a zero in front of other digits. -/
def IsNumber (text : List Char) (n : Int) : Prop :=
  ∃ numeral : Decimal.Numeral, numeral.text = text ∧ numeral.value = n ∧ numeral.sign ≠ .plus ∧
    (numeral.digits.head? = some 0 → numeral.digits = [0])

theorem isNumber_write (n : Int) : IsNumber (Decimal.write n) n := by
  obtain ⟨digits, hne, htext, hvalue, hzero⟩ := Decimal.exists_digits n.natAbs
  unfold Decimal.write
  split_ifs with hneg
  · refine ⟨⟨.minus, digits, hne⟩, ?_, ?_, by simp, hzero⟩
    · rw [Decimal.Numeral.text, htext]
      rfl
    · rw [Decimal.Numeral.value, hvalue, Decimal.Sign.factor]
      omega
  · refine ⟨⟨.absent, digits, hne⟩, ?_, ?_, by simp, hzero⟩
    · rw [Decimal.Numeral.text, htext]
      rfl
    · rw [Decimal.Numeral.value, hvalue, Decimal.Sign.factor]
      omega

/-! ## Texts -/

/-- Parts with a comma between each and the next one. -/
inductive Separated {α : Type} (part : List Char → α → Prop) : List Char → List α → Prop
  | nil : Separated part [] []
  | single {written : List Char} {item : α} (h : part written item) :
      Separated part written [item]
  | cons {written rest : List Char} {item next : α} {items : List α} (head : part written item)
      (tail : Separated part rest (next :: items)) :
      Separated part (written ++ ',' :: rest) (item :: next :: items)

/-- A member of an object: a string, a colon and a value. -/
inductive IsMember (value : List Char → Json → Prop) : List Char → String × Json → Prop
  | mk {name text written : List Char} {json : Json} (hname : quoting.Spells name text)
      (hvalue : value written json) :
      IsMember value ('"' :: name ++ '"' :: ':' :: written) (String.ofList text, json)

/-- A text without white space between its parts, and the JSON value that it stands for. Of the
grammar of JSON these are the forms that values and maps are written in. -/
inductive Depicts : List Char → Json → Prop
  | string {written text : List Char} (h : quoting.Spells written text) :
      Depicts ('"' :: written ++ ['"']) (.string (String.ofList text))
  | integer {written : List Char} {n : Int} (h : IsNumber written n) :
      Depicts written (.integer n)
  | array {written : List Char} {items : List Json} (h : Separated Depicts written items) :
      Depicts ('[' :: written ++ [']']) (.array items)
  | object {written : List Char} {members : List (String × Json)}
      (h : Separated (IsMember Depicts) written members) :
      Depicts ('{' :: written ++ ['}']) (.object members)

theorem depicts_quote (text : String) : Depicts (quote text).toList (.string text) := by
  have hdepicts := Depicts.string (Convention.spells_flatMap shows_escape text.toList)
  rwa [String.ofList_toList, ← toList_quote] at hdepicts

theorem separated_intercalate {α : Type} {part : List Char → α → Prop} {texts : List (List Char)}
    {items : List α} (h : List.Forall₂ part texts items) :
    Separated part ([','].intercalate texts) items := by
  induction h with
  | nil => exact .nil
  | cons head tail ih =>
    cases tail with
    | nil =>
      rw [List.intercalate_singleton]
      exact .single head
    | cons =>
      rw [List.intercalate_cons_cons, List.append_assoc]
      exact .cons head ih

/-- Parts that are written for the entries of a list, one by one. -/
theorem separated_map {α β : Type} {part : List Char → β → Prop} {write : α → String}
    {stand : α → β} (h : ∀ entry, part (write entry).toList (stand entry)) (list : List α) :
    Separated part (",".intercalate (list.map write)).toList (list.map stand) := by
  have hparts : List.Forall₂ part ((list.map write).map String.toList) (list.map stand) := by
    rw [List.map_map, List.forall₂_map_left_iff, List.forall₂_map_right_iff, List.forall₂_same]
    exact fun entry _ ↦ h entry
  rw [String.toList_intercalate]
  exact separated_intercalate hparts

end Json

/-! ## Writing -/

/-- The JSON value that a value is written as. -/
def Value.toTree : Value → Json
  | string text => .string text
  | int64 number => .integer number.toInt
  | list items => .array (items.map .string)
  | emptyList => .array []

/-- What is written for a value is JSON, and it stands for the value. -/
theorem Value.depicts_toJson (value : Value) : Json.Depicts value.toJson.toList value.toTree := by
  cases value with
  | string text => exact Json.depicts_quote text
  | int64 number =>
    rw [toJson, Decimal.writeInt64, String.toList_ofList]
    exact .integer (Json.isNumber_write number.toInt)
  | list items =>
    have hitems := Json.separated_map Json.depicts_quote items
    rw [toJson, Json.arrayOf, String.toList_append, String.toList_append]
    exact .array hitems
  | emptyList => exact .array .nil

/-- What is written for a map is a JSON object with its entries, in their order. -/
theorem ConfigMap.depicts_toJson (map : ConfigMap) :
    Json.Depicts map.toJson.toList
      (.object (map.entries.map fun entry ↦ (entry.1, entry.2.toTree))) := by
  have hmember (entry : String × Value) :
      Json.IsMember Json.Depicts (Json.quote entry.1 ++ ":" ++ entry.2.toJson).toList
        (entry.1, entry.2.toTree) := by
    have hname := Convention.spells_flatMap Json.shows_escape entry.1.toList
    have hentry := Json.IsMember.mk hname entry.2.depicts_toJson
    rw [String.ofList_toList] at hentry
    simpa [Json.toList_quote] using hentry
  have hmembers := Json.separated_map hmember map.entries
  rw [toJson, String.toList_append, String.toList_append]
  exact .object hmembers

/-! ## Reading -/

namespace Value

/-- The forms of JSON that a value can have, and the value. -/
inductive ReadsFrom : Json → Value → Prop
  | string (text : String) : ReadsFrom (.string text) (.string text)
  | integer (number : Int64) : ReadsFrom (.integer number.toInt) (.int64 number)
  | array (items : List String) : ReadsFrom (.array (items.map .string)) (ofItems items)

/-- What is wrong with JSON that stands for no value. Of an array it is the first item that is no
string. -/
inductive Misformed : Json → JsonFault → Prop
  | outOfRange {n : Int} (h : n < -2 ^ 63 ∨ 2 ^ 63 - 1 < n) : Misformed (.integer n) (.outOfRange n)
  | notString {before : List String} {found : Json} {after : List Json}
      (h : ∀ text, found ≠ .string text) :
      Misformed (.array (before.map .string ++ found :: after)) (.notString found)
  | notValue {json : Json} (hstring : ∀ text, json ≠ .string text)
      (hinteger : ∀ n, json ≠ .integer n) (harray : ∀ items, json ≠ .array items) :
      Misformed json (.notValue json)

theorem toText_eq_ok_iff {json : Json} {text : String} :
    json.toText = .ok text ↔ json = .string text := by
  cases json <;> simp [Json.toText]

theorem toText_eq_error_iff {json : Json} {fault : JsonFault} :
    json.toText = .error fault ↔ (∀ text, json ≠ .string text) ∧ fault = .notString json := by
  cases json <;> simp [Json.toText, eq_comm]

theorem mapM_toText_eq_ok_iff {items : List Json} {texts : List String} :
    items.mapM Json.toText = .ok texts ↔ items = texts.map .string := by
  rw [mapM_eq_ok_iff, ← List.forall₂_eq_eq_eq, List.forall₂_map_right_iff]
  simp only [toText_eq_ok_iff]

theorem ofJson_eq_ok_iff {json : Json} {value : Value} :
    ofJson json = .ok value ↔ ReadsFrom json value := by
  constructor
  · intro h
    unfold ofJson at h
    split at h
    next text =>
      obtain rfl := Except.ok.inj h
      exact .string text
    next n =>
      split_ifs at h with hfits
      obtain rfl := Except.ok.inj h
      have hread := ReadsFrom.integer (Int64.ofInt n)
      rwa [Decimal.toInt_ofInt_of_fits hfits] at hread
    next items =>
      obtain ⟨texts, htexts, rfl⟩ := map_eq_ok_iff.mp h
      rw [mapM_toText_eq_ok_iff.mp htexts]
      exact .array texts
    next => cases h
  · rintro (text | number | items)
    · rfl
    · rw [ofJson, if_pos (Decimal.fits_toInt number), Int64.ofInt_toInt]
    · rw [ofJson, mapM_toText_eq_ok_iff.mpr rfl]
      rfl

/-- A value that was written to JSON is read back, a list without items as the empty list. -/
theorem ofJson_toTree (value : Value) : ofJson value.toTree = .ok value.canonical := by
  rw [ofJson_eq_ok_iff]
  cases value with
  | string text => exact .string text
  | int64 number => exact .integer number
  | list items => exact .array items
  | emptyList => exact .array []

theorem ofJson_eq_error_iff {json : Json} {fault : JsonFault} :
    ofJson json = .error fault ↔ Misformed json fault := by
  constructor
  · intro h
    unfold ofJson at h
    split at h
    next => cases h
    next n =>
      split_ifs at h with hfits
      obtain rfl := Except.error.inj h
      rw [Decimal.fits_iff] at hfits
      exact .outOfRange (by omega)
    next items =>
      obtain ⟨before, found, after, rfl, hbefore, hfound⟩ :=
        mapM_eq_error_iff.mp (map_eq_error_iff.mp h)
      obtain ⟨texts, htexts⟩ := exists_mapM_eq_ok hbefore
      obtain ⟨hother, rfl⟩ := toText_eq_error_iff.mp hfound
      rw [mapM_toText_eq_ok_iff.mp htexts]
      exact .notString hother
    next json hstring hinteger harray =>
      obtain rfl := Except.error.inj h
      exact .notValue hstring hinteger harray
  · intro h
    cases h with
    | outOfRange hbounds =>
      rw [ofJson, if_neg]
      rw [Decimal.fits_iff]
      omega
    | notString hother =>
      rename_i before found after
      refine map_eq_error_iff.mpr (mapM_eq_error_iff.mpr
        ⟨before.map .string, found, after, rfl, fun earlier hearlier ↦ ?_,
          toText_eq_error_iff.mpr ⟨hother, rfl⟩⟩)
      obtain ⟨text, _, rfl⟩ := List.mem_map.mp hearlier
      exact ⟨text, rfl⟩
    | notValue hstring hinteger harray =>
      unfold ofJson
      split
      next text => exact absurd rfl (hstring text)
      next n => exact absurd rfl (hinteger n)
      next items => exact absurd rfl (harray items)
      next => rfl

end Value

end SectionedConfig
