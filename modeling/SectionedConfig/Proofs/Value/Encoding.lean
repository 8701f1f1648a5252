import SectionedConfig.ConfigMap.Encoding
import SectionedConfig.Proofs.Encoding
import SectionedConfig.Registry.Decoding
import SectionedConfig.Registry

/-!
# What is encoded reads back

The checks of both encoders let through only values whose forms can stand on a line. Without a
schema a string must not look like a list either. Such a value is read back from its form: without
a schema as the same value, but for a list without items, and into a slot as what the slot held.
-/

namespace SectionedConfig

open Text

namespace Value

/-- A value that can stand on a line. -/
def Writable : Value → Prop
  | string text => '\n' ∉ text.toList ∧ '"' ∉ text.toList
  | list items => ∀ item ∈ items, IsItem item
  | _ => True

/-- A value that reads back from a line without a schema. -/
structure ReadsBack (value : Value) : Prop where
  writable : value.Writable
  unbracketed : ∀ text, value.text? = some text → '[' ∉ text.toList

theorem Writable.wellFormed {value : Value} (h : value.Writable) : value.form.WellFormed := by
  cases value with
  | string text => exact wellFormed_quoted h.1 h.2
  | int64 number => exact wellFormed_bare_write number.toInt
  | list items => exact wellFormed_list h
  | emptyList =>
    have hitems : ∀ item ∈ ([] : List String), IsItem item := by simp
    have hempty := wellFormed_list hitems
    rwa [show (listText []).toList = ['[', ']'] by decide] at hempty

/-- The encoder of maps accepts only values that read back. -/
theorem encode_eq_ok {field : String} {value : Value} {statement : Statement}
    (h : value.encode field = .ok statement) :
    value.ReadsBack ∧ statement = .assign field value.form.token := by
  cases value with
  | string text =>
    unfold encode at h
    cases hfault : textFault? text with
    | some fault => simp [hfault] at h
    | none =>
      by_cases hbracket : '[' ∈ text.toList
      · simp [hfault, hbracket] at h
      · simp only [hfault, if_neg hbracket, Except.ok.injEq] at h
        refine ⟨⟨notMem_of_textFault? hfault, ?_⟩, ?_⟩
        · simpa [text?] using hbracket
        · rw [← h, form, ValueForm.token, ValueForm.text, String.ofList_toList]
          rfl
  | int64 number => exact ⟨⟨trivial, by simp [text?]⟩, (Except.ok.inj h).symm⟩
  | list items =>
    unfold encode at h
    cases hfault : items.findSome? itemFault? with
    | some fault => simp [hfault] at h
    | none =>
      simp only [hfault, Except.ok.injEq] at h
      refine ⟨⟨?_, by simp [text?]⟩, ?_⟩
      · intro item hitem
        exact isItem_of_itemFault? (List.findSome?_eq_none_iff.mp hfault item hitem)
      · rw [← h, form, ValueForm.token, ValueForm.text, String.ofList_toList]
        rfl
  | emptyList => exact ⟨⟨trivial, by simp [text?]⟩, (Except.ok.inj h).symm⟩

end Value

section Slots

variable {Target : Type} {target : Target} {slot : Slot Target}

/-- The form in which a slot is written. -/
def Slot.form (target : Target) (slot : Slot Target) : ValueForm :=
  (slot.read target).form

/-- The encoder of targets accepts only texts that can stand on a line. -/
theorem Slot.encode_eq_ok {field : String} {statement : Statement}
    (h : slot.encode target field = .ok statement) :
    (slot.form target).WellFormed ∧ statement = .assign field (slot.form target).token := by
  cases slot with
  | int64 get set =>
    exact ⟨Value.wellFormed_bare_write (get target).toInt, (Except.ok.inj h).symm⟩
  | string get set =>
    unfold encode encodeString at h
    cases hfault : textFault? (get target) with
    | some fault => simp [hfault] at h
    | none =>
      simp only [hfault, Except.ok.injEq] at h
      obtain ⟨hfeed, hquote⟩ := Value.notMem_of_textFault? hfault
      refine ⟨Value.wellFormed_quoted hfeed hquote, ?_⟩
      rw [← h, form, read, Value.form, ValueForm.token, ValueForm.text, String.ofList_toList]
      rfl

end Slots

/-! ## Reading back -/

namespace Assignment

/-- The token of a numeral denotes the integer. -/
theorem integer_of_write {key : String} {token : Token} {number : Int64}
    (h : token.value = Decimal.writeInt64 number) : integer key token = .ok number := by
  have htight := (Value.wellFormed_bare_write number.toInt).recognisable.1
  rw [integer, h, Decimal.writeInt64, String.toList_ofList, trim_eq_self htight,
    Decimal.readInt64?_write]

theorem composedKey_of_enclosing {assignment : Assignment} {place : Place}
    (henclosing : assignment.enclosing = some place.sectionName)
    (hkey : assignment.key.value = place.field) : assignment.composedKey = place.key := by
  rw [composedKey, henclosing, hkey, Place.key]

/-- Without a schema, an assignment of a form makes the entry of the value that has it. -/
theorem States.entry_eq {assignment : Assignment} {place : Place} {value : Value}
    (h : assignment.States (place, value.form)) (hvalue : value.ReadsBack) :
    assignment.entry = .ok (place.key, value.canonical) := by
  have htext : assignment.value.value = String.ofList value.form.text := h.value
  have hkey : assignment.composedKey = place.key := composedKey_of_enclosing h.enclosing h.key
  cases value with
  | int64 number =>
    have hkind : assignment.value.kind = .int64 := h.kind
    rw [entry, if_pos hkind, hkey, integer_of_write htext]
    rfl
  | string text =>
    have hkind : assignment.value.kind ≠ .int64 := by
      simp [h.kind, Value.form, ValueForm.kind]
    obtain ⟨_, hquote⟩ := hvalue.writable
    rw [entry, if_neg hkind, hkey, htext, Value.form, ValueForm.text, String.ofList_toList,
      Value.ofText_string (hvalue.unbracketed text rfl) hquote]
    rfl
  | list items =>
    have hkind : assignment.value.kind ≠ .int64 := by
      simp [h.kind, Value.form, ValueForm.kind]
    rw [entry, if_neg hkind, hkey, htext, Value.form, ValueForm.text, String.ofList_toList,
      Value.ofText_listText hvalue.writable]
    rfl
  | emptyList =>
    have hkind : assignment.value.kind ≠ .int64 := by
      simp [h.kind, Value.form, ValueForm.kind]
    have hempty : Value.ofText (String.ofList ['[', ']']) = .emptyList := by decide
    rw [entry, if_neg hkind, hkey, htext]
    exact congrArg (fun value ↦ Except.ok (place.key, value)) hempty

variable {Target : Type} {target : Target} {slot : Slot Target} {place : Place}

/-- Without hints an assignment is attributed to the place that it states. -/
theorem States.place_eq {assignment : Assignment} {form : ValueForm}
    (h : assignment.States (place, form)) : assignment.place .empty = place := by
  rw [Assignment.place, h.enclosing, h.key, OrderedMap.get?_empty]
  rfl

/-- An assignment of the form in which a slot is written is converted to what the slot held. -/
theorem States.convert_eq {assignment : Assignment}
    (h : assignment.States (place, slot.form target)) :
    slot.convert place assignment.value = .ok (slot.read target) := by
  have htext := h.value
  have hkind := h.kind
  cases slot with
  | int64 get set =>
    simp only [Slot.convert, Slot.kind, hkind, Slot.form, Slot.read, Value.form, ValueForm.kind]
    rw [integer_of_write htext]
    rfl
  | string get set =>
    simp only [Slot.convert, Slot.kind, hkind, Slot.form, Slot.read, Value.form, ValueForm.kind,
      htext, ValueForm.text, String.ofList_toList]

end Assignment

end SectionedConfig
