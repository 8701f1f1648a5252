import SectionedConfig.Encoding
import SectionedConfig.Proofs.Decimal
import SectionedConfig.Proofs.Value.Lists

/-!
# How values are written and read back

A value has one written form: a numeral, a text between quotation marks, or a bracketed list of
items between quotation marks. The checks on strings and list items make sure that this form can
stand on a line, and that reading it gives the value back. The empty list is the one exception: a
list without items reads back as it.
-/

namespace SectionedConfig

open Text

/-- The token of a value that was not read from a text. -/
def ValueForm.token (form : ValueForm) : Token :=
  { kind := form.kind, value := String.ofList form.text, unquoted := form.unquoted }

namespace Value

/-- The form in which a value is written. -/
def form : Value → ValueForm
  | string text => .quoted text.toList
  | int64 number => .bare (Decimal.write number.toInt)
  | list items => .list (listText items).toList
  | emptyList => .list ['[', ']']

/-- The value that a written value reads back as. -/
def canonical : Value → Value
  | list items => ofItems items
  | other => other

/-! ## Numerals -/

theorem isBlank_of_isDigit {c : Char} (h : c.isDigit = true) : isBlank c = false := by
  have hbounds : 48 ≤ c.toNat ∧ c.toNat ≤ 57 := by
    simpa [Char.isDigit, UInt32.le_iff_toNat_le] using h
  simp [isBlank, Ranges.has, blankRanges]
  omega

/-- The form of an integer can stand on a line. -/
theorem wellFormed_bare_write (n : Int) : (ValueForm.bare (Decimal.write n)).WellFormed := by
  have hblank : ∀ c ∈ Decimal.write n, isBlank c = false := by
    intro c hc
    rcases Decimal.mem_write hc with hdigit | rfl
    · exact isBlank_of_isDigit hdigit
    · decide
  constructor
  · refine ⟨tight_of_forall hblank, fun h ↦ ?_, Decimal.notMem_write (by decide) (by decide)⟩
    exact Decimal.notMem_write (by decide) (by decide) (List.mem_of_head? h)
  · exact uncommented_of_notMem (Decimal.notMem_write (by decide) (by decide)) false
  · exact Decimal.notMem_write (by decide) (by decide)

/-! ## Texts between quotation marks -/

theorem wellFormed_quoted {text : List Char} (hfeed : '\n' ∉ text) (hquote : '"' ∉ text) :
    (ValueForm.quoted text).WellFormed where
  recognisable := trivial
  uncommented := (SelfContained.quoted hquote).uncommented
  unbroken := by simpa [ValueForm.written] using hfeed

theorem notMem_of_textFault? {text : String} (h : textFault? text = none) :
    '\n' ∉ text.toList ∧ '"' ∉ text.toList := by
  simp only [textFault?] at h
  split at h
  next => cases h
  next hbreak =>
    split at h
    next => cases h
    next hquote => exact ⟨fun hfeed ↦ hbreak (.inl hfeed), hquote⟩

/-! ## Lists -/

/-- A text that can be an item of a list. -/
structure IsItem (item : String) : Prop where
  plain : ∀ c ∈ item.toList, c ∉ itemReserved
  tight : Tight isBlank item.toList

theorem isItem_of_itemFault? {item : String} (h : itemFault? item = none) : IsItem item := by
  unfold itemFault? at h
  split at h
  next => cases h
  next hfind =>
    split at h
    next htrim =>
      refine ⟨fun c hc hreserved ↦ ?_, htrim ▸ tight_trim item.toList⟩
      exact absurd (List.find?_eq_none.mp hfind c hc) (by simpa using hreserved)
    next => cases h

/-- An item as it is written in a list. -/
def IsItem.quoted {item : String} (h : IsItem item) (lead : Gap) : ListItem where
  text := item
  quoted := true
  lead := lead
  tail := .none
  plain := fun c hc hmark ↦ h.plain c hc ((by decide : listMarks ⊆ itemReserved) hmark)
  tight := h.tight
  unremarked := nofun

theorem toList_listText (items : List String) :
    (listText items).toList =
      bracketed ([',', ' '].intercalate (items.map fun item ↦ '"' :: item.toList ++ ['"'])) := by
  simp [listText, bracketed, String.toList_intercalate, Function.comp_def]

/-- The items of a written list. All but the first have a space in front of them. -/
def quotedItems : (items : List String) → (∀ item ∈ items, IsItem item) → List ListItem
  | [], _ => []
  | first :: rest, h =>
    (h first List.mem_cons_self).quoted .none ::
      rest.pmap (fun _ hitem ↦ IsItem.quoted hitem .space) (List.forall_mem_cons.mp h).2

variable {items : List String}

theorem map_text_quotedItems (h : ∀ item ∈ items, IsItem item) :
    (quotedItems items h).map ListItem.text = items := by
  cases items with
  | nil => rfl
  | cons first rest => simp [quotedItems, List.map_pmap, IsItem.quoted]

theorem quoted_of_mem_quotedItems (h : ∀ item ∈ items, IsItem item) :
    ∀ item ∈ quotedItems items h, item.quoted = true := by
  cases items with
  | nil => simp [quotedItems]
  | cons first rest =>
    rintro item (_ | ⟨_, hitem⟩)
    · rfl
    · obtain ⟨_, _, rfl⟩ := List.mem_pmap.mp hitem
      rfl

theorem toList_listText_eq (h : ∀ item ∈ items, IsItem item) :
    (listText items).toList = bracketed (ListItem.joined (quotedItems items h)) := by
  rw [toList_listText]
  cases items with
  | nil => rfl
  | cons first rest =>
    simp [quotedItems, ListItem.joined, ListItem.written, ListItem.core, List.map_pmap,
      IsItem.quoted, Gap.none, Gap.space, intercalate_cons, List.flatMap_map]

/-- The form of a list can stand on a line. -/
theorem wellFormed_list (h : ∀ item ∈ items, IsItem item) :
    (ValueForm.list (listText items).toList).WellFormed := by
  rw [toList_listText_eq h]
  exact ValueForm.wellFormed_bracketed (ListItem.selfContained_joined _)
    (ListItem.notMem_joined (by decide) (by decide) (by decide))

/-! ## Reading back -/

/-- A written list reads back as its items. -/
theorem ofText_listText (h : ∀ item ∈ items, IsItem item) :
    ofText (listText items) = ofItems items := by
  rw [← String.ofList_toList (s := listText items), toList_listText_eq h]
  cases items with
  | nil => exact ofText_bracketed_of_blank blank_nil
  | cons first rest =>
    rw [ofText_bracketed_joined (by simp [quotedItems]), map_text_quotedItems]
    · rfl
    · rintro item hitem -
      exact quoted_of_mem_quotedItems h item (hitem ▸ List.mem_singleton_self item)

/-- A text without brackets and quotation marks reads back as a string. -/
theorem ofText_string {text : String} (hbracket : '[' ∉ text.toList) (hquote : '"' ∉ text.toList) :
    ofText text = string text := by
  rw [ofText, if_neg hbracket, unquote, strip_eq_self (tight_of_notMem_quote hquote),
    String.ofList_toList]

end Value

end SectionedConfig
