import SectionedConfig.Proofs.Results
import SectionedConfig.Proofs.Text.Separators
import SectionedConfig.Proofs.Text.Trim
import SectionedConfig.Value

/-!
# What a text stands for

Without a schema, a text is a string or a list, and an opening bracket anywhere in it decides for
the list. A string is the text without the quotation marks at its ends. The items of a list are what
stands between the commas inside its brackets, each without white space and then without quotation
marks at its ends; with nothing inside there is no item. This says what is left and what is taken
off, and reading a text finds exactly that.
-/

namespace SectionedConfig

open Text

/-- The content of a text is what stands between quotation marks, any number of them. -/
def Quotes (text content : List Char) : Prop :=
  Strips (· == '"') (· == '"') text content

/-- What stands inside the brackets of a list text. The brackets are taken off between white space
on the outside and white space on the inside. -/
def Encloses (text inside : List Char) : Prop :=
  ∃ bracketed content, Strips isBlank isBlank text bracketed ∧
    Strips (· == '[') (· == ']') bracketed content ∧ Strips isBlank isBlank content inside

/-- The text of an item that stands between two commas. -/
def IsItemOf (piece : List Char) (item : String) : Prop :=
  ∃ content, Strips isBlank isBlank piece content ∧ Quotes content item.toList

/-- The value that a text stands for. -/
inductive StandsFor (text : List Char) : Value → Prop where
  | string {content : String} (hplain : '[' ∉ text) (hcontent : Quotes text content.toList) :
      StandsFor text (.string content)
  | emptyList (hlist : '[' ∈ text) (hinside : Encloses text []) : StandsFor text .emptyList
  | list {inside : List Char} {pieces : List (List Char)} {items : List String}
      (hlist : '[' ∈ text) (hinside : Encloses text inside) (hne : inside ≠ [])
      (hpieces : [','].intercalate pieces = inside) (hplain : ∀ piece ∈ pieces, ',' ∉ piece)
      (hitems : List.Forall₂ IsItemOf pieces items) : StandsFor text (.list items)

namespace Value

variable {text inside piece : List Char} {item : String}

theorem insideBrackets_eq_iff : insideBrackets text = inside ↔ Encloses text inside := by
  constructor
  · rintro rfl
    exact ⟨_, _, strip_eq_iff.mp rfl, stripEnd_stripStart_eq_iff.mp rfl, strip_eq_iff.mp rfl⟩
  · rintro ⟨bracketed, content, hbracketed, hcontent, hinside⟩
    have htrim : trim text = bracketed := strip_eq_iff.mpr hbracketed
    rw [insideBrackets, htrim, stripEnd_stripStart_eq_iff.mpr hcontent]
    exact strip_eq_iff.mpr hinside

theorem item_eq_iff : String.ofList (unquote (trim piece)) = item ↔ IsItemOf piece item := by
  constructor
  · rintro rfl
    refine ⟨trim piece, strip_eq_iff.mp rfl, ?_⟩
    rw [String.toList_ofList]
    exact strip_eq_iff.mp rfl
  · rintro ⟨content, hcontent, hitem⟩
    rw [trim, strip_eq_iff.mpr hcontent, unquote, strip_eq_iff.mpr hitem, String.ofList_toList]

theorem map_item_eq_iff {pieces : List (List Char)} {items : List String} :
    (pieces.map fun piece ↦ String.ofList (unquote (trim piece))) = items ↔
      List.Forall₂ IsItemOf pieces items := by
  induction pieces generalizing items with
  | nil => simp [eq_comm]
  | cons piece rest ih =>
    rw [List.map_cons, List.forall₂_cons_left_iff]
    constructor
    · rintro rfl
      exact ⟨_, _, item_eq_iff.mp rfl, ih.mp rfl, rfl⟩
    · rintro ⟨item, others, hitem, hothers, rfl⟩
      rw [item_eq_iff.mpr hitem, ih.mpr hothers]

/-- A text is read as the value that it stands for. -/
theorem ofText_eq_iff {text : String} {value : Value} :
    ofText text = value ↔ StandsFor text.toList value := by
  constructor
  · rintro rfl
    simp only [ofText]
    split
    next hlist =>
      split
      next hempty =>
        exact .emptyList hlist (insideBrackets_eq_iff.mp (List.isEmpty_iff.mp hempty))
      next hsome =>
        obtain ⟨_, hpieces, hplain⟩ := splitAll_eq_iff.mp (Eq.refl (splitAll ',' _))
        exact .list hlist (insideBrackets_eq_iff.mp rfl) (by simpa using hsome) hpieces hplain
          (map_item_eq_iff.mp rfl)
    next hplain =>
      refine .string hplain ?_
      rw [String.toList_ofList]
      exact strip_eq_iff.mp rfl
  · intro h
    cases h with
    | @string content hplain hcontent =>
      have hunquote : unquote text.toList = content.toList := strip_eq_iff.mpr hcontent
      simp [ofText, hplain, hunquote]
    | emptyList hlist hinside => simp [ofText, hlist, insideBrackets_eq_iff.mpr hinside]
    | @list inside pieces items hlist hinside hne hpieces hplain hitems =>
      have hnone : pieces ≠ [] := by
        rintro rfl
        exact hne hpieces.symm
      have hsplit : splitAll ',' inside = pieces := splitAll_eq_iff.mpr ⟨hnone, hpieces, hplain⟩
      simp [ofText, hlist, insideBrackets_eq_iff.mpr hinside, hne, hsplit,
        map_item_eq_iff.mpr hitems]

/-- A text stands for one value. -/
theorem existsUnique_standsFor (text : String) : ∃! value, StandsFor text.toList value :=
  ⟨ofText text, ofText_eq_iff.mp rfl, fun _ h ↦ (ofText_eq_iff.mpr h).symm⟩

/-- No text stands for a list without items: with nothing inside its brackets it stands for the
empty list. -/
theorem not_standsFor_list_nil (text : List Char) : ¬ StandsFor text (.list []) := by
  intro h
  cases h with
  | list _ _ hne hpieces _ hitems =>
    cases hitems with
    | nil => exact hne hpieces.symm

instance (text : String) (value : Value) : Decidable (StandsFor text.toList value) :=
  decidable_of_iff (ofText text = value) ofText_eq_iff

/-- Brackets are taken off at the ends only, and so are quotation marks. -/
example : StandsFor " a, [\"b\", \"c\" d]] ".toList (.list ["a", "[\"b", "c\" d"]) := by
  decide

end Value

end SectionedConfig
