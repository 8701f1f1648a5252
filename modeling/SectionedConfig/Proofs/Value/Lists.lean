import SectionedConfig.Proofs.Line.Reading
import SectionedConfig.Value

/-!
# Lists in brackets

The items of a list stand between brackets, with a comma between each two. White space around an
item is not part of it, and its text may or may not stand between quotation marks. A text with a
number sign has to, or a comment would start there. So does the empty text if it is the only item,
because a list with nothing between its brackets has none. Whichever way a list is written, it reads
as the texts of its items.
-/

namespace SectionedConfig

open Text

/-- White space that can stand on a line. -/
structure Gap where
  text : List Char
  blank : Blank text
  unbroken : '\n' ∉ text

/-- No white space. -/
def Gap.none : Gap := ⟨[], blank_nil, by simp⟩

/-- A single space. -/
def Gap.space : Gap := ⟨[' '], blank_space, by simp⟩

/-- White space followed by more of it. -/
def Gap.append (first second : Gap) : Gap :=
  ⟨first.text ++ second.text, List.forall_mem_append.mpr ⟨first.blank, second.blank⟩,
    by simp [first.unbroken, second.unbroken]⟩

/-- The characters that would end an item, a list or a line. -/
def listMarks : List Char :=
  [',', '"', '[', ']', '\n']

/-- An item of a list in one of the ways in which it can be written. -/
structure ListItem where
  text : String
  /-- Whether the text stands between quotation marks. -/
  quoted : Bool
  /-- The white space in front of the item. -/
  lead : Gap
  /-- The white space behind it. -/
  tail : Gap
  plain : ∀ c ∈ text.toList, c ∉ listMarks
  tight : Tight isBlank text.toList
  unremarked : quoted = false → '#' ∉ text.toList

/-- A text between brackets. -/
def bracketed (inside : List Char) : List Char :=
  '[' :: inside ++ [']']

namespace ListItem

/-- An item without the white space around it. -/
def core (item : ListItem) : List Char :=
  if item.quoted then '"' :: item.text.toList ++ ['"'] else item.text.toList

/-- An item as it is written. -/
def written (item : ListItem) : List Char :=
  item.lead.text ++ item.core ++ item.tail.text

/-- Items as they are written between brackets. -/
def joined (items : List ListItem) : List Char :=
  [','].intercalate (items.map written)

end ListItem

/-! ## What an item is made of -/

theorem Gap.notMem (gap : Gap) {c : Char} (h : isBlank c = false ∨ c = '\n') : c ∉ gap.text := by
  rcases h with h | rfl
  · exact gap.blank.notMem h
  · exact gap.unbroken

theorem Gap.selfContained (gap : Gap) : SelfContained gap.text :=
  .of_notMem (gap.notMem (.inl (by decide))) (gap.notMem (.inl (by decide)))

namespace ListItem

variable {item : ListItem} {items : List ListItem} {c : Char}

theorem notMem_core (hmark : c ∈ listMarks) (hquote : c ≠ '"') : c ∉ item.core := by
  have htext : c ∉ item.text.toList := fun hc ↦ item.plain c hc hmark
  unfold core
  split <;> simp [htext, hquote]

theorem notMem_written (hmark : c ∈ listMarks) (hquote : c ≠ '"') : c ∉ item.written := by
  have hgap : isBlank c = false ∨ c = '\n' := by
    simp only [listMarks, List.mem_cons, List.not_mem_nil, or_false] at hmark
    rcases hmark with rfl | rfl | rfl | rfl | rfl <;> decide
  simp [written, item.lead.notMem hgap, item.tail.notMem hgap, notMem_core hmark hquote]

theorem notMem_text : '"' ∉ item.text.toList :=
  fun hc ↦ item.plain '"' hc (by decide)

theorem trim_written (item : ListItem) : trim item.written = item.core := by
  have htight : Tight isBlank item.core := by
    unfold core
    split
    · exact tight_cons_append_singleton _ (by decide) (by decide)
    · exact item.tight
  exact trim_append_append htight item.lead.blank item.tail.blank

theorem selfContained_written (item : ListItem) : SelfContained item.written := by
  have hcore : SelfContained item.core := by
    unfold core
    split
    next => exact .quoted notMem_text
    next hquoted => exact .of_notMem (item.unremarked (by simpa using hquoted)) notMem_text
  exact (item.lead.selfContained.append hcore).append item.tail.selfContained

theorem selfContained_joined (items : List ListItem) : SelfContained (joined items) := by
  refine .intercalate (.of_notMem (by decide) (by decide)) ?_
  rw [List.forall_mem_map]
  exact fun item _ ↦ item.selfContained_written

theorem joined_cons (first : ListItem) (rest : List ListItem) :
    joined (first :: rest) = first.written ++ rest.flatMap fun item ↦ ',' :: item.written := by
  rw [joined, List.map_cons, intercalate_cons, List.flatMap_map]
  rfl

theorem notMem_joined (hmark : c ∈ listMarks) (hquote : c ≠ '"') (hcomma : c ≠ ',') :
    c ∉ joined items := by
  cases items with
  | nil => simp [joined]
  | cons first rest => simp [joined_cons, hcomma, notMem_written hmark hquote]

/-- The commas between brackets are those between the items. -/
theorem splitAll_joined (h : items ≠ []) : splitAll ',' (joined items) = items.map written := by
  rw [splitAll_eq_splitOn]
  refine List.splitOn_intercalate ',' ?_ (by simpa using h)
  rw [List.forall_mem_map]
  exact fun item _ ↦ notMem_written (by decide) (by decide)

/-- Something stands between the brackets unless the only item is empty and bare. -/
theorem not_blank_joined (h : items ≠ [])
    (hsingle : ∀ item, items = [item] → item.text = "" → item.quoted = true) :
    ¬ Blank (joined items) := by
  rcases items with _ | ⟨first, _ | ⟨second, rest⟩⟩
  · exact absurd rfl h
  · intro hblank
    have hcore : first.core = [] := by
      rw [← trim_written]
      exact List.isEmpty_iff.mp (isEmpty_trim_iff.mpr (by simpa [joined] using hblank))
    unfold core at hcore
    split at hcore
    next => cases hcore
    next hquoted => exact hquoted (hsingle first rfl (String.toList_injective hcore))
  · intro hblank
    have hcomma : ',' ∈ joined (first :: second :: rest) := by simp [joined_cons]
    exact hblank.notMem (by decide) hcomma

end ListItem

/-! ## Reading lists -/

namespace Value

theorem tight_of_notMem_quote {text : List Char} (h : '"' ∉ text) : Tight (· == '"') text :=
  tight_of_forall fun _ hc ↦ beq_eq_false_iff_ne.mpr fun heq ↦ h (heq ▸ hc)

theorem unquote_core (item : ListItem) : unquote item.core = item.text.toList := by
  have htight := tight_of_notMem_quote item.notMem_text
  have hquote : ∀ c ∈ ['"'], (c == '"') = true := by simp
  unfold ListItem.core
  split
  · exact strip_append_append htight hquote hquote
  · exact strip_eq_self htight

variable {inside : List Char}

/-- The text between brackets is found if no bracket stands in it. -/
theorem insideBrackets_bracketed (hopen : '[' ∉ inside) (hclose : ']' ∉ inside) :
    insideBrackets (bracketed inside) = trim inside := by
  have htight : Tight isBlank (bracketed inside) :=
    tight_cons_append_singleton inside (by decide) (by decide)
  have hstart : stripStart (· == '[') (bracketed inside) = inside ++ [']'] := by
    rw [show bracketed inside = ['['] ++ (inside ++ [']']) from rfl, stripStart_append (by simp)]
    refine stripStart_eq_self fun c hc ↦ beq_eq_false_iff_ne.mpr ?_
    rintro rfl
    simpa [hopen] using List.mem_of_head? hc
  have hend : stripEnd (· == ']') (inside ++ [']']) = inside := by
    rw [stripEnd_append (by simp)]
    refine stripEnd_eq_self fun c hc ↦ beq_eq_false_iff_ne.mpr ?_
    rintro rfl
    exact hclose (List.mem_of_getLast? hc)
  rw [insideBrackets, trim_eq_self htight, hstart, hend]

/-- What stands between brackets is a list: the empty one if it is white space, and else that of
the pieces between the commas, trimmed and without the quotation marks at their ends. -/
theorem ofText_bracketed (hopen : '[' ∉ inside) (hclose : ']' ∉ inside) :
    ofText (String.ofList (bracketed inside)) =
      if Blank inside then emptyList
      else list (((splitAll ',' inside).map trim).map fun core ↦ String.ofList (unquote core)) := by
  have hbracket : '[' ∈ bracketed inside := List.mem_cons_self
  -- The text is trimmed before it is cut, but the pieces are trimmed anyway.
  rw [ofText, String.toList_ofList, if_pos hbracket, insideBrackets_bracketed hopen hclose,
    splitAll_eq_splitOn, ← map_trim_splitOn_trim (by decide), ← splitAll_eq_splitOn, List.map_map]
  simp only [isEmpty_trim_iff]
  rfl

/-- Only white space between brackets makes the empty list. -/
theorem ofText_bracketed_of_blank (h : Blank inside) :
    ofText (String.ofList (bracketed inside)) = emptyList := by
  rw [ofText_bracketed (h.notMem (by decide)) (h.notMem (by decide)), if_pos h]

/-- Items between brackets make the list of their texts, however they are written. -/
theorem ofText_bracketed_joined {items : List ListItem} (h : items ≠ [])
    (hsingle : ∀ item, items = [item] → item.text = "" → item.quoted = true) :
    ofText (String.ofList (bracketed (ListItem.joined items))) =
      list (items.map ListItem.text) := by
  have hitem (item : ListItem) : String.ofList (unquote (trim item.written)) = item.text := by
    rw [item.trim_written, unquote_core, String.ofList_toList]
  rw [ofText_bracketed, if_neg (ListItem.not_blank_joined h hsingle), ListItem.splitAll_joined h,
    List.map_map, List.map_map]
  · exact congrArg list (List.map_congr_left fun item _ ↦ hitem item)
  · exact ListItem.notMem_joined (by decide) (by decide) (by decide)
  · exact ListItem.notMem_joined (by decide) (by decide) (by decide)

end Value

theorem SelfContained.bracketed {inside : List Char} (h : SelfContained inside) :
    SelfContained (bracketed inside) := by
  have hopen : SelfContained ['['] := of_notMem (by decide) (by decide)
  exact (hopen.append h).append (of_notMem (by decide) (by decide))

/-- A self-contained text between brackets can stand on a line. -/
theorem ValueForm.wellFormed_bracketed {inside : List Char} (h : SelfContained inside)
    (hunbroken : '\n' ∉ inside) : (list (bracketed inside)).WellFormed where
  recognisable :=
    ⟨tight_cons_append_singleton inside (by decide) (by decide), rfl, List.getLast?_concat⟩
  uncommented := h.bracketed.uncommented
  unbroken := by simpa [written, bracketed] using hunbroken

end SectionedConfig
