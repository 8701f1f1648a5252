import SectionedConfig.Text.Blank

/-!
# Stripping a class of characters

Stripping splits a text in three: a lead and a tail of dropped characters, and a core that neither
starts nor ends with one. The core is determined by that: whatever is put around a tight text is
stripped off again if it consists of dropped characters. Everything about trimmed names, keys,
values and comments follows from these two facts.
-/

namespace SectionedConfig.Text

variable {dropped : Char → Bool}

/-- A text that neither starts nor ends with a dropped character. -/
def Tight (dropped : Char → Bool) (text : List Char) : Prop :=
  (∀ c, text.head? = some c → dropped c = false) ∧
    ∀ c, text.getLast? = some c → dropped c = false

instance (dropped : Char → Bool) (text : List Char) : Decidable (Tight dropped text) :=
  decidable_of_iff (text.head?.all (!dropped ·) ∧ text.getLast?.all (!dropped ·)) <| by
    simp only [Tight, Option.all_eq_true, Bool.not_eq_true']

theorem tight_nil (dropped : Char → Bool) : Tight dropped [] := by
  simp [Tight]

/-- A text of which no character is dropped is tight. -/
theorem tight_of_forall {text : List Char} (h : ∀ c ∈ text, dropped c = false) :
    Tight dropped text :=
  ⟨fun c hc ↦ h c (List.mem_of_head? hc), fun c hc ↦ h c (List.mem_of_getLast? hc)⟩

/-- A text between two characters that stay is tight. -/
theorem tight_cons_append_singleton {first last : Char} (text : List Char)
    (hfirst : dropped first = false) (hlast : dropped last = false) :
    Tight dropped (first :: text ++ [last]) := by
  constructor
  · intro c hc
    simp only [List.cons_append, List.head?_cons, Option.some.injEq] at hc
    exact hc ▸ hfirst
  · intro c hc
    rw [List.getLast?_concat, Option.some.injEq] at hc
    exact hc ▸ hlast

/-! ## One end -/

theorem stripStart_append {lead : List Char} (h : ∀ c ∈ lead, dropped c = true)
    (text : List Char) : stripStart dropped (lead ++ text) = stripStart dropped text :=
  List.dropWhile_append_of_pos h

theorem stripEnd_append {tail : List Char} (h : ∀ c ∈ tail, dropped c = true)
    (text : List Char) : stripEnd dropped (text ++ tail) = stripEnd dropped text := by
  unfold stripEnd
  rw [List.reverse_append,
    List.dropWhile_append_of_pos fun c hc ↦ h c (List.mem_reverse.mp hc)]

theorem stripStart_eq_self {text : List Char}
    (h : ∀ c, text.head? = some c → dropped c = false) : stripStart dropped text = text := by
  cases text with
  | nil => rfl
  | cons c rest => exact List.dropWhile_cons_of_neg (by simp [h c rfl])

theorem stripEnd_eq_self {text : List Char}
    (h : ∀ c, text.getLast? = some c → dropped c = false) : stripEnd dropped text = text := by
  have hreverse : stripStart dropped text.reverse = text.reverse :=
    stripStart_eq_self fun c hc ↦ h c (by rwa [← List.head?_reverse])
  calc
    stripEnd dropped text = (stripStart dropped text.reverse).reverse := rfl
    _ = text := by rw [hreverse, List.reverse_reverse]

theorem exists_eq_append_stripStart (dropped : Char → Bool) (text : List Char) :
    ∃ lead, (∀ c ∈ lead, dropped c = true) ∧ text = lead ++ stripStart dropped text := by
  refine ⟨text.takeWhile dropped, ?_, List.takeWhile_append_dropWhile.symm⟩
  exact List.all_eq_true.mp List.all_takeWhile

theorem exists_eq_stripEnd_append (dropped : Char → Bool) (text : List Char) :
    ∃ tail, (∀ c ∈ tail, dropped c = true) ∧ text = stripEnd dropped text ++ tail := by
  obtain ⟨lead, hlead, heq⟩ := exists_eq_append_stripStart dropped text.reverse
  refine ⟨lead.reverse, fun c hc ↦ hlead c (List.mem_reverse.mp hc), ?_⟩
  calc
    text = text.reverse.reverse := text.reverse_reverse.symm
    _ = (stripStart dropped text.reverse).reverse ++ lead.reverse := by
      rw [← List.reverse_append, ← heq]
    _ = stripEnd dropped text ++ lead.reverse := rfl

theorem head?_stripStart {text : List Char} {c : Char}
    (h : (stripStart dropped text).head? = some c) : dropped c = false := by
  have hhead := List.head?_dropWhile_not dropped text
  rw [show text.dropWhile dropped = stripStart dropped text from rfl, h] at hhead
  simpa using hhead

theorem getLast?_stripEnd {text : List Char} {c : Char}
    (h : (stripEnd dropped text).getLast? = some c) : dropped c = false := by
  unfold stripEnd at h
  rw [List.getLast?_reverse] at h
  exact head?_stripStart h

/-! ## Both ends -/

/-- The content is what the text has between characters of one class and characters of another one.
It does not start with one of the first class or end with one of the second. -/
def Strips (atStart atEnd : Char → Bool) (text content : List Char) : Prop :=
  ∃ lead tail, text = lead ++ content ++ tail ∧ (∀ c ∈ lead, atStart c = true) ∧
    (∀ c ∈ tail, atEnd c = true) ∧ (∀ c, content.head? = some c → atStart c = false) ∧
      ∀ c, content.getLast? = some c → atEnd c = false

/-- Stripping one end and then the other one leaves the content, whatever the classes have in
common. -/
theorem stripEnd_stripStart_eq_iff {atStart atEnd : Char → Bool} {text content : List Char} :
    stripEnd atEnd (stripStart atStart text) = content ↔ Strips atStart atEnd text content := by
  constructor
  · rintro rfl
    obtain ⟨lead, hlead, hstart⟩ := exists_eq_append_stripStart atStart text
    obtain ⟨tail, htail, hend⟩ := exists_eq_stripEnd_append atEnd (stripStart atStart text)
    refine ⟨lead, tail, ?_, hlead, htail, fun c hc ↦ ?_, fun c hc ↦ getLast?_stripEnd hc⟩
    · rw [List.append_assoc, ← hend, ← hstart]
    · apply @head?_stripStart atStart text c
      rw [hend, List.head?_append, hc, Option.some_or]
  · rintro ⟨lead, tail, rfl, hlead, htail, hhead, hlast⟩
    rw [List.append_assoc, stripStart_append hlead]
    cases content with
    | nil =>
      -- What the first class leaves of the tail is dropped with the second one.
      obtain ⟨gone, _, heq⟩ := exists_eq_append_stripStart atStart tail
      have hrest : ∀ c ∈ stripStart atStart tail, atEnd c = true := fun c hc ↦
        htail c (heq ▸ List.mem_append_right gone hc)
      simpa [stripEnd] using stripEnd_append hrest []
    | cons c rest =>
      rw [stripStart_eq_self (by simpa using hhead c rfl), stripEnd_append htail,
        stripEnd_eq_self hlast]

theorem strip_eq_iff {text content : List Char} :
    strip dropped text = content ↔ Strips dropped dropped text content :=
  stripEnd_stripStart_eq_iff

/-- A tight text is what is left when dropped characters around it are stripped. -/
theorem strip_append_append {lead core tail : List Char} (hcore : Tight dropped core)
    (hlead : ∀ c ∈ lead, dropped c = true) (htail : ∀ c ∈ tail, dropped c = true) :
    strip dropped (lead ++ core ++ tail) = core :=
  strip_eq_iff.mpr ⟨lead, tail, rfl, hlead, htail, hcore.1, hcore.2⟩

theorem strip_eq_self {text : List Char} (h : Tight dropped text) : strip dropped text = text := by
  have hnone : ∀ c ∈ ([] : List Char), dropped c = true := by simp
  simpa using strip_append_append h hnone hnone

/-- Stripping drops a lead and a tail. -/
theorem exists_eq_append_strip_append (dropped : Char → Bool) (text : List Char) :
    ∃ lead tail, (∀ c ∈ lead, dropped c = true) ∧ (∀ c ∈ tail, dropped c = true) ∧
      text = lead ++ strip dropped text ++ tail := by
  obtain ⟨lead, tail, htext, hlead, htail, _⟩ := strip_eq_iff.mp (Eq.refl (strip dropped text))
  exact ⟨lead, tail, hlead, htail, htext⟩

/-- What stripping leaves is tight. -/
theorem tight_strip (dropped : Char → Bool) (text : List Char) :
    Tight dropped (strip dropped text) := by
  obtain ⟨_, _, _, _, _, htight⟩ := strip_eq_iff.mp (Eq.refl (strip dropped text))
  exact htight

theorem mem_of_mem_strip {text : List Char} {c : Char} (h : c ∈ strip dropped text) :
    c ∈ text := by
  obtain ⟨lead, tail, _, _, heq⟩ := exists_eq_append_strip_append dropped text
  rw [heq]
  exact List.mem_append_left _ (List.mem_append_right _ h)

/-- Stripping leaves nothing of a text if all of it is dropped, and only then. -/
theorem strip_eq_nil_iff {text : List Char} :
    strip dropped text = [] ↔ ∀ c ∈ text, dropped c = true := by
  constructor
  · intro h
    obtain ⟨lead, tail, hlead, htail, heq⟩ := exists_eq_append_strip_append dropped text
    rw [h, List.append_nil] at heq
    rw [heq]
    exact fun c hc ↦ (List.mem_append.mp hc).elim (hlead c) (htail c)
  · intro h
    have hnone : ∀ c ∈ ([] : List Char), dropped c = true := by simp
    simpa using strip_append_append (tight_nil dropped) h hnone

/-! ## White space -/

/-- A text that is nothing but white space. -/
def Blank (text : List Char) : Prop := ∀ c ∈ text, isBlank c = true

instance (text : List Char) : Decidable (Blank text) :=
  List.decidableBAll (fun c ↦ isBlank c = true) text

theorem blank_nil : Blank [] := by
  simp [Blank]

theorem blank_space : Blank [' '] := by
  decide

theorem trim_append_append {lead core tail : List Char} (hcore : Tight isBlank core)
    (hlead : Blank lead) (htail : Blank tail) : trim (lead ++ core ++ tail) = core :=
  strip_append_append hcore hlead htail

theorem trim_eq_self {text : List Char} (h : Tight isBlank text) : trim text = text :=
  strip_eq_self h

theorem tight_trim (text : List Char) : Tight isBlank (trim text) :=
  tight_strip isBlank text

theorem blank_margin (text : List Char) : Blank (margin text) :=
  List.all_eq_true.mp List.all_takeWhile

/-- White space around a text makes no difference to what trimming leaves. -/
theorem trim_around {lead tail : List Char} (hlead : Blank lead) (htail : Blank tail)
    (text : List Char) : trim (lead ++ text ++ tail) = trim text := by
  obtain ⟨front, back, hfront, hback, htext⟩ : ∃ front back, Blank front ∧ Blank back ∧
      text = front ++ trim text ++ back := exists_eq_append_strip_append isBlank text
  have htight := tight_trim text
  generalize trim text = core at htext htight ⊢
  have hall := trim_append_append htight (List.forall_mem_append.mpr ⟨hlead, hfront⟩)
    (List.forall_mem_append.mpr ⟨hback, htail⟩)
  rw [htext]
  simpa only [List.append_assoc] using hall

theorem trim_append_blank {tail : List Char} (h : Blank tail) (text : List Char) :
    trim (text ++ tail) = trim text := by
  simpa using trim_around blank_nil h text

theorem trim_blank_append {lead : List Char} (h : Blank lead) (text : List Char) :
    trim (lead ++ text) = trim text := by
  simpa using trim_around h blank_nil text

/-- What trimming strips is the margin and the white space at the end. -/
theorem exists_margin_append_trim_append (text : List Char) :
    ∃ tail, Blank tail ∧ margin text ++ trim text ++ tail = text := by
  obtain ⟨tail, htail, htext⟩ := exists_eq_stripEnd_append isBlank (stripStart isBlank text)
  refine ⟨tail, htail, ?_⟩
  rw [List.append_assoc, trim, strip, ← htext, margin_append_stripStart]

theorem isEmpty_trim_iff {text : List Char} : (trim text).isEmpty = true ↔ Blank text := by
  rw [List.isEmpty_iff]
  exact strip_eq_nil_iff

/-- A character that is not white space does not occur in white space. -/
theorem Blank.notMem {text : List Char} (h : Blank text) {c : Char} (hc : isBlank c = false) :
    c ∉ text := fun hmem ↦ by simp [h c hmem] at hc

/-! ## Trimmed pieces -/

section Pieces

variable {mark : Char} (hmark : isBlank mark = false)
include hmark

theorem map_trim_splitOn_blank_append {lead : List Char} (h : Blank lead) (text : List Char) :
    ((lead ++ text).splitOn mark).map trim = (text.splitOn mark).map trim := by
  by_cases hmem : mark ∈ text
  · obtain ⟨first, rest, rfl, hfirst⟩ := List.eq_append_cons_of_mem hmem
    have hboth : mark ∉ lead ++ first := by simp [hfirst, h.notMem hmark]
    rw [← List.append_assoc, List.splitOn_append_cons_self_of_not_mem hfirst,
      List.splitOn_append_cons_self_of_not_mem hboth, List.map_cons, List.map_cons,
      trim_blank_append h]
  · have hboth : mark ∉ lead ++ text := by simp [hmem, h.notMem hmark]
    rw [List.splitOn_eq_singleton hmem, List.splitOn_eq_singleton hboth, List.map_singleton,
      List.map_singleton, trim_blank_append h]

theorem map_trim_splitOn_append_blank {tail : List Char} (h : Blank tail) (text : List Char) :
    ((text ++ tail).splitOn mark).map trim = (text.splitOn mark).map trim := by
  by_cases hmem : mark ∈ text
  · obtain ⟨first, rest, rfl, hfirst⟩ := List.eq_append_cons_of_mem hmem
    rw [List.append_assoc, List.cons_append, List.splitOn_append_cons_self_of_not_mem hfirst,
      List.splitOn_append_cons_self_of_not_mem hfirst, List.map_cons, List.map_cons,
      map_trim_splitOn_append_blank h rest]
  · have hboth : mark ∉ text ++ tail := by simp [hmem, h.notMem hmark]
    rw [List.splitOn_eq_singleton hmem, List.splitOn_eq_singleton hboth, List.map_singleton,
      List.map_singleton, trim_append_blank h]
termination_by text.length
decreasing_by
  simp_all only [List.length_append, List.length_cons]
  omega

/-- White space around a text makes no difference to its trimmed pieces. -/
theorem map_trim_splitOn_trim (text : List Char) :
    ((trim text).splitOn mark).map trim = (text.splitOn mark).map trim := by
  obtain ⟨lead, tail, hlead, htail, htext⟩ : ∃ lead tail, Blank lead ∧ Blank tail ∧
      text = lead ++ trim text ++ tail := exists_eq_append_strip_append isBlank text
  generalize trim text = core at htext ⊢
  rw [htext, map_trim_splitOn_append_blank hmark htail, map_trim_splitOn_blank_append hmark hlead]

end Pieces

end SectionedConfig.Text
