import SectionedConfig.Index
import SectionedConfig.Proofs.OrderedMap

/-!
# Entries of sorted indexes

An index has at most one entry at each place, so looking up a place is the same as finding it among
the entries. Entries that are inserted at places of their own are all kept, and the sections of an
index list its entries in order.
-/

namespace SectionedConfig

namespace Index

variable {α β : Type}

theorem find?_put (place other : Place) (content : α) (entries : List (Place × α)) :
    ((put place content entries).find? fun entry ↦ entry.1 = other).map Prod.snd =
      if other = place then some content
      else (entries.find? fun entry ↦ entry.1 = other).map Prod.snd := by
  induction entries with
  | nil =>
    by_cases h : other = place
    · simp [put, h]
    · simp [put, h, Ne.symm h]
  | cons entry rest ih =>
    unfold put
    split
    next =>
      by_cases h : other = place
      · simp [h]
      · simp [h, Ne.symm h]
    next =>
      split
      next heq =>
        by_cases h : other = place
        · simp [h]
        · simp [h, ← heq, Ne.symm h]
      next hne =>
        by_cases h : entry.1 = other
        · have hother : other ≠ place := fun hplace ↦ hne (h.trans hplace).symm
          simp [h, hother]
        · simp [h, ih]

@[simp]
theorem get?_empty (place : Place) : (empty : Index α).get? place = none := rfl

/-- An insertion is seen at its place and nowhere else. -/
@[simp]
theorem get?_insert (index : Index α) (place other : Place) (content : α) :
    (index.insert place content).get? other =
      if other = place then some content else index.get? other :=
  find?_put place other content index.entries

/-- No two entries are at the same place, because places do not come before themselves. -/
theorem nodup_places (index : Index α) : (index.entries.map Prod.fst).Nodup := by
  refine List.pairwise_map.mpr (index.increasing.imp ?_)
  intro first second hbefore heq
  exact Place.Before.irrefl second.1 (heq ▸ hbefore)

theorem mem_entries_iff {index : Index α} {place : Place} {content : α} :
    (place, content) ∈ index.entries ↔ index.get? place = some content :=
  mem_iff_find?_fst index.nodup_places

/-- The entries of an index settle their order. -/
theorem eq_of_mem_iff {first second : Index α}
    (h : ∀ entry, entry ∈ first.entries ↔ entry ∈ second.entries) : first = second := by
  have hnodup (index : Index α) : index.entries.Nodup :=
    (List.pairwise_map.mp index.nodup_places).imp fun hne heq ↦ hne (congrArg Prod.fst heq)
  apply Index.ext
  apply List.Perm.eq_of_pairwise _ first.increasing second.increasing
  · exact (List.perm_ext_iff_of_nodup (hnodup first) (hnodup second)).mpr h
  · intro entry other _ _ hbefore hafter
    exact absurd (hbefore.trans hafter) (Place.Before.irrefl entry.1)

/-- The entries in front of one are those at the places before it. -/
theorem mem_before_iff {index : Index α} {before after : List (Place × α)} {entry : Place × α}
    (h : index.entries = before ++ entry :: after) (other : Place × α) :
    other ∈ before ↔ other ∈ index.entries ∧ other.1.Before entry.1 := by
  have hincreasing := index.increasing
  rw [h] at hincreasing ⊢
  obtain ⟨_, hafter, hbefore⟩ := List.pairwise_append.mp hincreasing
  constructor
  · intro hother
    exact ⟨List.mem_append_left _ hother, hbefore other hother entry List.mem_cons_self⟩
  · rintro ⟨hother, hlt⟩
    rcases List.mem_append.mp hother with hother | hother
    · exact hother
    rcases List.mem_cons.mp hother with rfl | hother
    · exact absurd hlt (Place.Before.irrefl _)
    · have hgt := (List.pairwise_cons.mp hafter).1 other hother
      exact absurd (hlt.trans hgt) (Place.Before.irrefl _)

/-- Entries that are inserted at different places are all kept. -/
theorem get?_foldl_insert {entries : List (Place × α)} (h : (entries.map Prod.fst).Nodup)
    {place : Place} {content : α} :
    (entries.foldl (fun index entry ↦ index.insert entry.1 entry.2) empty).get? place =
      some content ↔ (place, content) ∈ entries := by
  have hkept (index : Index α) :
      (entries.foldl (fun index entry ↦ index.insert entry.1 entry.2) index).get? place =
        some content ↔ (place, content) ∈ entries ∨
          place ∉ entries.map Prod.fst ∧ index.get? place = some content := by
    induction entries generalizing index with
    | nil => simp
    | cons entry rest ih =>
      obtain ⟨first, found⟩ := entry
      obtain ⟨hfirst, hrest⟩ := List.nodup_cons.mp h
      rw [List.foldl_cons, ih hrest, get?_insert]
      by_cases heq : place = first
      · subst heq
        have hnot : (place, content) ∉ rest := fun hmem ↦
          hfirst (List.mem_map.mpr ⟨(place, content), hmem, rfl⟩)
        have hplace : place ∉ rest.map Prod.fst := hfirst
        simp [hnot, hplace, eq_comm]
      · simp [heq]
  simpa using hkept empty

/-! ## Sections -/

/-- The entries of a section. -/
def entriesOf (block : String × List (String × α)) : List (Place × α) :=
  block.2.map fun entry ↦ (⟨block.1, entry.1⟩, entry.2)

/-- The sections list the entries in order. -/
theorem flatMap_sections (index : Index α) : index.sections.flatMap entriesOf = index.entries := by
  have hcons (entry : Place × α) (blocks : List (String × List (String × α))) :
      (consEntry entry blocks).flatMap entriesOf = entry :: blocks.flatMap entriesOf := by
    cases blocks with
    | nil => rfl
    | cons block others =>
      obtain ⟨name, fields⟩ := block
      simp only [consEntry]
      split
      next h => simp [entriesOf, ← h]
      next => rfl
  unfold sections
  induction index.entries with
  | nil => rfl
  | cons entry rest ih => rw [List.foldr_cons, hcons, ih]

theorem mem_entries_of_mem_sections {index : Index α} {block : String × List (String × α)}
    (h : block ∈ index.sections) {field : String} {content : α}
    (hfield : (field, content) ∈ block.2) :
    (⟨block.1, field⟩, content) ∈ index.entries := by
  rw [← index.flatMap_sections, List.mem_flatMap]
  exact ⟨block, h, List.mem_map.mpr ⟨(field, content), hfield, rfl⟩⟩

/-- A section is only there because of a field in it. -/
theorem exists_mem_of_mem_sections {index : Index α} {block : String × List (String × α)}
    (h : block ∈ index.sections) : ∃ entry, entry ∈ block.2 := by
  unfold sections at h
  generalize index.entries = entries at h
  induction entries generalizing block with
  | nil => simp at h
  | cons entry rest ih =>
    rw [List.foldr_cons] at h
    cases hblocks : rest.foldr consEntry [] with
    | nil =>
      rw [hblocks, consEntry, List.mem_singleton] at h
      exact ⟨(entry.1.field, entry.2), by simp [h]⟩
    | cons first others =>
      rw [hblocks] at h ih
      simp only [consEntry] at h
      split at h
      next =>
        rcases List.mem_cons.mp h with rfl | h
        · exact ⟨_, List.mem_cons_self⟩
        · exact ih (List.mem_cons_of_mem first h)
      next =>
        rcases List.mem_cons.mp h with rfl | h
        · exact ⟨_, List.mem_cons_self⟩
        · exact ih h

/-- The sections come in increasing order, and so do the fields of each of them. -/
theorem increasing_sections (index : Index α) :
    (index.sections.map Prod.fst).Pairwise (· < ·) ∧
      ∀ block ∈ index.sections, (block.2.map Prod.fst).Pairwise (· < ·) := by
  obtain ⟨entries, increasing⟩ := index
  induction entries with
  | nil => simp [sections]
  | cons entry rest ih =>
    obtain ⟨hentry, hrest⟩ := List.pairwise_cons.mp increasing
    obtain ⟨hnames, hfields⟩ := ih hrest
    -- Every field of a later section stands for an entry behind the first one.
    have hbehind {block : String × List (String × α)} (hblock : block ∈ sections ⟨rest, hrest⟩)
        {field : String} {content : α} (hfield : (field, content) ∈ block.2) :
        entry.1.Before ⟨block.1, field⟩ :=
      hentry _ (mem_entries_of_mem_sections hblock hfield)
    have hstep : sections ⟨entry :: rest, increasing⟩ =
        consEntry entry (sections ⟨rest, hrest⟩) := rfl
    rw [hstep]
    cases hblocks : sections ⟨rest, hrest⟩ with
    | nil => simp [consEntry]
    | cons first others =>
      obtain ⟨name, fields⟩ := first
      rw [hblocks] at hnames hfields hbehind
      rw [List.map_cons, List.pairwise_cons] at hnames
      rw [List.forall_mem_cons] at hfields
      simp only [consEntry]
      split
      next heq =>
        refine ⟨List.pairwise_cons.mpr hnames, List.forall_mem_cons.mpr ⟨?_, hfields.2⟩⟩
        refine List.pairwise_cons.mpr ⟨List.forall_mem_map.mpr fun other hother ↦ ?_, hfields.1⟩
        rcases hbehind List.mem_cons_self hother with hlt | ⟨-, hlt⟩
        · exact absurd (heq ▸ hlt) (String.lt_irrefl name)
        · exact hlt
      next hne =>
        have hmem : (name, fields) ∈ sections ⟨rest, hrest⟩ := hblocks ▸ List.mem_cons_self
        obtain ⟨field, hfield⟩ := exists_mem_of_mem_sections hmem
        have hlt : entry.1.sectionName < name :=
          (hbehind List.mem_cons_self hfield).resolve_right fun h ↦ hne h.1
        refine ⟨List.pairwise_cons.mpr ⟨?_, List.pairwise_cons.mpr hnames⟩,
          List.forall_mem_cons.mpr ⟨List.pairwise_singleton _ _, List.forall_mem_cons.mpr hfields⟩⟩
        exact List.forall_mem_cons.mpr
          ⟨hlt, fun later hlater ↦ String.lt_trans hlt (hnames.1 later hlater)⟩

/-! ## Names of sections and fields in them -/

theorem mem_sectionNames_iff {index : Index α} {name : String} :
    name ∈ index.sectionNames ↔ ∃ entry ∈ index.entries, entry.1.sectionName = name := by
  rw [sectionNames, List.mem_map]
  constructor
  · rintro ⟨block, hblock, rfl⟩
    obtain ⟨⟨field, content⟩, hfield⟩ := exists_mem_of_mem_sections hblock
    exact ⟨_, mem_entries_of_mem_sections hblock hfield, rfl⟩
  · rintro ⟨entry, hentry, rfl⟩
    rw [← index.flatMap_sections, List.mem_flatMap] at hentry
    obtain ⟨block, hblock, hentry⟩ := hentry
    obtain ⟨field, _, rfl⟩ := List.mem_map.mp hentry
    exact ⟨block, hblock, rfl⟩

/-- The fields of a section are its entries in order. -/
theorem fieldsOf_eq (index : Index α) (name : String) :
    index.fieldsOf name = (index.entries.filter fun entry ↦ entry.1.sectionName = name).map
      fun entry ↦ (entry.1.field, entry.2) := by
  have hentriesOf (block : String × List (String × α)) :
      ((entriesOf block).filter fun entry ↦ entry.1.sectionName = name).map
        (fun entry ↦ (entry.1.field, entry.2)) = if name = block.1 then block.2 else [] := by
    split
    next h => simp [entriesOf, List.filter_map, Function.comp_def, h]
    next h => simp [entriesOf, List.filter_map, Function.comp_def, Ne.symm h]
  have hdistinct : (index.sections.map Prod.fst).Pairwise (· < ·) := index.increasing_sections.1
  rw [fieldsOf, ← index.flatMap_sections]
  generalize index.sections = blocks at hdistinct ⊢
  induction blocks with
  | nil => rfl
  | cons block others ih =>
    obtain ⟨first, fields⟩ := block
    obtain ⟨hfirst, hothers⟩ := List.pairwise_cons.mp hdistinct
    rw [List.flatMap_cons, List.filter_append, List.map_append, hentriesOf, ← ih hothers,
      List.lookup_cons]
    by_cases h : name = first
    · -- No later section has the same name.
      subst h
      have hnone : others.lookup name = none := by
        rw [List.lookup_eq_none_iff]
        intro other hother
        have hlt : name < other.1 := hfirst other.1 (List.mem_map_of_mem hother)
        have hne : name ≠ other.1 := fun heq ↦ String.lt_irrefl _ (heq ▸ hlt)
        simp [hne]
      simp [hnone]
    · rw [if_neg h, List.nil_append, beq_eq_false_iff_ne.mpr h]

/-- Changes the contents of all entries. -/
def map (change : α → β) (index : Index α) : Index β :=
  ⟨index.entries.map fun entry ↦ (entry.1, change entry.2), List.pairwise_map.mpr index.increasing⟩

/-- Changes the contents of a section. -/
def mapBlock (change : α → β) (block : String × List (String × α)) :
    String × List (String × β) :=
  (block.1, block.2.map fun entry ↦ (entry.1, change entry.2))

theorem sections_map (change : α → β) (index : Index α) :
    (index.map change).sections = index.sections.map (mapBlock change) := by
  have hcons (entry : Place × α) (blocks : List (String × List (String × α))) :
      consEntry (entry.1, change entry.2) (blocks.map (mapBlock change)) =
        (consEntry entry blocks).map (mapBlock change) := by
    cases blocks with
    | nil => rfl
    | cons block others =>
      simp only [List.map_cons, consEntry, mapBlock]
      split <;> rfl
  obtain ⟨entries, increasing⟩ := index
  simp only [sections, map]
  clear increasing
  induction entries with
  | nil => rfl
  | cons entry rest ih => rw [List.map_cons, List.foldr_cons, List.foldr_cons, ← hcons, ih]

end Index

end SectionedConfig
