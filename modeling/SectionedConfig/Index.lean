import SectionedConfig.Error
import SectionedConfig.Text.Blank

/-!
# Names, places and sorted indexes

Section names and keys are written bare, so they cannot contain white space or any character that
would end them or change what the line says. The separator of composed keys is excluded as well.

A place is a field of a section. The entries of an index are kept in increasing order of their
places, by section first, so that entries of the same section stand together. Text is ordered by
code point.
-/

namespace SectionedConfig

open Text

/-! ## Names -/

/-- The characters that a name cannot contain. -/
def reservedCharacters : List Char :=
  ['{', '}', '=', '#', '"', '[', ']', '/']

/-- Why a text is no name. -/
inductive NameFault where
  | empty
  | blank
  | reserved (c : Char)
deriving DecidableEq

/-- The wording of a fault. -/
def NameFault.message : NameFault → String
  | empty => "name is empty"
  | blank => "name contains whitespace"
  | reserved c => "name contains reserved character " ++ quotedChar c

/-- What keeps a text from being a name. White space is noticed before reserved characters. -/
def nameFault? (name : String) : Option NameFault :=
  let chars := name.toList
  if chars.isEmpty then some .empty
  else if chars.any isBlank then some .blank
  else (chars.find? fun c ↦ reservedCharacters.contains c).map .reserved

/-- Checks that a text is a name. -/
def checkName (name : String) : Except Error Unit :=
  match nameFault? name with
  | none => .ok ()
  | some fault => .error (.invalidName name fault.message)

/-! ## Places -/

/-- A field of a section. -/
structure Place where
  sectionName : String
  field : String
deriving DecidableEq

namespace Place

/-- The order of places: by section, and by field in the same section. -/
def Before (first second : Place) : Prop :=
  first.sectionName < second.sectionName ∨
    first.sectionName = second.sectionName ∧ first.field < second.field

instance (first second : Place) : Decidable (first.Before second) :=
  inferInstanceAs (Decidable (_ ∨ _))

theorem Before.trans {first second third : Place} (h : first.Before second)
    (h' : second.Before third) : first.Before third := by
  rcases h with h | ⟨h, hf⟩ <;> rcases h' with h' | ⟨h', hf'⟩
  · exact .inl (String.lt_trans h h')
  · exact .inl (h' ▸ h)
  · exact .inl (h ▸ h')
  · exact .inr ⟨h.trans h', String.lt_trans hf hf'⟩

theorem Before.irrefl (place : Place) : ¬ place.Before place := by
  rintro (h | ⟨_, h⟩) <;> exact String.lt_irrefl _ h

theorem before_or_before_of_ne {first second : Place} (h : first ≠ second) :
    first.Before second ∨ second.Before first := by
  obtain ⟨sectionName, field⟩ := first
  obtain ⟨sectionName', field'⟩ := second
  by_cases hsection : sectionName = sectionName'
  · subst hsection
    by_cases hlt : field < field'
    · exact .inl (.inr ⟨rfl, hlt⟩)
    · by_cases hgt : field' < field
      · exact .inr (.inr ⟨rfl, hgt⟩)
      · exact absurd (String.le_antisymm (String.not_lt.mp hgt) (String.not_lt.mp hlt))
          fun heq ↦ h (by rw [heq])
  · by_cases hlt : sectionName < sectionName'
    · exact .inl (.inl hlt)
    · refine .inr (.inl (Decidable.byContradiction fun hgt ↦ hsection ?_))
      exact String.le_antisymm (String.not_lt.mp hgt) (String.not_lt.mp hlt)

end Place

/-! ## Indexes -/

/-- Entries in increasing order of their places. -/
@[ext]
structure Index (α : Type) where
  entries : List (Place × α)
  increasing : entries.Pairwise fun first second ↦ first.1.Before second.1
deriving DecidableEq

namespace Index

variable {α : Type}

/-- Puts an entry where it belongs; an entry at the same place is replaced. -/
def put (place : Place) (content : α) : List (Place × α) → List (Place × α)
  | [] => [(place, content)]
  | entry :: rest =>
    if place.Before entry.1 then (place, content) :: entry :: rest
    else if place = entry.1 then (place, content) :: rest
    else entry :: put place content rest

theorem mem_put {place : Place} {content : α} {entries : List (Place × α)} {entry : Place × α}
    (h : entry ∈ put place content entries) : entry = (place, content) ∨ entry ∈ entries := by
  induction entries with
  | nil => simpa [put] using h
  | cons head rest ih =>
    unfold put at h
    split at h
    · simpa using h
    · split at h
      · rcases List.mem_cons.mp h with h | h
        · exact .inl h
        · exact .inr (List.mem_cons_of_mem _ h)
      · rcases List.mem_cons.mp h with rfl | h
        · exact .inr List.mem_cons_self
        · exact (ih h).imp_right (List.mem_cons_of_mem _)

theorem pairwise_put (place : Place) (content : α) {entries : List (Place × α)}
    (h : entries.Pairwise fun first second ↦ first.1.Before second.1) :
    (put place content entries).Pairwise fun first second ↦ first.1.Before second.1 := by
  induction entries with
  | nil => simp [put]
  | cons head rest ih =>
    obtain ⟨hhead, hrest⟩ := List.pairwise_cons.mp h
    unfold put
    split
    next hbefore =>
      refine List.pairwise_cons.mpr ⟨fun entry hentry ↦ ?_, h⟩
      rcases List.mem_cons.mp hentry with rfl | hentry
      · exact hbefore
      · exact hbefore.trans (hhead entry hentry)
    next hbefore =>
      split
      next heq => exact List.pairwise_cons.mpr ⟨fun entry hentry ↦ heq ▸ hhead entry hentry, hrest⟩
      next hne =>
        refine List.pairwise_cons.mpr ⟨fun entry hentry ↦ ?_, ih hrest⟩
        rcases mem_put hentry with rfl | hentry
        · exact (Place.before_or_before_of_ne hne).resolve_left hbefore
        · exact hhead entry hentry

/-- The index without entries. -/
def empty : Index α := ⟨[], .nil⟩

/-- Puts an entry where it belongs; an entry at the same place is replaced. -/
def insert (index : Index α) (place : Place) (content : α) : Index α :=
  ⟨put place content index.entries, pairwise_put place content index.increasing⟩

/-- The entry at a place. -/
def get? (index : Index α) (place : Place) : Option α :=
  (index.entries.find? fun entry ↦ entry.1 = place).map Prod.snd

/-- The number of entries. -/
def size (index : Index α) : Nat := index.entries.length

/-- Puts an entry in front of sections, into the first one if it is of the same section. -/
def consEntry (entry : Place × α) :
    List (String × List (String × α)) → List (String × List (String × α))
  | [] => [(entry.1.sectionName, [(entry.1.field, entry.2)])]
  | (sectionName, fields) :: others =>
    if entry.1.sectionName = sectionName then
      (sectionName, (entry.1.field, entry.2) :: fields) :: others
    else
      (entry.1.sectionName, [(entry.1.field, entry.2)]) :: (sectionName, fields) :: others

/-- The sections in increasing order, each with its fields in increasing order. -/
def sections (index : Index α) : List (String × List (String × α)) :=
  index.entries.foldr consEntry []

/-- The names of the sections in increasing order. -/
def sectionNames (index : Index α) : List String :=
  index.sections.map Prod.fst

/-- The fields of a section in increasing order. -/
def fieldsOf (index : Index α) (sectionName : String) : List (String × α) :=
  (index.sections.lookup sectionName).getD []

end Index

end SectionedConfig
