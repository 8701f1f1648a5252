import SectionedConfig.ConfigMap.Encoding
import SectionedConfig.Proofs.Line.Clause
import SectionedConfig.Proofs.Results
import SectionedConfig.Proofs.Text.Separators

/-!
# Names and composed keys

A text that passes the check on names can stand in front of a brace or an equals sign, and any other
text is refused for the first thing that is wrong with it. A name contains no separator either, so a
composed key stands for exactly one place.
-/

namespace SectionedConfig

open Text

/-- A text that can be a section name or a field. -/
structure IsName (name : String) : Prop where
  nonempty : name.toList ≠ []
  unblank : ∀ c ∈ name.toList, isBlank c = false
  unreserved : ∀ c ∈ name.toList, c ∉ reservedCharacters

/-- Why a text is no name. White space is noticed before reserved characters, of which the first one
counts. -/
inductive NameRefused (name : String) : String → Prop where
  | empty (h : name = "") : NameRefused name "name is empty"
  | blank {c : Char} (hc : c ∈ name.toList) (hblank : isBlank c = true) :
      NameRefused name "name contains whitespace"
  | reserved {before after : List Char} {c : Char} (hunblank : ∀ c ∈ name.toList, isBlank c = false)
      (h : name.toList = before ++ c :: after)
      (hbefore : ∀ earlier ∈ before, earlier ∉ reservedCharacters) (hc : c ∈ reservedCharacters) :
      NameRefused name ("name contains reserved character " ++ quotedChar c)

theorem nameFault?_eq_none_iff {name : String} : nameFault? name = none ↔ IsName name := by
  have hreserved (chars : List Char) :
      chars.find? (fun c ↦ reservedCharacters.contains c) = none ↔
        ∀ c ∈ chars, c ∉ reservedCharacters := by
    rw [List.find?_eq_none]
    simp only [List.contains_iff_mem]
  unfold nameFault?
  by_cases hempty : name.toList.isEmpty
  · rw [if_pos hempty]
    exact ⟨nofun, fun h ↦ absurd (List.isEmpty_iff.mp hempty) h.nonempty⟩
  rw [if_neg hempty]
  by_cases hblank : name.toList.any isBlank
  · rw [if_pos hblank]
    obtain ⟨c, hc, hcblank⟩ := List.any_eq_true.mp hblank
    exact ⟨nofun, fun h ↦ absurd hcblank (by simp [h.unblank c hc])⟩
  rw [if_neg hblank, Option.map_eq_none_iff, hreserved]
  have hunblank : ∀ c ∈ name.toList, isBlank c = false := by
    simpa using hblank
  exact ⟨fun h ↦ ⟨fun hnil ↦ hempty (List.isEmpty_iff.mpr hnil), hunblank, h⟩,
    fun h ↦ h.unreserved⟩

theorem nameRefused_of_nameFault? {name : String} {fault : NameFault}
    (h : nameFault? name = some fault) : NameRefused name fault.message := by
  simp only [nameFault?] at h
  split at h
  next hempty =>
    obtain rfl := Option.some.inj h
    exact .empty (by simpa using hempty)
  next =>
    split at h
    next hblank =>
      obtain rfl := Option.some.inj h
      obtain ⟨c, hc, hcblank⟩ := List.any_eq_true.mp hblank
      exact .blank hc hcblank
    next hblank =>
      obtain ⟨c, hfind, rfl⟩ := Option.map_eq_some_iff.mp h
      obtain ⟨hc, before, after, hname, hbefore⟩ := List.find?_eq_some_iff_append.mp hfind
      exact .reserved (by simpa using hblank) hname (by simpa using hbefore) (by simpa using hc)

theorem NameRefused.exists_nameFault? {name reason : String} (h : NameRefused name reason) :
    ∃ fault, nameFault? name = some fault ∧ fault.message = reason := by
  cases h with
  | empty h => exact ⟨.empty, by simp [nameFault?, h], rfl⟩
  | @blank c hc hblank =>
    have hne : name ≠ "" := by
      rintro rfl
      simp at hc
    have hany : name.toList.any isBlank = true := List.any_eq_true.mpr ⟨c, hc, hblank⟩
    exact ⟨.blank, by simp [nameFault?, hne, hany], rfl⟩
  | @reserved before after c hunblank h hbefore hc =>
    have hne : name ≠ "" := by
      rintro rfl
      simp at h
    have hany : name.toList.any isBlank = false := by simpa using hunblank
    have hfind : name.toList.find? (fun c ↦ reservedCharacters.contains c) = some c :=
      List.find?_eq_some_iff_append.mpr
        ⟨by simpa using hc, before, after, h, by simpa using hbefore⟩
    exact ⟨.reserved c, by simp only [nameFault?, hany, hfind]; simp [hne], rfl⟩

/-- The names are the texts that nothing is wrong with. -/
theorem isName_iff_forall_not_refused {name : String} :
    IsName name ↔ ∀ reason, ¬ NameRefused name reason := by
  rw [← nameFault?_eq_none_iff, Option.eq_none_iff_forall_ne_some]
  constructor
  · intro h reason hrefused
    obtain ⟨fault, hfault, _⟩ := hrefused.exists_nameFault?
    exact h fault hfault
  · exact fun h fault hfault ↦ h _ (nameRefused_of_nameFault? hfault)

theorem checkName_eq_ok_iff {name : String} : checkName name = .ok () ↔ IsName name := by
  rw [← nameFault?_eq_none_iff]
  unfold checkName
  cases nameFault? name <;> simp

theorem checkName_eq_error_iff {name : String} {error : Error} :
    checkName name = .error error ↔
      ∃ reason, NameRefused name reason ∧ error = .invalidName name reason := by
  have hcheck : checkName name = .error error ↔
      ∃ fault, nameFault? name = some fault ∧ error = .invalidName name fault.message := by
    unfold checkName
    cases nameFault? name <;> simp [eq_comm]
  rw [hcheck]
  constructor
  · rintro ⟨fault, hfault, rfl⟩
    exact ⟨_, nameRefused_of_nameFault? hfault, rfl⟩
  · rintro ⟨reason, hrefused, rfl⟩
    obtain ⟨fault, hfault, rfl⟩ := hrefused.exists_nameFault?
    exact ⟨fault, hfault, rfl⟩

namespace IsName

variable {name : String}

theorem notMem (h : IsName name) {c : Char} (hc : c ∈ reservedCharacters) : c ∉ name.toList :=
  fun hmem ↦ h.unreserved c hmem hc

/-- A name can stand on a line. -/
theorem isNameText (h : IsName name) : IsNameText name.toList where
  nonempty := h.nonempty
  tight := tight_of_forall h.unblank
  plain := by
    intro c hc hmark
    have hreserved : ∀ c ∈ Segments.marks, c ∈ reservedCharacters := by
      simp [Segments.marks, reservedCharacters]
    exact h.unreserved c hc (hreserved c hmark)
  unbroken := fun hmem ↦ absurd (h.unblank '\n' hmem) (by decide)

end IsName

namespace Place

/-- The composed key of a place. -/
def key (place : Place) : String :=
  composeKey place.sectionName place.field

/-- Section and field can be written and read back. -/
structure Named (place : Place) : Prop where
  sectionName : IsName place.sectionName
  field : IsName place.field

end Place

theorem toList_composeKey (sectionName field : String) :
    (composeKey sectionName field).toList = sectionName.toList ++ '/' :: field.toList := by
  simp [composeKey, keySeparator]

/-- A key is cut into a section without separators and a field of any kind, which compose it. -/
theorem splitKey?_eq_some_iff {key sectionName field : String} :
    splitKey? key = some (sectionName, field) ↔
      keySeparator ∉ sectionName.toList ∧ key = composeKey sectionName field := by
  constructor
  · intro h
    obtain ⟨⟨before, after⟩, hcut, hpair⟩ := Option.map_eq_some_iff.mp h
    obtain ⟨rfl, rfl⟩ := Prod.mk.inj hpair
    obtain ⟨htext, hnot⟩ := cutFirst_eq_some hcut
    refine ⟨by rwa [String.toList_ofList], String.toList_injective ?_⟩
    rw [htext, toList_composeKey, String.toList_ofList, String.toList_ofList, keySeparator]
  · rintro ⟨hnot, rfl⟩
    rw [splitKey?, toList_composeKey, ← keySeparator, cutFirst_append hnot]
    simp

theorem splitKey?_eq_none_iff {key : String} :
    splitKey? key = none ↔ keySeparator ∉ key.toList := by
  rw [splitKey?, Option.map_eq_none_iff, cutFirst_eq_none]

theorem splitKey?_composeKey {sectionName : String} (h : IsName sectionName) (field : String) :
    splitKey? (composeKey sectionName field) = some (sectionName, field) :=
  splitKey?_eq_some_iff.mpr ⟨h.notMem (by decide), rfl⟩

/-- A key stands for a place if it is composed of two names. -/
theorem placeOfKey_eq_ok_iff {key : String} {place : Place} :
    placeOfKey key = .ok place ↔ place.Named ∧ key = place.key := by
  constructor
  · intro h
    unfold placeOfKey at h
    split at h
    next => cases h
    next sectionName field hsplit =>
      split at h
      next => cases h
      next =>
        obtain ⟨_, hsection, h⟩ := bind_eq_ok_iff.mp h
        obtain ⟨_, hfield, rfl⟩ := map_eq_ok_iff.mp h
        exact ⟨⟨checkName_eq_ok_iff.mp hsection, checkName_eq_ok_iff.mp hfield⟩,
          (splitKey?_eq_some_iff.mp hsplit).2⟩
  · rintro ⟨⟨hsection, hfield⟩, rfl⟩
    have hempty {name : String} (h : IsName name) : ¬ name.isEmpty = true := by
      intro hempty
      exact h.nonempty (by simpa using hempty)
    have hparts : ¬ (place.sectionName.isEmpty = true ∨ place.field.isEmpty = true ∨
        keySeparator ∈ place.field.toList) := by
      rintro (h | h | h)
      · exact hempty hsection h
      · exact hempty hfield h
      · exact hfield.notMem (by decide) h
    rw [placeOfKey, Place.key, splitKey?_composeKey hsection]
    simp only [if_neg hparts]
    rw [checkName_eq_ok_iff.mpr hsection, checkName_eq_ok_iff.mpr hfield]
    rfl

/-- The key of a named place is composed in one way only, even among texts that are no names. -/
theorem Place.composeKey_eq_key_iff {place : Place} (h : place.Named) {sectionName field : String} :
    composeKey sectionName field = place.key ↔ (⟨sectionName, field⟩ : Place) = place := by
  constructor
  · intro hkey
    have hlists : place.sectionName.toList ++ '/' :: place.field.toList =
        sectionName.toList ++ '/' :: field.toList := by
      rw [← toList_composeKey sectionName, hkey, Place.key, toList_composeKey]
    -- Neither part of the place contains a separator, so there is one place to cut.
    obtain ⟨hsection, _, hfield⟩ := (List.append_cons_inj_of_notMem
      (h.sectionName.notMem (by decide)) (h.field.notMem (by decide))).mp hlists
    rw [← String.toList_injective hsection, ← String.toList_injective hfield]
  · rintro rfl
    rfl

/-- Two places with the same composed key are the same. -/
theorem Place.key_inj {first second : Place} (hfirst : first.Named) (hsecond : second.Named)
    (h : first.key = second.key) : first = second := by
  have hplace := placeOfKey_eq_ok_iff.mpr ⟨hsecond, h⟩
  rw [placeOfKey_eq_ok_iff.mpr ⟨hfirst, rfl⟩] at hplace
  exact Except.ok.inj hplace

end SectionedConfig
