import SectionedConfig.Proofs.ConfigMap.Meaning

/-!
# What a decoded target holds

Every assignment is attributed to a place. If decoding succeeds, a bound slot holds the value of the
last assignment that is attributed to its place, and what it held before if there is none; whatever
the bound slots spare is as it was. Decoding fails with the error for the first token that is out of
place or makes an assignment whose value the slot at its place does not take.
-/

namespace SectionedConfig

open Assignment Text
open Token (Reached)

universe u

variable {Target : Type} {hints : Hints} {tokens : List Token} {assignment : Assignment}
  {error : Error}

/-- What is reported for an assignment whose value the slot at its place does not take. -/
inductive Schema.Refuses (schema : Schema Target) (hints : Hints) (assignment : Assignment) :
    Error → Prop where
  /-- The value is not of the kind of the slot. -/
  | mismatch {slot : Slot Target} (hslot : schema.Binds (assignment.place hints) slot)
      (hkind : assignment.value.kind ≠ slot.kind.tokenKind) :
      Refuses schema hints assignment
        (.typeMismatch (assignment.place hints).sectionName assignment.key.value slot.kind.name
          assignment.value.kind.name)
  /-- The value is bare and denotes no integer within the bounds of 64 bits. -/
  | unreadable {slot : Slot Target} (hslot : schema.Binds (assignment.place hints) slot)
      (hslot' : slot.kind = .int64) (hkind : assignment.value.kind = .int64)
      (hnumber : ¬ Decimal.IsInt64 (trim assignment.value.value.toList)) :
      Refuses schema hints assignment
        (.invalidInteger assignment.key.value assignment.value.value assignment.value.line)

/-! ## One assignment -/

namespace Slot

variable {slot : Slot Target} {place : Place} {token : Token} {value : Value}

theorem denotes_of_convert (h : slot.convert place token = .ok value) : token.Denotes value := by
  unfold convert at h
  split at h
  next _ hkind =>
    obtain ⟨number, hnumber, rfl⟩ := map_eq_ok_iff.mp h
    exact .int64 hkind (integer_eq_ok_iff.mp hnumber)
  next _ hkind =>
    obtain rfl := Except.ok.inj h
    exact .string hkind
  next => cases h

end Slot

namespace Registry

variable {schema : Schema Target} {registry : Registry Target} {place : Place} {slot : Slot Target}
  {target : Target}

theorem update?_eq_error_iff (hregistry : schema.registry = .ok registry) :
    registry.update? hints assignment = .error error ↔ schema.Refuses hints assignment error := by
  constructor
  · intro h
    obtain ⟨slot, hget, hconvert⟩ := update?_eq_error h
    have hslot := (schema.get?_registry hregistry).mp hget
    rcases Slot.convert_eq_error_iff.mp hconvert with ⟨hkind, rfl⟩ | ⟨hinteger, hkind, hnumber, rfl⟩
    · exact .mismatch hslot hkind
    · exact .unreadable hslot hinteger hkind hnumber
  · have herror {slot : Slot Target} (hslot : schema.Binds (assignment.place hints) slot)
        (hconvert : slot.convert (assignment.place hints) assignment.value = .error error) :
        registry.update? hints assignment = .error error := by
      simp only [update?, (schema.get?_registry hregistry).mpr hslot, hconvert]
      rfl
    intro h
    cases h with
    | mismatch hslot hkind => exact herror hslot (Slot.convert_eq_error_iff.mpr (.inl ⟨hkind, rfl⟩))
    | unreadable hslot hinteger hkind hnumber =>
      exact herror hslot (Slot.convert_eq_error_iff.mpr (.inr ⟨hinteger, hkind, hnumber, rfl⟩))

end Registry

/-! ## The last assignment to a place -/

namespace Assignment

/-- The last assignment that is attributed to a place. -/
def lastAt? (hints : Hints) (tokens : List Token) (place : Place) : Option Assignment :=
  ((standing tokens).filter fun assignment ↦ assignment.place hints = place).getLast?

/-- What is there is the value of the last assignment, and what was there before if there is
none. -/
def LeftBy (last : Option Assignment) (before after : Value) : Prop :=
  match last with
  | none => after = before
  | some assignment => assignment.value.Denotes after

/-- What an assignment leaves is what later ones start from. -/
theorem LeftBy.cons {first : Assignment} {later : List Assignment} {before value after : Value}
    (hfirst : first.value.Denotes value) (h : LeftBy later.getLast? value after) :
    LeftBy (first :: later).getLast? before after := by
  rw [List.getLast?_cons]
  cases hlast : later.getLast? with
  | none =>
    rw [hlast] at h
    obtain rfl : after = value := h
    exact hfirst
  | some last =>
    rw [hlast] at h
    exact h

/-- A key that is hinted elsewhere is never attributed to a place. -/
theorem lastAt?_eq_none {place : Place} {sectionName : String}
    (hhint : hints.get? place.field = some sectionName) (hne : sectionName ≠ place.sectionName) :
    lastAt? hints tokens place = none := by
  rw [lastAt?, List.getLast?_eq_none_iff, List.filter_eq_nil_iff]
  intro assignment _ hplace
  have hplace : assignment.place hints = place := by simpa using hplace
  have hkey : assignment.key.value = place.field := by rw [← hplace]; rfl
  have hsection : (assignment.place hints).sectionName = sectionName := by
    simp [Assignment.place, hkey, hhint]
  exact hne (by rw [← hsection, hplace])

end Assignment

namespace Registry

variable {schema : Schema Target} {registry : Registry Target} {place : Place} {slot : Slot Target}
  {target : Target}

/-- Going through assignments and applying their updates leaves in a slot what the last of them
that is attributed to its place stands for. -/
theorem leftBy_run (hregistry : schema.registry = .ok registry) (hseparate : schema.Separate)
    (hslot : schema.Binds place slot) {assignments : List Assignment}
    {queued : List (Option (Update Target))}
    (h : List.Forall₂ (fun assignment update ↦ registry.update? hints assignment = .ok update)
      assignments queued) :
    LeftBy (assignments.filter fun assignment ↦ assignment.place hints = place).getLast?
      (slot.read target) (slot.read (Update.applyAll target (queued.filterMap id)).2) := by
  have hbound : registry.get? place = some slot := (schema.get?_registry hregistry).mpr hslot
  induction h generalizing target with
  | nil => rfl
  | @cons assignment update assignments queued hupdate _ ih =>
    rcases update?_eq_ok hupdate with ⟨hnone, rfl⟩ | ⟨other, value, hget, hvalue, rfl⟩
    · have hne : assignment.place hints ≠ place := by
        rintro rfl
        rw [hbound] at hnone
        cases hnone
      rw [List.filter_cons_of_neg (by simpa using hne)]
      exact ih
    have hother := (schema.get?_registry hregistry).mp hget
    obtain ⟨after, hwrite⟩ :=
      (Slot.fits_of_convert hvalue).exists_write_eq_ok (assignment.place hints) target
    have happly : Update.applyAll target ((some ⟨assignment.place hints, other, value⟩ ::
        queued).filterMap id) = Update.applyAll after (queued.filterMap id) := by
      simp [Update.applyAll, hwrite]
    have hlater := @ih after
    rw [happly]
    by_cases heq : assignment.place hints = place
    · -- The slot now holds the value, until another assignment to the place comes.
      obtain rfl : other = slot := by
        rw [heq, hbound] at hget
        exact (Option.some.inj hget).symm
      have hread : other.read after = value :=
        hseparate.lawful _ _ hother _ _ _ _ hwrite
      rw [List.filter_cons_of_pos (by simpa using heq)]
      exact LeftBy.cons (Slot.denotes_of_convert hvalue) (hread ▸ hlater)
    · -- Another slot is written.
      have hread : slot.read after = slot.read target :=
        hseparate.apart _ _ _ _ hother hslot heq _ _ _ _ hwrite
      rw [List.filter_cons_of_neg (by simpa using heq), ← hread]
      exact hlater

/-- A view that all bound slots spare is not changed by a decoding. -/
theorem view_decode {α : Type u} (hregistry : schema.registry = .ok registry) (view : Target → α)
    (hview : ∀ place slot, schema.Binds place slot → slot.Spares view) :
    view (registry.decode hints tokens target).2 = view target := by
  rw [decode]
  cases hupdates : registry.updates hints tokens with
  | error error => rfl
  | ok queued =>
    refine Update.view_applyAll (fun update hupdate ↦ ?_) target
    obtain ⟨_, hfound⟩ := Walk.traverse_eq_ok_iff.mp hupdates
    obtain ⟨asked, hasked, rfl⟩ := List.mem_filterMap.mp hupdate
    obtain ⟨assignment, _, hassignment⟩ := exists_of_mem_mapM hfound hasked
    rcases update?_eq_ok hassignment with ⟨_, hskipped⟩ | ⟨other, value, hget, _, hqueued⟩
    · cases hskipped
    · obtain rfl := Option.some.inj hqueued
      exact hview _ _ ((schema.get?_registry hregistry).mp hget)

/-- A decoding that succeeds leaves in a bound slot what the last assignment to its place stands
for. -/
theorem leftBy_decode (hregistry : schema.registry = .ok registry) (hseparate : schema.Separate)
    (hslot : schema.Binds place slot) (h : (registry.decode hints tokens target).1 = .ok ()) :
    LeftBy (lastAt? hints tokens place) (slot.read target)
      (slot.read (registry.decode hints tokens target).2) := by
  rw [fst_decode, map_eq_ok_iff] at h
  obtain ⟨queued, hqueued, _⟩ := h
  rw [decode, hqueued]
  exact leftBy_run hregistry hseparate hslot (mapM_eq_ok_iff.mp (mapM_standing_of_traverse hqueued))

theorem decode_eq_error_iff (hregistry : schema.registry = .ok registry) :
    (registry.decode hints tokens target).1 = .error error ↔
      FirstOffence (schema.Refuses hints) tokens error := by
  rw [fst_decode, map_eq_error_iff]
  exact traverse_walk_eq_error_iff fun _ _ ↦ update?_eq_error_iff hregistry

/-- A decoding fails if, in front of the end of the file, there is a failure, an equals sign without
a key or a value next to it, or an assignment whose value the slot at its place does not take, and
only then. The error is the one for the first of them. If it succeeds and the slots are separate,
every bound slot holds what the last assignment that is attributed to its place stands for, and what
it held before if there is none, as it is for a key that is hinted to another section. Whatever the
bound slots spare is as it was before. -/
theorem decode_outcome (hregistry : schema.registry = .ok registry) (hints : Hints)
    (tokens : List Token) (target : Target) :
    ((∃ error, (registry.decode hints tokens target).1 = .error error) ↔
        ∃ index error, Reached tokens index ∧
          OffenceAt (schema.Refuses hints) tokens index error) ∧
      (∀ error, (registry.decode hints tokens target).1 = .error error ↔
        FirstOffence (schema.Refuses hints) tokens error) ∧
      ((registry.decode hints tokens target).1 = .ok () → schema.Separate →
        (∀ place slot, schema.Binds place slot →
          LeftBy (lastAt? hints tokens place) (slot.read target)
              (slot.read (registry.decode hints tokens target).2) ∧
            ∀ sectionName, hints.get? place.field = some sectionName →
              sectionName ≠ place.sectionName →
                slot.read (registry.decode hints tokens target).2 = slot.read target) ∧
        ∀ {α : Type u} (view : Target → α),
          (∀ place slot, schema.Binds place slot → slot.Spares view) →
            view (registry.decode hints tokens target).2 = view target) := by
  refine ⟨?_, fun error ↦ decode_eq_error_iff hregistry, fun hdecode hseparate ↦ ⟨?_, ?_⟩⟩
  · rw [← exists_firstOffence_iff]
    exact exists_congr fun error ↦ decode_eq_error_iff hregistry
  · intro place slot hslot
    have hleft := leftBy_decode hregistry hseparate hslot hdecode
    refine ⟨hleft, fun sectionName hhint hne ↦ ?_⟩
    rw [lastAt?_eq_none hhint hne] at hleft
    exact hleft
  · exact fun view hview ↦ view_decode hregistry view hview

/-- A string is assigned twice, the second time a text in brackets, which is kept as it is. A key
stands outside any section, and one inside a section is hinted to another one, where it is bound as
well. A string where an integer is bound is refused, although an equals sign without a key
follows. -/
theorem decode_outcome_hinted :
    ∃ (schema : Schema Table) (registry : Registry Table) (hints : Hints)
        (tokens broken : List Token),
      schema.registry = .ok registry ∧ hints = OrderedMap.empty.insert "n" "t" ∧
      (TokenStream.ofText "m = 9\ns \x7b\nk = \"a\"\nk = [b, \"c\"]\nn = 3\n\x7d").checked =
        .ok tokens ∧
      broken.map Token.value = ["s", "m", "=", "x", "="] ∧
      (registry.decode hints tokens (Table.blank.setInteger (0, 2) 7)).1 = .ok () ∧
      (∀ place slot, schema.Binds place slot → LeftBy (lastAt? hints tokens place)
        (slot.read (Table.blank.setInteger (0, 2) 7))
        (slot.read (registry.decode hints tokens (Table.blank.setInteger (0, 2) 7)).2)) ∧
      (registry.decode hints tokens (Table.blank.setInteger (0, 2) 7)).2.strings (0, 0) =
        "[b, \"c\"]" ∧
      (registry.decode hints tokens (Table.blank.setInteger (0, 2) 7)).2.integers (1, 0) = 3 ∧
      (registry.decode hints tokens (Table.blank.setInteger (0, 2) 7)).2.integers (0, 1) = 0 ∧
      (registry.decode hints tokens (Table.blank.setInteger (0, 2) 7)).2.integers (0, 2) = 7 ∧
      (lastAt? hints tokens ⟨"t", "n"⟩).map (fun last ↦ (last.enclosing, last.value.value)) =
        some (some "s", "3") ∧
      FirstOffence (schema.Refuses hints) broken (.typeMismatch "s" "m" "int64" "string") := by
  let schema : Schema Table := ⟨[⟨"s", [⟨"k", .slot (Table.slot .string (0, 0)), false⟩,
    ⟨"m", .slot (Table.slot .int64 (0, 1)), false⟩,
    ⟨"n", .slot (Table.slot .int64 (0, 2)), false⟩], false⟩,
    ⟨"t", [⟨"n", .slot (Table.slot .int64 (1, 0)), false⟩], false⟩]⟩
  let registry : Registry Table := (((Index.empty.insert ⟨"s", "k"⟩
    (Table.slot .string (0, 0))).insert ⟨"s", "m"⟩ (Table.slot .int64 (0, 1))).insert ⟨"s", "n"⟩
      (Table.slot .int64 (0, 2))).insert ⟨"t", "n"⟩ (Table.slot .int64 (1, 0))
  let hints : Hints := OrderedMap.empty.insert "n" "t"
  let target : Table := Table.blank.setInteger (0, 2) 7
  let tokens : List Token := (TokenStream.ofText
    "m = 9\ns \x7b\nk = \"a\"\nk = [b, \"c\"]\nn = 3\n\x7d").tokens
  let token (kind : TokenKind) (text : String) : Token := ⟨kind, text, none, none, false⟩
  let broken : List Token := [token .sectionName "s", token .identifier "m",
    token .assignment "=", token .string "x", token .assignment "="]
  have hregistry : schema.registry = .ok registry := rfl
  have hentries : registry.entries = [(⟨"s", "k"⟩, Table.slot .string (0, 0)),
      (⟨"s", "m"⟩, Table.slot .int64 (0, 1)), (⟨"s", "n"⟩, Table.slot .int64 (0, 2)),
      (⟨"t", "n"⟩, Table.slot .int64 (1, 0))] := rfl
  have hseparate : schema.Separate := by
    let number (place : Place) : Nat × Nat :=
      if place.field = "k" then (0, 0) else if place.field = "m" then (0, 1)
      else if place.sectionName = "s" then (0, 2) else (1, 0)
    apply Table.separate_of_entries hregistry number
    · simp only [hentries, List.forall_mem_cons]
      exact ⟨⟨.string, rfl⟩, ⟨.int64, rfl⟩, ⟨.int64, rfl⟩, ⟨.int64, rfl⟩, nofun⟩
    · decide
  have hdecode : (registry.decode hints tokens target).1 = .ok () := by decide +kernel
  have hbroken : (registry.decode hints broken target).1 =
      .error (.typeMismatch "s" "m" "int64" "string") := by
    decide +kernel
  obtain ⟨_, _, hleft⟩ := decode_outcome.{0} hregistry hints tokens target
  obtain ⟨_, herror, _⟩ := decode_outcome.{0} hregistry hints broken target
  have hslots := (hleft hdecode hseparate).1
  have hbinds : schema.Binds ⟨"s", "n"⟩ (Table.slot .int64 (0, 2)) :=
    (schema.get?_registry hregistry).mp rfl
  have hkept := (hslots _ _ hbinds).2 "t" (by decide) (by decide)
  exact ⟨schema, registry, hints, tokens, broken, hregistry, rfl, by decide +kernel, rfl, hdecode,
    fun place slot hslot ↦ (hslots place slot hslot).1, by decide +kernel, by decide +kernel,
    by decide +kernel, Value.int64.inj hkept, by decide +kernel, (herror _).mp hbroken⟩

end Registry

end SectionedConfig
