import SectionedConfig.Proofs.Assignment
import SectionedConfig.Registry.Decoding

/-!
# Applying updates

A value of the kind of a slot can always be written to it, and the conversion of a token makes
nothing but such values. Updates that a decoding has queued are therefore applied to the last one.
What they do to a target is said by two properties of slots: a lawful slot holds what was written to
it last, and a slot spares a view of the target if writing to it does not change the view.
-/

namespace SectionedConfig

universe u

variable {Target : Type} {α : Type u}

/-- The kind of the tokens whose values a slot takes. -/
def SlotKind.tokenKind : SlotKind → TokenKind
  | int64 => .int64
  | string => .string

namespace Slot

/-- The value is of the kind of the slot. -/
def Fits (slot : Slot Target) (value : Value) : Prop :=
  match slot, value with
  | int64 _ _, .int64 _ => True
  | string _ _, .string _ => True
  | _, _ => False

theorem fits_read (slot : Slot Target) (target : Target) : slot.Fits (slot.read target) := by
  cases slot <;> trivial

/-- A value that fits can be written. -/
theorem Fits.exists_write_eq_ok {slot : Slot Target} {value : Value} (h : slot.Fits value)
    (place : Place) (target : Target) : ∃ after, slot.write place value target = .ok after := by
  cases slot with
  | int64 get set =>
    cases value with
    | int64 number => exact ⟨set number target, rfl⟩
    | string text | list items | emptyList => exact absurd h id
  | string get set =>
    cases value with
    | string text => exact ⟨set text target, rfl⟩
    | int64 number | list items | emptyList => exact absurd h id

/-- The value of a token fits if the token can be converted. -/
theorem fits_of_convert {slot : Slot Target} {place : Place} {token : Token} {value : Value}
    (h : slot.convert place token = .ok value) : slot.Fits value := by
  unfold convert at h
  split at h
  next hslot _ =>
    cases hinteger : Assignment.integer place.field token with
    | error error =>
      rw [hinteger] at h
      cases h
    | ok number =>
      rw [hinteger] at h
      cases h
      cases slot with
      | int64 get set => trivial
      | string get set => cases hslot
  next hslot _ =>
    cases h
    cases slot with
    | int64 get set => cases hslot
    | string get set => trivial
  next => cases h

/-- A value is refused by a slot if it is of another kind than the slot, or an integer that cannot
be read. -/
theorem convert_eq_error_iff {slot : Slot Target} {place : Place} {token : Token} {error : Error} :
    slot.convert place token = .error error ↔
      token.kind ≠ slot.kind.tokenKind ∧ error = slot.mismatch place token.kind.name ∨
        slot.kind = .int64 ∧ token.kind = .int64 ∧
          ¬ Decimal.IsInt64 (Text.trim token.value.toList) ∧
            error = .invalidInteger place.field token.value token.line := by
  unfold convert
  split
  next hslot hkind =>
    rw [map_eq_error_iff, Assignment.integer_eq_error_iff]
    simp [hslot, hkind, SlotKind.tokenKind]
  next hslot hkind => simp [hslot, hkind, SlotKind.tokenKind]
  next hinteger hstring =>
    have hkind : token.kind ≠ slot.kind.tokenKind := by
      cases hslot : slot.kind with
      | int64 => exact hinteger hslot
      | string => exact hstring hslot
    rw [or_iff_left fun h ↦ hinteger h.1 h.2.1, and_iff_right hkind, Except.error.injEq, eq_comm]

end Slot

namespace Update

/-- Updates whose values fit are all applied. -/
theorem applyAll_of_fits {updates : List (Update Target)}
    (h : ∀ update ∈ updates, update.slot.Fits update.value) (target : Target) :
    (applyAll target updates).1 = .ok () := by
  induction updates generalizing target with
  | nil => rfl
  | cons update rest ih =>
    obtain ⟨hfirst, hrest⟩ := List.forall_mem_cons.mp h
    obtain ⟨after, hafter⟩ := hfirst.exists_write_eq_ok update.place target
    rw [applyAll, hafter]
    exact ih hrest after

/-- Updates can be applied in two steps if the first ones succeed. -/
theorem applyAll_append {first second : List (Update Target)} {target after : Target}
    (h : applyAll target first = (.ok (), after)) :
    applyAll target (first ++ second) = applyAll after second := by
  induction first generalizing target with
  | nil =>
    cases h
    rfl
  | cons update rest ih =>
    rw [applyAll] at h
    rw [List.cons_append, applyAll]
    cases hwrite : update.slot.write update.place update.value target with
    | error error =>
      rw [hwrite] at h
      cases h
    | ok between =>
      rw [hwrite] at h
      exact ih h

/-- A view that every slot spares is the same before and after. -/
theorem view_applyAll {view : Target → α} {updates : List (Update Target)}
    (h : ∀ update ∈ updates, update.slot.Spares view) (target : Target) :
    view (applyAll target updates).2 = view target := by
  induction updates generalizing target with
  | nil => rfl
  | cons update rest ih =>
    obtain ⟨hfirst, hrest⟩ := List.forall_mem_cons.mp h
    rw [applyAll]
    cases hwrite : update.slot.write update.place update.value target with
    | error error => rfl
    | ok after =>
      calc
        view (applyAll after rest).2 = view after := ih hrest after
        _ = view target := hfirst update.place update.value target after hwrite

/-- If no later update touches the slot of an earlier one, every slot holds its value in the end. -/
theorem read_applyAll {updates : List (Update Target)}
    (hfits : ∀ update ∈ updates, update.slot.Fits update.value)
    (hlawful : ∀ update ∈ updates, update.slot.Lawful)
    (hspares : updates.Pairwise fun first second ↦
      second.slot.Spares fun target ↦ first.slot.read target) (target : Target) :
    ∀ update ∈ updates, update.slot.read (applyAll target updates).2 = update.value := by
  induction updates generalizing target with
  | nil => nofun
  | cons update rest ih =>
    obtain ⟨hfit, hfits⟩ := List.forall_mem_cons.mp hfits
    obtain ⟨hlaw, hlawful⟩ := List.forall_mem_cons.mp hlawful
    obtain ⟨hspare, hspares⟩ := List.pairwise_cons.mp hspares
    obtain ⟨after, hafter⟩ := hfit.exists_write_eq_ok update.place target
    rw [applyAll, hafter]
    have hkept : update.slot.read (applyAll after rest).2 = update.value := by
      calc
        update.slot.read (applyAll after rest).2 = update.slot.read after :=
          view_applyAll hspare after
        _ = update.value := hlaw update.place update.value target after hafter
    exact List.forall_mem_cons.mpr ⟨hkept, ih hfits hlawful hspares after⟩

end Update

namespace Registry

variable {registry : Registry Target} {hints : Hints} {assignment : Assignment}

/-- An assignment is skipped if nothing is bound at its place. Otherwise its value is converted for
the slot that is bound there. -/
theorem update?_eq_ok {queued : Option (Update Target)}
    (h : registry.update? hints assignment = .ok queued) :
    registry.get? (assignment.place hints) = none ∧ queued = none ∨
      ∃ slot value, registry.get? (assignment.place hints) = some slot ∧
        slot.convert (assignment.place hints) assignment.value = .ok value ∧
        queued = some ⟨assignment.place hints, slot, value⟩ := by
  unfold update? at h
  cases hget : registry.get? (assignment.place hints) with
  | none =>
    simp only [hget] at h
    exact .inl ⟨rfl, (Except.ok.inj h).symm⟩
  | some slot =>
    simp only [hget] at h
    obtain ⟨value, hvalue, rfl⟩ := map_eq_ok_iff.mp h
    exact .inr ⟨slot, value, rfl, hvalue, rfl⟩

/-- What goes wrong with an assignment goes wrong when its value is converted. -/
theorem update?_eq_error {error : Error} (h : registry.update? hints assignment = .error error) :
    ∃ slot, registry.get? (assignment.place hints) = some slot ∧
      slot.convert (assignment.place hints) assignment.value = .error error := by
  unfold update? at h
  cases hget : registry.get? (assignment.place hints) with
  | none =>
    simp only [hget] at h
    cases h
  | some slot =>
    simp only [hget] at h
    exact ⟨slot, rfl, map_eq_error_iff.mp h⟩

end Registry

end SectionedConfig
