import SectionedConfig.Error

/-!
# Output sinks

A sink takes a limited number of bytes. Writing more than that fails: either the sink refuses the
next byte with a reason, or it takes none and the writer notices that bytes are left over.

What has arrived is always the start of what was written, and writing succeeds if and only if all of
it has arrived. An encoding that fails sends nothing, so a sink never holds a part of a text for any
other reason than that it is full.
-/

namespace SectionedConfig

/-- Where bytes are written to. -/
structure Sink where
  /-- How many bytes it takes, if there is a limit. -/
  capacity : Option Nat := none
  /-- Why it refuses further bytes, if it says so. -/
  refusal : Option String := none

namespace Sink

/-- Why writing fails if the sink does not say anything. -/
def leftOver : String := "failed to write whole buffer"

/-- The error of a full sink. -/
def fullError (sink : Sink) : Error :=
  .stream (sink.refusal.getD leftOver)

/-- Writes bytes: those that the sink takes, and the error if there are more. -/
def write (sink : Sink) (bytes : List UInt8) : List UInt8 × Except Error Unit :=
  let taken := sink.capacity.elim bytes bytes.take
  if taken.length = bytes.length then (taken, .ok ())
  else (taken, .error sink.fullError)

/-- Writes the outcome of an encoding. Nothing is written if the encoding failed. -/
def writeEncoded (sink : Sink) (text : Except Error (List UInt8)) :
    List UInt8 × Except Error Unit :=
  match text with
  | .error error => ([], .error error)
  | .ok bytes => sink.write bytes

/-- The bytes do not exceed the limit. -/
def Fits (sink : Sink) (bytes : List UInt8) : Prop :=
  ∀ capacity, sink.capacity = some capacity → bytes.length ≤ capacity

/-- The sink after it has taken bytes. -/
def after (sink : Sink) (bytes : List UInt8) : Sink :=
  { sink with capacity := sink.capacity.map (· - bytes.length) }

variable {sink : Sink} {bytes first second : List UInt8} {capacity : Nat}

theorem write_of_fits (h : sink.Fits bytes) : sink.write bytes = (bytes, .ok ()) := by
  have htaken : sink.capacity.elim bytes bytes.take = bytes := by
    cases hcapacity : sink.capacity with
    | none => rfl
    | some capacity => exact List.take_of_length_le (h capacity hcapacity)
  rw [write, htaken]
  exact if_pos rfl

/-- A full sink holds as many bytes as it can. -/
theorem write_of_capacity_lt (hcapacity : sink.capacity = some capacity)
    (h : capacity < bytes.length) :
    sink.write bytes = (bytes.take capacity, .error sink.fullError) := by
  have hshort : (bytes.take capacity).length ≠ bytes.length := by
    rw [List.length_take]
    omega
  rw [write, hcapacity]
  exact if_neg hshort

theorem fits_or_capacity_lt (sink : Sink) (bytes : List UInt8) :
    sink.Fits bytes ∨ ∃ capacity, sink.capacity = some capacity ∧ capacity < bytes.length := by
  cases hcapacity : sink.capacity with
  | none => exact .inl fun _ h ↦ by cases hcapacity.symm.trans h
  | some capacity =>
    by_cases hfits : bytes.length ≤ capacity
    · exact .inl fun _ h ↦ by cases hcapacity.symm.trans h; exact hfits
    · exact .inr ⟨capacity, rfl, Nat.lt_of_not_le hfits⟩

/-- What has arrived is the start of what was written. -/
theorem fst_write_isPrefix (sink : Sink) (bytes : List UInt8) :
    (sink.write bytes).1 <+: bytes := by
  rcases sink.fits_or_capacity_lt bytes with hfits | ⟨capacity, hcapacity, hlt⟩
  · exact ⟨[], by rw [write_of_fits hfits, List.append_nil]⟩
  · rw [write_of_capacity_lt hcapacity hlt]
    exact List.take_prefix capacity bytes

theorem snd_write_eq_ok_iff : (sink.write bytes).2 = .ok () ↔ sink.Fits bytes := by
  refine ⟨fun h ↦ ?_, fun hfits ↦ by rw [write_of_fits hfits]⟩
  rcases sink.fits_or_capacity_lt bytes with hfits | ⟨capacity, hcapacity, hlt⟩
  · exact hfits
  · rw [write_of_capacity_lt hcapacity hlt] at h
    cases h

/-- Bytes can be written in portions: a sink that has taken the first portion treats the second one
as it would have treated the end of both. -/
theorem write_append (h : sink.Fits first) :
    sink.write (first ++ second) =
      (first ++ ((sink.after first).write second).1, ((sink.after first).write second).2) := by
  rcases (sink.after first).fits_or_capacity_lt second with hfits | ⟨rest, hrest, hlt⟩
  · have hboth : sink.Fits (first ++ second) := by
      intro capacity hcapacity
      have hfirst := h capacity hcapacity
      have hsecond := hfits (capacity - first.length) (by rw [after, hcapacity]; rfl)
      rw [List.length_append]
      omega
    rw [write_of_fits hboth, write_of_fits hfits]
  · obtain ⟨capacity, hcapacity, rfl⟩ := Option.map_eq_some_iff.mp hrest
    have hfirst := h capacity hcapacity
    have hboth : capacity < (first ++ second).length := by
      rw [List.length_append]
      omega
    rw [write_of_capacity_lt hcapacity hboth, write_of_capacity_lt hrest hlt, List.take_append,
      List.take_of_length_le hfirst]
    rfl

/-- Writing an encoding succeeds if and only if there is one and it fits, and then all of it has
arrived. -/
theorem writeEncoded_eq_ok_iff {text : Except Error (List UInt8)} :
    sink.writeEncoded text = (bytes, .ok ()) ↔ text = .ok bytes ∧ sink.Fits bytes := by
  cases text with
  | error error => simp [writeEncoded]
  | ok encoded =>
    rcases sink.fits_or_capacity_lt encoded with hfits | ⟨capacity, hcapacity, hlt⟩
    · rw [writeEncoded, write_of_fits hfits]
      constructor
      · rintro ⟨⟩
        exact ⟨rfl, hfits⟩
      · rintro ⟨⟨⟩, _⟩
        rfl
    · rw [writeEncoded, write_of_capacity_lt hcapacity hlt]
      constructor
      · intro h
        cases h
      · rintro ⟨⟨⟩, hfits⟩
        exact absurd (hfits capacity hcapacity) (Nat.not_le_of_lt hlt)

/-- Writing an encoding fails with the error of the encoding, after which nothing has arrived, or
because the sink is full. -/
theorem writeEncoded_eq_error_iff {text : Except Error (List UInt8)} {error : Error} :
    sink.writeEncoded text = (bytes, .error error) ↔
      (text = .error error ∧ bytes = []) ∨
      ∃ encoded capacity, text = .ok encoded ∧ sink.capacity = some capacity ∧
        capacity < encoded.length ∧ bytes = encoded.take capacity ∧ error = sink.fullError := by
  cases text with
  | error fault => simp [writeEncoded, and_comm, eq_comm]
  | ok encoded =>
    rcases sink.fits_or_capacity_lt encoded with hfits | ⟨capacity, hcapacity, hlt⟩
    · rw [writeEncoded, write_of_fits hfits]
      constructor
      · rintro ⟨⟩
      · rintro (⟨⟨⟩, _⟩ | ⟨_, capacity, ⟨⟩, hcapacity, hlt, _⟩)
        exact absurd (hfits capacity hcapacity) (Nat.not_le_of_lt hlt)
    · rw [writeEncoded, write_of_capacity_lt hcapacity hlt]
      constructor
      · rintro ⟨⟩
        exact .inr ⟨encoded, capacity, rfl, hcapacity, hlt, rfl, rfl⟩
      · rintro (⟨⟨⟩, _⟩ | ⟨_, other, ⟨⟩, hother, _, rfl, rfl⟩)
        cases hcapacity.symm.trans hother
        rfl

end Sink

end SectionedConfig
