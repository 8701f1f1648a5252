import Mathlib.Data.List.Forall2

/-!
# Results of checks

A chain of checks succeeds if each of them does, and a list of checks succeeds if it can be paired
with the list of its results.
-/

namespace SectionedConfig

universe u v

variable {ε : Type u} {α β : Type v}

theorem map_eq_ok_iff {result : Except ε α} {f : α → β} {value : β} :
    result.map f = .ok value ↔ ∃ found, result = .ok found ∧ f found = value := by
  cases result <;> simp [Except.map]

theorem bind_eq_ok_iff {result : Except ε α} {check : α → Except ε β} {value : β} :
    result.bind check = .ok value ↔ ∃ found, result = .ok found ∧ check found = .ok value := by
  cases result <;> simp [Except.bind]

theorem map_eq_error_iff {result : Except ε α} {f : α → β} {error : ε} :
    result.map f = .error error ↔ result = .error error := by
  cases result <;> simp [Except.map]

theorem bind_eq_error_iff {result : Except ε α} {check : α → Except ε β} {error : ε} :
    result.bind check = .error error ↔
      result = .error error ∨ ∃ found, result = .ok found ∧ check found = .error error := by
  cases result <;> simp [Except.bind]

theorem mapM_eq_ok_iff {check : α → Except ε β} {list : List α} {results : List β} :
    list.mapM check = .ok results ↔
      List.Forall₂ (fun entry result ↦ check entry = .ok result) list results := by
  induction list generalizing results with
  | nil =>
    rw [List.forall₂_nil_left_iff, List.mapM_nil]
    exact ⟨fun h ↦ (Except.ok.inj h).symm, fun h ↦ h ▸ rfl⟩
  | cons entry rest ih =>
    rw [List.mapM_cons, List.forall₂_cons_left_iff]
    constructor
    · intro h
      obtain ⟨first, hfirst, h⟩ := bind_eq_ok_iff.mp h
      obtain ⟨others, hothers, h⟩ := bind_eq_ok_iff.mp h
      exact ⟨first, others, hfirst, ih.mp hothers, (Except.ok.inj h).symm⟩
    · rintro ⟨first, others, hfirst, hothers, rfl⟩
      rw [hfirst, ih.mpr hothers]
      rfl

/-- A list of checks succeeds if each of them does. -/
theorem exists_mapM_eq_ok {check : α → Except ε β} {list : List α}
    (h : ∀ entry ∈ list, ∃ result, check entry = .ok result) :
    ∃ results, list.mapM check = .ok results := by
  induction list with
  | nil => exact ⟨[], rfl⟩
  | cons entry rest ih =>
    obtain ⟨⟨first, hfirst⟩, hrest⟩ := List.forall_mem_cons.mp h
    obtain ⟨others, hothers⟩ := ih hrest
    exact ⟨first :: others, mapM_eq_ok_iff.mpr (.cons hfirst (mapM_eq_ok_iff.mp hothers))⟩

/-- Checks that agree on a list give the same result for it. -/
theorem mapM_congr {check check' : α → Except ε β} {list : List α}
    (h : ∀ entry ∈ list, check entry = check' entry) : list.mapM check = list.mapM check' := by
  induction list with
  | nil => rfl
  | cons entry rest ih =>
    obtain ⟨hentry, hrest⟩ := List.forall_mem_cons.mp h
    rw [List.mapM_cons, List.mapM_cons, hentry, ih hrest]

/-- Answers can be changed one by one or all at once. -/
theorem mapM_map_answer {γ : Type v} (check : α → Except ε β) (change : β → γ) (list : List α) :
    (list.mapM fun entry ↦ (check entry).map change) = (list.mapM check).map (List.map change) := by
  induction list with
  | nil => rfl
  | cons entry rest ih =>
    rw [List.mapM_cons, List.mapM_cons, ih]
    cases check entry <;> cases rest.mapM check <;> rfl

/-- A list of checks fails with the error of the first of them that fails. -/
theorem mapM_eq_error_iff {check : α → Except ε β} {list : List α} {error : ε} :
    list.mapM check = .error error ↔
      ∃ before entry after, list = before ++ entry :: after ∧
        (∀ earlier ∈ before, ∃ result, check earlier = .ok result) ∧
          check entry = .error error := by
  constructor
  · intro h
    induction list with
    | nil => cases h
    | cons entry rest ih =>
      rw [List.mapM_cons] at h
      rcases bind_eq_error_iff.mp h with hentry | ⟨first, hfirst, h⟩
      · exact ⟨[], entry, rest, rfl, by simp, hentry⟩
      · rcases bind_eq_error_iff.mp h with hrest | ⟨others, _, h⟩
        · obtain ⟨before, other, after, rfl, hbefore, hother⟩ := ih hrest
          refine ⟨entry :: before, other, after, rfl, ?_, hother⟩
          exact List.forall_mem_cons.mpr ⟨⟨first, hfirst⟩, hbefore⟩
        · cases h
  · rintro ⟨before, entry, after, rfl, hbefore, hentry⟩
    obtain ⟨results, hresults⟩ := exists_mapM_eq_ok hbefore
    rw [List.mapM_append, hresults, List.mapM_cons, hentry]
    rfl

theorem exists_eq_ok_iff {result : Except ε α} :
    (∃ value, result = .ok value) ↔ ∀ error, result ≠ .error error := by
  cases result <;> simp

theorem mapM_cons_eq_error_iff {check : α → Except ε β} {entry : α} {rest : List α} {error : ε} :
    (entry :: rest).mapM check = .error error ↔ check entry = .error error ∨
      (∃ result, check entry = .ok result) ∧ rest.mapM check = .error error := by
  rw [List.mapM_cons]
  refine bind_eq_error_iff.trans (or_congr_right ?_)
  rw [← exists_and_right]
  exact exists_congr fun first ↦ and_congr_right fun _ ↦ map_eq_error_iff

theorem mapM_append_eq_error_iff {check : α → Except ε β} {first second : List α} {error : ε} :
    (first ++ second).mapM check = .error error ↔ first.mapM check = .error error ∨
      (∃ results, first.mapM check = .ok results) ∧ second.mapM check = .error error := by
  rw [List.mapM_append]
  refine bind_eq_error_iff.trans (or_congr_right ?_)
  rw [← exists_and_right]
  exact exists_congr fun results ↦ and_congr_right fun _ ↦ map_eq_error_iff

/-- Checks that fail alike on a list fail alike whatever they answer. -/
theorem mapM_eq_error_congr {γ : Type v} {check : α → Except ε β} {check' : α → Except ε γ}
    {list : List α} (h : ∀ entry ∈ list, ∀ error, check entry = .error error ↔
      check' entry = .error error) {error : ε} :
    list.mapM check = .error error ↔ list.mapM check' = .error error := by
  induction list with
  | nil => exact iff_of_false nofun nofun
  | cons entry rest ih =>
    obtain ⟨hentry, hrest⟩ := List.forall_mem_cons.mp h
    simp only [mapM_cons_eq_error_iff, exists_eq_ok_iff, ne_eq, hentry, ih hrest]

/-- The lists of checks for several entries fail like the one list of all these checks. -/
theorem mapM_flatMap_eq_error_iff {γ : Type v} {check : α → Except ε β} {parts : γ → List α}
    {list : List γ} {error : ε} :
    (list.flatMap parts).mapM check = .error error ↔
      (list.mapM fun entry ↦ (parts entry).mapM check) = .error error := by
  induction list with
  | nil => exact iff_of_false nofun nofun
  | cons entry rest ih =>
    rw [List.flatMap_cons, mapM_append_eq_error_iff, mapM_cons_eq_error_iff, ih]

/-- A list of checks fails with the error of one of them. -/
theorem exists_of_mapM_eq_error {check : α → Except ε β} {list : List α} {error : ε}
    (h : list.mapM check = .error error) : ∃ entry ∈ list, check entry = .error error := by
  obtain ⟨before, entry, after, rfl, _, hentry⟩ := mapM_eq_error_iff.mp h
  exact ⟨entry, by simp, hentry⟩

/-- A chain of steps fails with the error of the first of them that fails. -/
theorem foldlM_eq_error_iff {step : β → α → Except ε β} {list : List α} {start : β} {error : ε} :
    list.foldlM step start = .error error ↔
      ∃ before entry after reached, list = before ++ entry :: after ∧
        before.foldlM step start = .ok reached ∧ step reached entry = .error error := by
  constructor
  · intro h
    induction list generalizing start with
    | nil => cases h
    | cons entry rest ih =>
      rw [List.foldlM_cons] at h
      rcases bind_eq_error_iff.mp h with hentry | ⟨next, hnext, hrest⟩
      · exact ⟨[], entry, rest, start, rfl, rfl, hentry⟩
      · obtain ⟨before, other, after, reached, rfl, hbefore, hother⟩ := ih hrest
        refine ⟨entry :: before, other, after, reached, rfl, ?_, hother⟩
        rw [List.foldlM_cons, hnext]
        exact hbefore
  · rintro ⟨before, entry, after, reached, rfl, hbefore, hentry⟩
    rw [List.foldlM_append, hbefore]
    exact bind_eq_error_iff.mpr (.inr ⟨reached, rfl, bind_eq_error_iff.mpr (.inl hentry)⟩)

theorem exists_of_mem_mapM {check : α → Except ε β} {list : List α} {results : List β}
    (h : list.mapM check = .ok results) {result : β} (hresult : result ∈ results) :
    ∃ entry ∈ list, check entry = .ok result := by
  have hpairs := mapM_eq_ok_iff.mp h
  clear h
  induction hpairs with
  | nil => cases hresult
  | cons hfirst _ ih =>
    rcases List.mem_cons.mp hresult with rfl | hresult
    · exact ⟨_, List.mem_cons_self, hfirst⟩
    · obtain ⟨entry, hentry, hcheck⟩ := ih hresult
      exact ⟨entry, List.mem_cons_of_mem _ hentry, hcheck⟩

theorem exists_mem_of_mapM {check : α → Except ε β} {list : List α} {results : List β}
    (h : list.mapM check = .ok results) {entry : α} (hentry : entry ∈ list) :
    ∃ result ∈ results, check entry = .ok result := by
  have hpairs := mapM_eq_ok_iff.mp h
  clear h
  induction hpairs with
  | nil => cases hentry
  | cons hfirst _ ih =>
    rcases List.mem_cons.mp hentry with rfl | hentry
    · exact ⟨_, List.mem_cons_self, hfirst⟩
    · obtain ⟨result, hresult, hcheck⟩ := ih hentry
      exact ⟨result, List.mem_cons_of_mem _ hresult, hcheck⟩

/-- If each check only answers what is expected of it, so does a list of them. -/
theorem eq_map_of_mapM_eq_ok {check : α → Except ε β} {Good : α → Prop} {answer : α → β}
    (hcheck : ∀ entry result, check entry = .ok result → Good entry ∧ result = answer entry)
    {list : List α} {results : List β} (h : list.mapM check = .ok results) :
    (∀ entry ∈ list, Good entry) ∧ results = list.map answer := by
  have hpairs := mapM_eq_ok_iff.mp h
  clear h
  induction hpairs with
  | nil => simp
  | cons hfirst _ ih =>
    obtain ⟨hgood, rfl⟩ := hcheck _ _ hfirst
    obtain ⟨hrest, rfl⟩ := ih
    exact ⟨List.forall_mem_cons.mpr ⟨hgood, hrest⟩, rfl⟩

/-- A list of checks succeeds if each entry is related to a target that settles its result. -/
theorem mapM_eq_ok_of_forall₂ {γ : Type*} {check : α → Except ε β} {Rel : α → γ → Prop}
    {answer : γ → β} {list : List α} {targets : List γ} (hpairs : List.Forall₂ Rel list targets)
    (hcheck : ∀ target ∈ targets, ∀ entry, Rel entry target → check entry = .ok (answer target)) :
    list.mapM check = .ok (targets.map answer) := by
  rw [mapM_eq_ok_iff, List.forall₂_map_right_iff]
  induction hpairs with
  | nil => exact .nil
  | cons hfirst _ ih =>
    obtain ⟨hhead, hrest⟩ := List.forall_mem_cons.mp hcheck
    exact .cons (hhead _ hfirst) (ih hrest)

/-- The last of several entries is paired with the last of their results. -/
theorem rel_getLast? {Rel : α → β → Prop} {list : List α} {results : List β}
    (h : List.Forall₂ Rel list results) : Option.Rel Rel list.getLast? results.getLast? := by
  induction h with
  | nil => exact .none
  | @cons entry result others results hfirst _ ih =>
    rw [List.getLast?_cons, List.getLast?_cons]
    generalize others.getLast? = last at ih
    generalize results.getLast? = last' at ih
    cases ih with
    | none => exact .some hfirst
    | some h => exact .some h

end SectionedConfig
