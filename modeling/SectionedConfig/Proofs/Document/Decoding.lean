import SectionedConfig.Proofs.Document.Rebuilding

/-!
# Decoding a document

A document is decoded statement by statement: an assignment outside the sections is stored under its
key, one inside a section under the composed key, and what is stored later replaces what was stored
before. Decoding the tokens that the document was assembled from gives the same result, although it
looks at nothing but the last section name and the neighbours of equals signs. The flattened
document is decoded as the tokens of the assembly, because places play no part in a map.
-/

namespace SectionedConfig

open Assignment

namespace Statement

mutual

/-- Decodes a statement on top of a map, inside the named section or outside any. -/
def decodeOnto (map : ConfigMap) (enclosing : Option String) : Statement → Except Error ConfigMap
  | newline _ | comment _ _ => .ok map
  | assignment key _ value =>
    let stored := enclosing.elim key.value fun name ↦ composeKey name key.value
    if value.kind = .int64 then
      (integer stored value).map fun number ↦ map.insert stored (.int64 number)
    else .ok (map.insert stored (.ofText value.value))
  | block name _ children _ => decodeAllOnto map (some name.value) children

/-- Decodes statements in a row on top of a map. The first one that fails ends the decoding. -/
def decodeAllOnto (map : ConfigMap) (enclosing : Option String) :
    List Statement → Except Error ConfigMap
  | [] => .ok map
  | statement :: rest =>
    (statement.decodeOnto map enclosing).bind fun longer ↦ decodeAllOnto longer enclosing rest

end

mutual

/-- The assignments of a statement, inside the named section or outside any. -/
def assignments (enclosing : Option String) : Statement → List Assignment
  | newline _ | comment _ _ => []
  | assignment key _ value => [⟨enclosing, key, value⟩]
  | block name _ children _ => assignmentsOf (some name.value) children

/-- The assignments of statements in a row. -/
def assignmentsOf (enclosing : Option String) : List Statement → List Assignment
  | [] => []
  | statement :: rest => statement.assignments enclosing ++ assignmentsOf enclosing rest

end

theorem assignmentsOf_append (enclosing : Option String) (first second : List Statement) :
    assignmentsOf enclosing (first ++ second) =
      assignmentsOf enclosing first ++ assignmentsOf enclosing second := by
  induction first with
  | nil => rfl
  | cons statement rest ih => simp [assignmentsOf, ih]

/-- Entries on top of a map. -/
def storeAll (map : ConfigMap) (assignments : List Assignment) : Except Error ConfigMap :=
  (assignments.mapM entry).map map.insertAll

theorem storeAll_append (map : ConfigMap) (first second : List Assignment) :
    storeAll map (first ++ second) =
      (storeAll map first).bind fun longer ↦ storeAll longer second := by
  rw [storeAll, storeAll, List.mapM_append]
  cases first.mapM entry with
  | error error => rfl
  | ok entries =>
    change ((second.mapM entry).bind fun others ↦ .ok (entries ++ others)).map map.insertAll =
      (second.mapM entry).map (map.insertAll entries).insertAll
    cases second.mapM entry with
    | error error => rfl
    | ok others => exact congrArg Except.ok (OrderedMap.insertAll_append map entries others)

theorem decodeOnto_assignment (map : ConfigMap) (enclosing : Option String)
    (key sign value : Token) :
    (assignment key sign value).decodeOnto map enclosing =
      storeAll map [⟨enclosing, key, value⟩] := by
  have hkey : enclosing.elim key.value (fun name ↦ composeKey name key.value) =
      composedKey ⟨enclosing, key, value⟩ := by
    cases enclosing <;> rfl
  have hstore : storeAll map [⟨enclosing, key, value⟩] =
      (entry ⟨enclosing, key, value⟩).map fun found ↦ map.insert found.1 found.2 := by
    rw [storeAll, List.mapM_cons, List.mapM_nil]
    cases entry ⟨enclosing, key, value⟩ <;> rfl
  rw [hstore, entry, decodeOnto, hkey]
  simp only
  split
  next => cases integer (composedKey ⟨enclosing, key, value⟩) value <;> rfl
  next => rfl

/-- A walk finds the assignment of a plain statement and goes on behind it. -/
theorem IsPlain.exists_walkFrom {statement : Statement} (h : statement.IsPlain)
    (enclosing : Option String) (previous : Option Token) (rest : List Token) :
    ∃ last, walkFrom enclosing previous (statement.tokens ++ rest) =
      (walkFrom enclosing last rest).prepend (statement.assignments enclosing) := by
  cases h with
  | @newline token hkind =>
    refine ⟨some token, ?_⟩
    rw [Statement.tokens, List.singleton_append, walkFrom, hkind]
    rfl
  | @comment mark text hmark htext =>
    refine ⟨some text, ?_⟩
    simp only [Statement.tokens, List.cons_append, List.nil_append, walkFrom, hmark, htext]
    rfl
  | @assignment key sign value hkey hsign hvalue =>
    exact ⟨some value, walkFrom_assignment hkey hsign hvalue enclosing previous rest⟩

mutual

theorem decodeOnto_eq (map : ConfigMap) (enclosing : Option String) (statement : Statement) :
    statement.decodeOnto map enclosing = storeAll map (statement.assignments enclosing) := by
  cases statement with
  | newline token => rfl
  | comment mark text => rfl
  | assignment key sign value => exact decodeOnto_assignment map enclosing key sign value
  | block name opening children closing => exact decodeAllOnto_eq map (some name.value) children

theorem decodeAllOnto_eq (map : ConfigMap) (enclosing : Option String)
    (statements : List Statement) :
    decodeAllOnto map enclosing statements = storeAll map (assignmentsOf enclosing statements) := by
  cases statements with
  | nil => rfl
  | cons statement rest =>
    rw [decodeAllOnto, assignmentsOf, storeAll_append, decodeOnto_eq map enclosing statement]
    congr 1
    funext longer
    exact decodeAllOnto_eq longer enclosing rest

end

end Statement

/-! ## Places play no part -/

namespace Assignment

/-- An assignment without the places of its tokens. -/
def unplaced (assignment : Assignment) : Assignment :=
  ⟨assignment.enclosing, assignment.key.unplaced, assignment.value.unplaced⟩

theorem entry_unplaced_eq_ok_iff {assignment : Assignment} {found : String × Value} :
    assignment.unplaced.entry = .ok found ↔ assignment.entry = .ok found := by
  have hagrees : assignment.unplaced.Agrees assignment := ⟨rfl, rfl, rfl, rfl⟩
  have hagrees' : assignment.Agrees assignment.unplaced := ⟨rfl, rfl, rfl, rfl⟩
  exact ⟨hagrees.entry_eq_ok, hagrees'.entry_eq_ok⟩

/-- An assignment that makes no entry holds a bare value that is no integer. -/
theorem eq_invalidInteger_of_entry {assignment : Assignment} {error : Error}
    (h : assignment.entry = .error error) :
    error = .invalidInteger assignment.composedKey assignment.value.value
      assignment.value.line := by
  unfold entry at h
  split at h
  next => exact (integer_eq_error_iff.mp (map_eq_error_iff.mp h)).2
  next => cases h

end Assignment

namespace Statement

mutual

theorem assignments_unplaced (enclosing : Option String) (statement : Statement) :
    statement.unplaced.assignments enclosing =
      (statement.assignments enclosing).map Assignment.unplaced := by
  cases statement with
  | newline token => rfl
  | comment mark text => rfl
  | assignment key sign value => rfl
  | block name opening children closing =>
    exact assignmentsOf_unplacedAll (some name.value) children

theorem assignmentsOf_unplacedAll (enclosing : Option String) (statements : List Statement) :
    assignmentsOf enclosing (unplacedAll statements) =
      (assignmentsOf enclosing statements).map Assignment.unplaced := by
  cases statements with
  | nil => rfl
  | cons statement rest =>
    rw [unplacedAll, assignmentsOf, assignmentsOf, List.map_append,
      assignments_unplaced enclosing statement, assignmentsOf_unplacedAll enclosing rest]

end

theorem storeAll_map_unplaced_eq_ok_iff {map stored : ConfigMap} {assignments : List Assignment} :
    storeAll map (assignments.map Assignment.unplaced) = .ok stored ↔
      storeAll map assignments = .ok stored := by
  simp only [storeAll, map_eq_ok_iff, mapM_eq_ok_iff, List.forall₂_map_left_iff,
    entry_unplaced_eq_ok_iff]

end Statement

namespace Document

/-- Decodes a document statement by statement. -/
def decode (document : Document) : Except Error ConfigMap :=
  Statement.decodeAllOnto .empty none document.statements

theorem decode_eq (document : Document) :
    document.decode =
      ((Statement.assignmentsOf none document.statements).mapM entry).map OrderedMap.ofList :=
  Statement.decodeAllOnto_eq .empty none document.statements

/-- Documents that differ in places alone are decoded as the same map. -/
theorem decode_eq_ok_of_map_unplaced {document other : Document} {map : ConfigMap}
    (h : other.statements.map Statement.unplaced = document.statements.map Statement.unplaced)
    (hmap : document.decode = .ok map) : other.decode = .ok map := by
  rw [← Statement.unplacedAll_eq_map, ← Statement.unplacedAll_eq_map] at h
  rw [decode, Statement.decodeAllOnto_eq] at hmap ⊢
  rw [← Statement.storeAll_map_unplaced_eq_ok_iff, ← Statement.assignmentsOf_unplacedAll, h,
    Statement.assignmentsOf_unplacedAll, Statement.storeAll_map_unplaced_eq_ok_iff]
  exact hmap

/-! ## What is assembled -/

/-- A section that was opened by tokens of the right kinds and holds plain statements. -/
structure Pending.IsSound (pending : Pending) : Prop where
  name : pending.name.kind = .sectionName
  opening : pending.opening.kind = .sectionStart
  children : ∀ child ∈ pending.children, child.IsPlain

namespace Assembled

variable {pending : Option Pending} {tokens : List Token} {statements : List Statement}

/-- Assembly makes statements of the right tokens and puts no section into another one. -/
theorem hasKinds (h : Assembled pending tokens statements)
    (hpending : ∀ around ∈ pending, around.IsSound) :
    ∀ statement ∈ statements, statement.HasKinds ∧ statement.IsFlat := by
  induction h with
  | stop hstop => simp
  | start hkind _ ih => exact ih hpending
  | opening hname hbrace _ ih =>
    apply ih
    intro around haround
    obtain rfl := Option.mem_some_iff.mp haround
    exact ⟨hname, hbrace, by simp⟩
  | @closing pending brace rest statements hbrace _ ih =>
    obtain ⟨hname, hopening, hchildren⟩ := hpending pending rfl
    refine List.forall_mem_cons.mpr ⟨⟨?_, fun child hchild ↦ ?_⟩, ih (by simp)⟩
    · exact .block hname hopening (fun child hchild ↦ .plain (hchildren child hchild)) hbrace
    · exact (hchildren child hchild).isBlock_eq_false
  | @statement pending statement rest later hplain _ ih =>
    -- A plain statement is finished outside the sections, and waits in the open one otherwise.
    cases pending with
    | none => exact List.forall_mem_cons.mpr ⟨⟨.plain hplain, hplain.isFlat⟩, ih hpending⟩
    | some around =>
      obtain ⟨hname, hopening, hchildren⟩ := hpending around rfl
      apply ih
      intro longer hlonger
      obtain rfl := Option.mem_some_iff.mp hlonger
      refine ⟨hname, hopening, List.forall_mem_append.mpr ⟨hchildren, ?_⟩⟩
      exact List.forall_mem_singleton.mpr hplain

/-- A walk over tokens that are assembled has no fault. It finds the assignments of the statements,
but for those that the open section holds already. -/
theorem exists_walkFrom (h : Assembled pending tokens statements) (previous : Option Token) :
    ∃ found,
      walkFrom (pending.map fun around ↦ around.name.value) previous tokens = ⟨found, none⟩ ∧
        Statement.assignmentsOf none statements =
          pending.elim [] (fun around ↦
            Statement.assignmentsOf (some around.name.value) around.children) ++ found := by
  induction h generalizing previous with
  | @stop tokens hstop =>
    refine ⟨[], ?_, rfl⟩
    cases tokens with
    | nil => rfl
    | cons token rest => rw [walkFrom, show token.kind = .endOfFile from hstop token rfl]
  | @start pending token rest _ hkind _ ih =>
    obtain ⟨found, hwalk, hfound⟩ := ih (some token)
    refine ⟨found, ?_, hfound⟩
    rw [walkFrom, hkind]
    exact hwalk
  | @opening name brace rest _ hname hbrace _ ih =>
    obtain ⟨found, hwalk, hfound⟩ := ih (some brace)
    refine ⟨found, ?_, hfound⟩
    simp only [walkFrom, hname, hbrace]
    exact hwalk
  | @closing pending brace rest statements hbrace _ ih =>
    obtain ⟨found, hwalk, hfound⟩ := ih (some brace)
    refine ⟨found, ?_, ?_⟩
    · rw [walkFrom, hbrace]
      exact hwalk
    · rw [Statement.assignmentsOf, hfound]
      rfl
  | @statement pending statement rest later hplain _ ih =>
    obtain ⟨last, hlast⟩ := hplain.exists_walkFrom (pending.map fun around ↦ around.name.value)
      previous rest
    obtain ⟨found, hwalk, hfound⟩ := ih last
    refine ⟨statement.assignments (pending.map fun around ↦ around.name.value) ++ found, ?_, ?_⟩
    · rw [hlast]
      cases pending with
      | none => exact congrArg (Walk.prepend _) hwalk
      | some around => exact congrArg (Walk.prepend _) hwalk
    · cases pending with
      | none => exact congrArg (statement.assignments none ++ ·) hfound
      | some around =>
        have hchildren : Statement.assignmentsOf (some around.name.value)
            (around.children ++ [statement]) =
              Statement.assignmentsOf (some around.name.value) around.children ++
                statement.assignments (some around.name.value) := by
          rw [Statement.assignmentsOf_append, Statement.assignmentsOf, Statement.assignmentsOf,
            List.append_nil]
        calc
          Statement.assignmentsOf none later =
              Statement.assignmentsOf (some around.name.value)
                (around.children ++ [statement]) ++ found := hfound
          _ = _ := by
            rw [hchildren, List.append_assoc]
            rfl

end Assembled

theorem hasKinds_of_ofTokens {tokens : List Token} {document : Document}
    (h : ofTokens tokens = .ok document) :
    ∀ statement ∈ document.statements, statement.HasKinds ∧ statement.IsFlat := by
  rw [ofTokens_eq_assemble] at h
  obtain ⟨statements, hassemble, rfl⟩ := map_eq_ok_iff.mp h
  exact (assembled_of_assemble hassemble).hasKinds (by simp)

/-- The tokens of a document are decoded as the document. -/
theorem ofTokens_eq {tokens : List Token} {document : Document}
    (h : ofTokens tokens = .ok document) : ConfigMap.ofTokens tokens = document.decode := by
  rw [ofTokens_eq_assemble] at h
  obtain ⟨statements, hassemble, rfl⟩ := map_eq_ok_iff.mp h
  obtain ⟨found, hwalk, hfound⟩ := (assembled_of_assemble hassemble).exists_walkFrom none
  have htokens : walk tokens = ⟨found, none⟩ := hwalk
  have hstatements : Statement.assignmentsOf none statements = found := hfound
  rw [ConfigMap.ofTokens, decode_eq, htokens, hstatements, Walk.traverse_of_faultless]

/-- What the tokens of a document are decoded as, without a schema, is the document decoded
statement by statement. Only an integer can fail, and it is the first one that does. The flattened
document is decoded as the same map. -/
theorem ofTokens_eq_decode {tokens : List Token} {document : Document}
    (h : ofTokens tokens = .ok document) :
    ConfigMap.ofTokens tokens = document.decode ∧
      (∀ error, document.decode = .error error → ∃ before bad after,
        Statement.assignmentsOf none document.statements = before ++ bad :: after ∧
          (∀ earlier ∈ before, ∃ found, earlier.entry = .ok found) ∧ bad.entry = .error error ∧
          error = .invalidInteger bad.composedKey bad.value.value bad.value.line) ∧
      ∀ map, ConfigMap.ofTokens document.tokens = .ok map ↔
        ConfigMap.ofTokens tokens = .ok map := by
  refine ⟨ofTokens_eq h, fun error herror ↦ ?_, fun map ↦ ?_⟩
  · rw [decode_eq, map_eq_error_iff] at herror
    obtain ⟨before, bad, after, hall, hbefore, hbad⟩ := mapM_eq_error_iff.mp herror
    exact ⟨before, bad, after, hall, hbefore, hbad, eq_invalidInteger_of_entry hbad⟩
  · have hsound := hasKinds_of_ofTokens h
    obtain ⟨rebuilt, hrebuilt, hsame, _⟩ := exists_rebuilt
      (fun statement hstatement ↦ (hsound statement hstatement).1)
      (fun statement hstatement ↦ (hsound statement hstatement).2)
    rw [ofTokens_eq h, ofTokens_eq hrebuilt]
    exact ⟨decode_eq_ok_of_map_unplaced hsame.symm, decode_eq_ok_of_map_unplaced hsame⟩

/-- A comment behind an integer, a section that is opened again, and two keys that are assigned
again: each keeps its position and takes the later value. -/
theorem ofTokens_eq_decode_reopened :
    ∃ document map,
      ofTokens (TokenStream.ofText
        "a = 1 # c\ns \x7b\n\ta = \"x\"\n\x7d s \x7b\n\ta = [y]\n\x7d\na = 2\n").tokens =
          .ok document ∧
      map = OrderedMap.ofList [("a", .int64 2), ("s/a", .list ["y"])] ∧
      document.decode = .ok map ∧ ConfigMap.ofTokens document.tokens = .ok map := by
  generalize hresult : ofTokens _ = result
  obtain ⟨document, rfl⟩ : ∃ document, result = .ok document := ⟨_, hresult.symm⟩
  obtain ⟨hdecode, _, htokens⟩ := ofTokens_eq_decode hresult
  have hmap : ConfigMap.ofTokens (TokenStream.ofText
      "a = 1 # c\ns \x7b\n\ta = \"x\"\n\x7d s \x7b\n\ta = [y]\n\x7d\na = 2\n").tokens =
        .ok (.ofList [("a", .int64 2), ("s/a", .list ["y"])]) := by
    decide
  exact ⟨document, _, rfl, rfl, hdecode.symm.trans hmap, (htokens _).mpr hmap⟩

end Document

end SectionedConfig
