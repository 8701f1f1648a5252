import SectionedConfig.Proofs.Assignment
import SectionedConfig.Proofs.Document.Assembly
import SectionedConfig.Proofs.Registry.Atomicity

/-!
# Assignments that nothing is bound to

A decoding skips the assignments at whose places nothing is bound, and it asks whether something is
bound before it looks at the value. So a key that the schema does not know is tolerated with any
value, also one that could not be read. More than that, it makes no difference: tokens with such
assignments between them are decoded as they are without, into the same target and with the same
error.

Inside the walk an assignment is found by its equals sign, which looks at the token on either side.
What is put in must therefore not come to stand next to an equals sign of the other tokens, where it
would take the place of a key or a value.
-/

namespace SectionedConfig

open Assignment

variable {Target : Type}

/-! ## The updates of a walk -/

namespace Registry

/-- The updates that a decoding applies after a walk. -/
def queued (registry : Registry Target) (hints : Hints) (walk : Walk) :
    Except Error (List (Update Target)) :=
  (walk.traverse (registry.update? hints)).map fun updates ↦ updates.filterMap id

variable {registry : Registry Target} {hints : Hints}

/-- Nothing else of the tokens reaches the target. -/
theorem decode_eq_of_queued {tokens others : List Token}
    (h : registry.queued hints (walk tokens) = registry.queued hints (walk others))
    (target : Target) :
    registry.decode hints tokens target = registry.decode hints others target := by
  have hdecode (tokens : List Token) : registry.decode hints tokens target =
      match registry.queued hints (walk tokens) with
      | .error error => (.error error, target)
      | .ok updates => Update.applyAll target updates := by
    rw [decode, updates, queued]
    cases (walk tokens).traverse (registry.update? hints) <;> rfl
  rw [hdecode, hdecode, h]

theorem queued_cons (assignment : Assignment) (walk : Walk) :
    registry.queued hints (walk.cons assignment) =
      (registry.update? hints assignment).bind fun update ↦
        (registry.queued hints walk).map fun later ↦ update.toList ++ later := by
  rw [queued, queued, Walk.traverse_cons]
  cases registry.update? hints assignment with
  | error error => rfl
  | ok update => cases walk.traverse (registry.update? hints) <;> cases update <;> rfl

/-- An assignment that nothing is bound to queues nothing, whatever its value. -/
theorem queued_cons_of_unbound {assignment : Assignment}
    (h : registry.get? (assignment.place hints) = none) (walk : Walk) :
    registry.queued hints (walk.cons assignment) = registry.queued hints walk := by
  have hskipped : registry.update? hints assignment = .ok none := by
    simp only [update?, h]
  rw [queued_cons, hskipped]
  cases registry.queued hints walk <;> rfl

end Registry

/-! ## Tokens with assignments put in -/

/-- The longer sequence is the shorter one with complete assignments put in, at any points that do
not touch an equals sign of the shorter one, and none of them is bound. `enclosing` is the section
that is open in front of the tokens, and `previous` the token in front of them in the shorter
sequence. -/
inductive Widens (registry : Registry Target) (hints : Hints) :
    Option String → Option Token → List Token → List Token → Prop where
  | nil {enclosing : Option String} {previous : Option Token} :
      Widens registry hints enclosing previous [] []
  | keep {enclosing : Option String} {previous : Option Token} {token : Token}
      {tokens wider : List Token}
      (h : Widens registry hints (token.enclosingAfter enclosing) (some token) tokens wider) :
      Widens registry hints enclosing previous (token :: tokens) (token :: wider)
  | insert {enclosing : Option String} {previous : Option Token} {key sign value : Token}
      {tokens wider : List Token} (hkey : key.kind = .identifier) (hsign : sign.kind = .assignment)
      (hvalue : value.kind.isValue = true)
      (hunbound : registry.get? (Assignment.place hints ⟨enclosing, key, value⟩) = none)
      (hbefore : ∀ token ∈ previous, token.kind ≠ .assignment)
      (hafter : ∀ token ∈ tokens.head?, token.kind ≠ .assignment)
      (h : Widens registry hints enclosing previous tokens wider) :
      Widens registry hints enclosing previous tokens (key :: sign :: value :: wider)

namespace Widens

variable {registry : Registry Target} {hints : Hints} {enclosing : Option String}
  {previous : Option Token} {tokens wider : List Token}

/-- Nothing is put in behind an equals sign. -/
theorem head?_eq {sign : Token} (hsign : sign.kind = .assignment)
    (h : Widens registry hints enclosing (some sign) tokens wider) :
    wider.head? = tokens.head? := by
  cases h with
  | nil => rfl
  | keep _ => rfl
  | insert _ _ _ _ hbefore _ _ => exact absurd hsign (hbefore sign rfl)

/-- A walk queues the same updates with the assignments as without. The token in front of the walk
may be another one, unless an equals sign comes next. -/
theorem queued_walkFrom (h : Widens registry hints enclosing previous tokens wider)
    (last : Option Token)
    (hlast : last = previous ∨ ∀ token ∈ tokens.head?, token.kind ≠ .assignment) :
    registry.queued hints (walkFrom enclosing last wider) =
      registry.queued hints (walkFrom enclosing previous tokens) := by
  induction h generalizing last with
  | nil => rfl
  | @keep enclosing previous token tokens wider hwidens ih =>
    have hrest := ih (some token) (.inl rfl)
    unfold Token.enclosingAfter at hrest
    rw [walkFrom, walkFrom]
    cases hkind : token.kind with
    | assignment =>
      have hprevious : last = previous :=
        hlast.resolve_right fun hother ↦ hother token rfl hkind
      simp only [hkind] at hrest
      simp only [hprevious, hwidens.head?_eq hkind]
      cases around enclosing previous token tokens.head? with
      | error fault => rfl
      | ok assignment => rw [Registry.queued_cons, Registry.queued_cons, hrest]
    | endOfFile | failure => rfl
    | sectionName | sectionEnd | comment | commentText | endOfStatement | sectionStart | string
    | identifier | int64 | startOfFile | unclassified => simpa only [hkind] using hrest
  | @insert enclosing previous key sign value tokens wider hkey hsign hvalue hunbound _ hafter _
      ih =>
    calc
      registry.queued hints (walkFrom enclosing last (key :: sign :: value :: wider)) =
          registry.queued hints
            ((walkFrom enclosing (some value) wider).cons ⟨enclosing, key, value⟩) := by
        rw [walkFrom_assignment hkey hsign hvalue]
      _ = registry.queued hints (walkFrom enclosing (some value) wider) :=
        Registry.queued_cons_of_unbound hunbound _
      _ = registry.queued hints (walkFrom enclosing previous tokens) :=
        ih (some value) (.inr hafter)

end Widens

/-- Assignments that nothing is bound to make no difference to a decoding, wherever they are put in
and whatever their values. -/
theorem Registry.decode_eq_of_widens {registry : Registry Target} {hints : Hints}
    {tokens wider : List Token} (h : Widens registry hints none none tokens wider)
    (target : Target) :
    registry.decode hints wider target = registry.decode hints tokens target :=
  decode_eq_of_queued (h.queued_walkFrom none (.inl rfl)) target

/-- Three assignments are put around one that is bound: at the top a value that is no integer, in
front of the bound one a key that a hint takes to another section, and behind the section the bound
key once more. -/
theorem Registry.decode_eq_of_widens_around :
    ∃ (registry : Registry Table) (hints : Hints) (tokens wider : List Token),
      hints = OrderedMap.empty.insert "b" "t" ∧
      tokens.map Token.value = ["s", "\x7b", "a", "=", "1", "\x7d", ""] ∧
      wider.map Token.value = ["c", "=", "x", "s", "\x7b", "b", "=", "y", "a", "=", "1", "\x7d",
        "a", "=", "z", ""] ∧
      Widens registry hints none none tokens wider ∧
      (registry.decode hints tokens .blank).1 = .ok () ∧
      registry.decode hints wider .blank = registry.decode hints tokens .blank := by
  let key (name : String) : Token := ⟨.identifier, name, none, none, false⟩
  let sign : Token := ⟨.assignment, "=", none, none, false⟩
  let bare (text : String) : Token := ⟨.int64, text, none, none, false⟩
  let registry : Registry Table := (Index.empty.insert ⟨"s", "a"⟩ (Table.slot .int64 (0, 0))).insert
    ⟨"s", "b"⟩ (Table.slot .string (0, 1))
  let hints : Hints := OrderedMap.empty.insert "b" "t"
  have hwidens : Widens registry hints none none
      [⟨.sectionName, "s", none, none, false⟩, ⟨.sectionStart, "\x7b", none, none, false⟩,
        key "a", sign, bare "1", ⟨.sectionEnd, "\x7d", none, none, false⟩, .endOfFile]
      [key "c", sign, bare "x", ⟨.sectionName, "s", none, none, false⟩,
        ⟨.sectionStart, "\x7b", none, none, false⟩, key "b", sign, bare "y", key "a", sign,
        bare "1", ⟨.sectionEnd, "\x7d", none, none, false⟩, key "a", sign, bare "z", .endOfFile] :=
    .insert rfl rfl rfl (by decide +kernel) (by simp) (by simp) <| .keep <| .keep <|
      .insert rfl rfl rfl (by decide +kernel) (by simp) (by simp [key]) <| .keep <| .keep <|
      .keep <| .keep <| .insert rfl rfl rfl (by decide +kernel) (by simp) (by decide) <|
      .keep .nil
  exact ⟨registry, hints, _, _, rfl, rfl, rfl, hwidens, by decide +kernel,
    decode_eq_of_widens hwidens .blank⟩

end SectionedConfig
