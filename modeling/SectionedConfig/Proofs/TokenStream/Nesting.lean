import SectionedConfig.Proofs.Document.Rebuilding
import SectionedConfig.Proofs.TokenStream.Regularity

/-!
# Which texts make up documents

The tokens of an accepted text come in order, but nothing says which braces match. A document is
assembled from them if the names of sections and the closing braces take turns, whatever stands
between them, and only then. Otherwise assembly stops at the first token that is out of turn, or
complains about the section that is open at the end. Everything follows by induction on the order of
the tokens, with the section that is open behind the tokens that have been read.
-/

namespace SectionedConfig

open Document Text

/-! ## Names and closing braces in turn -/

/-- The kinds of a row of sections each of which is closed before the next one is named. -/
inductive Alternating : List TokenKind → Prop where
  | nil : Alternating []
  | pair {rest : List TokenKind} (h : Alternating rest) :
      Alternating (.sectionName :: .sectionEnd :: rest)

theorem alternating_pair_iff {rest : List TokenKind} :
    Alternating (.sectionName :: .sectionEnd :: rest) ↔ Alternating rest :=
  ⟨fun h ↦ by cases h with | pair h => exact h, .pair⟩

namespace Token

/-- The tokens that name sections and the ones that close them. -/
def bounds (tokens : List Token) : List Token :=
  tokens.filter fun token ↦ token.kind = .sectionName ∨ token.kind = .sectionEnd

/-- The name of the section that is open behind tokens: the last one, unless a closing brace follows
it. -/
def openName? (tokens : List Token) : Option Token :=
  (bounds tokens).getLast?.filter fun token ↦ token.kind = .sectionName

/-- The token names a section while one is open, or closes one while none is. -/
def IsAmiss (before : List Token) (token : Token) : Prop :=
  token.kind = .sectionName ∧ openName? before ≠ none ∨
    token.kind = .sectionEnd ∧ openName? before = none

/-- No token names a section while one is open or closes one while none is. -/
def InTurn (tokens : List Token) : Prop :=
  ∀ before token after, tokens = before ++ token :: after → ¬ token.IsAmiss before

variable {front rest tokens : List Token} {token : Token}

theorem bounds_append (front rest : List Token) :
    bounds (front ++ rest) = bounds front ++ bounds rest :=
  List.filter_append ..

theorem bounds_cons_of_pos (h : token.kind = .sectionName ∨ token.kind = .sectionEnd)
    (rest : List Token) : bounds (token :: rest) = token :: bounds rest :=
  List.filter_cons_of_pos (decide_eq_true h)

theorem bounds_cons_of_neg (h : ¬ (token.kind = .sectionName ∨ token.kind = .sectionEnd))
    (rest : List Token) : bounds (token :: rest) = bounds rest :=
  List.filter_cons_of_neg (by simpa using h)

theorem mem_of_openName?_eq_some (h : openName? tokens = some token) :
    token ∈ tokens ∧ token.kind = .sectionName := by
  obtain ⟨hlast, hkind⟩ := Option.filter_eq_some_iff.mp h
  exact ⟨(List.mem_filter.mp (List.mem_of_getLast? hlast)).1, of_decide_eq_true hkind⟩

/-- Tokens that neither name nor close a section change nothing. -/
theorem openName?_append (h : bounds rest = []) (front : List Token) :
    openName? (front ++ rest) = openName? front := by
  rw [openName?, bounds_append, h, List.append_nil, openName?]

theorem openName?_append_name (h : bounds rest = [token]) (hkind : token.kind = .sectionName)
    (front : List Token) : openName? (front ++ rest) = some token := by
  rw [openName?, bounds_append, h, List.getLast?_concat, Option.filter_some, hkind]
  rfl

theorem openName?_append_end (h : bounds rest = [token]) (hkind : token.kind = .sectionEnd)
    (front : List Token) : openName? (front ++ rest) = none := by
  rw [openName?, bounds_append, h, List.getLast?_concat, Option.filter_some, hkind]
  rfl

theorem inTurn_nil : InTurn [] := by
  intro before token after h
  simp at h

/-- A token that is in turn can follow. -/
theorem InTurn.concat (h : InTurn tokens) (hnot : ¬ token.IsAmiss tokens) :
    InTurn (tokens ++ [token]) := by
  intro before other after heq
  rcases List.eq_nil_or_concat after with rfl | ⟨later, last, rfl⟩
  · obtain ⟨rfl, hlast⟩ := List.append_inj' heq rfl
    obtain rfl := List.singleton_inj.mp hlast
    exact hnot
  · rw [List.concat_eq_append, ← List.cons_append, ← List.append_assoc] at heq
    exact h before other later (List.append_inj' heq rfl).1

/-- Tokens that neither name nor close a section can follow. -/
theorem InTurn.append (h : InTurn front) (hrest : bounds rest = []) : InTurn (front ++ rest) := by
  induction rest generalizing front with
  | nil => rwa [List.append_nil]
  | cons token others ih =>
    have hbound : ¬ (token.kind = .sectionName ∨ token.kind = .sectionEnd) := by
      intro hbound
      rw [bounds_cons_of_pos hbound] at hrest
      cases hrest
    rw [bounds_cons_of_neg hbound] at hrest
    have hnot : ¬ token.IsAmiss front :=
      fun hamiss ↦ hbound (hamiss.imp And.left And.left)
    rw [List.append_cons]
    exact ih (h.concat hnot) hrest

end Token

open Token

/-- What is wrong with the nesting of sections, with the error that is reported for it. The first
token that is amiss counts, and the end of the tokens only if there is none. -/
inductive Misnested (tokens : List Token) : Error → Prop where
  /-- A section is named while another one is open. -/
  | inner {before after : List Token} {name around : Token}
      (htokens : tokens = before ++ name :: after) (hbefore : InTurn before)
      (hkind : name.kind = .sectionName) (hopen : openName? before = some around) :
      Misnested tokens (.structural name.line ("end of section " ++ quoted around.value)
        TokenKind.sectionName.name)
  /-- A section is closed while none is open. -/
  | unopened {before after : List Token} {brace : Token}
      (htokens : tokens = before ++ brace :: after) (hbefore : InTurn before)
      (hkind : brace.kind = .sectionEnd) (hopen : openName? before = none) :
      Misnested tokens (.structural brace.line "open section" TokenKind.sectionEnd.name)
  /-- A section is open at the end. -/
  | unclosed {around : Token} (hturn : InTurn tokens) (hopen : openName? tokens = some around) :
      Misnested tokens (.structural around.line ("end of section " ++ quoted around.value)
        TokenKind.endOfFile.name)

/-! ## Assembling tokens in order -/

theorem Document.exists_following_iff {finished : List Statement}
    {rest : Except Error (List Statement)} :
    (∃ statements, following finished rest = .ok statements) ↔
      ∃ statements, rest = .ok statements := by
  cases rest <;> simp [following, Except.map]

theorem Statement.IsPlain.bounds_tokens {statement : Statement} (h : statement.IsPlain) :
    bounds statement.tokens = [] := by
  cases h with
  | newline hkind => simp [Statement.tokens, bounds, hkind]
  | comment hmark htext => simp [Statement.tokens, bounds, hmark, htext]
  | @assignment key sign value hkey hsign hvalue =>
    cases hkind : value.kind <;> simp [TokenKind.isValue, hkind] at hvalue <;>
      simp [Statement.tokens, bounds, hkey, hsign, hkind]

namespace Regular

variable {tokens before : List Token} {pending : Option Pending} {previous : Option Token}
  {error : Error}

/-- Assembly goes through if the names and the closing braces take turns, beginning with a closing
brace if a section is open. -/
theorem exists_assemble_iff (h : Regular tokens) (pending : Option Pending)
    (previous : Option Token) :
    (∃ statements, assemble pending previous tokens = .ok statements) ↔
      Alternating (pending.elim [] (fun _ ↦ [.sectionName]) ++ (bounds tokens).map Token.kind) := by
  induction h generalizing pending previous with
  | @stop token hkind =>
    rw [assemble_endOfFile hkind, bounds_cons_of_neg (by simp [hkind])]
    cases pending with
    | none => exact ⟨fun _ ↦ .nil, fun _ ↦ ⟨[], rfl⟩⟩
    | some around => exact ⟨nofun, nofun⟩
  | @start token rest hkind _ ih =>
    rw [assemble_startOfFile hkind, bounds_cons_of_neg (by simp [hkind])]
    exact ih pending (some token)
  | @opening name brace rest hname hbrace _ ih =>
    rw [bounds_cons_of_pos (.inl hname), bounds_cons_of_neg (by simp [hbrace]), List.map_cons,
      hname]
    cases pending with
    | none =>
      rw [assemble_opening hname hbrace]
      exact ih (some ⟨name, brace, []⟩) (some brace)
    | some around =>
      rw [assemble_inner hname]
      exact ⟨nofun, nofun⟩
  | @closing brace rest hbrace _ ih =>
    rw [bounds_cons_of_pos (.inr hbrace), List.map_cons, hbrace]
    cases pending with
    | none =>
      rw [assemble_unopened hbrace]
      exact ⟨nofun, nofun⟩
    | some around =>
      rw [assemble_closing hbrace, exists_following_iff, ih]
      exact alternating_pair_iff.symm
  | @statement statement rest hplain _ ih =>
    obtain ⟨last, hlast⟩ := exists_assemble_plain hplain pending previous rest
    rw [hlast, exists_following_iff, ih, bounds_append, hplain.bounds_tokens]
    cases pending <;> rfl

/-- Assembly fails for the nesting of sections. -/
theorem misnested (h : Regular tokens) (hturn : InTurn before)
    (hopen : openName? before = pending.map Pending.name)
    (herror : assemble pending previous tokens = .error error) :
    Misnested (before ++ tokens) error := by
  induction h generalizing before pending previous with
  | @stop token hkind =>
    have hbounds : bounds [token] = [] := bounds_cons_of_neg (by simp [hkind]) []
    rw [assemble_endOfFile hkind] at herror
    cases pending with
    | none => cases herror
    | some around =>
      obtain rfl := Except.error.inj herror
      exact .unclosed (hturn.append hbounds) ((openName?_append hbounds before).trans hopen)
  | @start token rest hkind _ ih =>
    have hbounds : bounds [token] = [] := bounds_cons_of_neg (by simp [hkind]) []
    rw [assemble_startOfFile hkind] at herror
    rw [List.append_cons]
    exact ih (hturn.append hbounds) ((openName?_append hbounds before).trans hopen) herror
  | @opening name brace rest hname hbrace _ ih =>
    cases pending with
    | none =>
      have hbounds : bounds [brace] = [] := bounds_cons_of_neg (by simp [hbrace]) []
      have hnot : ¬ name.IsAmiss before := by simp [IsAmiss, hname, hopen]
      rw [assemble_opening hname hbrace] at herror
      rw [List.append_cons, List.append_cons]
      refine ih ((hturn.concat hnot).append hbounds) ?_ herror
      rw [openName?_append hbounds]
      exact openName?_append_name (bounds_cons_of_pos (.inl hname) []) hname before
    | some around =>
      rw [assemble_inner hname] at herror
      obtain rfl := Except.error.inj herror
      exact .inner rfl hturn hname hopen
  | @closing brace rest hbrace _ ih =>
    cases pending with
    | none =>
      rw [assemble_unopened hbrace] at herror
      obtain rfl := Except.error.inj herror
      exact .unopened rfl hturn hbrace hopen
    | some around =>
      have hnot : ¬ brace.IsAmiss before := by simp [IsAmiss, hbrace, hopen]
      rw [assemble_closing hbrace, following, map_eq_error_iff] at herror
      rw [List.append_cons]
      refine ih (hturn.concat hnot) ?_ herror
      exact openName?_append_end (bounds_cons_of_pos (.inr hbrace) []) hbrace before
  | @statement statement rest hplain _ ih =>
    obtain ⟨last, hlast⟩ := exists_assemble_plain hplain pending previous rest
    rw [hlast, following, map_eq_error_iff] at herror
    rw [← List.append_assoc]
    refine ih (hturn.append hplain.bounds_tokens) ?_ herror
    rw [openName?_append hplain.bounds_tokens, hopen]
    -- A plain statement leaves the open section with its name.
    cases pending <;> rfl

end Regular

/-! ## Texts -/

/-- A document is assembled from the tokens of an accepted text if the names of sections and the
closing braces take turns, and only then. Otherwise the complaint is about the first token that is
amiss, or else about the section that is open at the end, and a document that is assembled anew is
left without statements, whatever it held. -/
theorem TokenStream.nesting_of_checked {text : String} {tokens : List Token}
    (h : (ofText text).checked = .ok tokens) :
    ((∃ document, Document.ofTokens tokens = .ok document) ↔
        Alternating ((bounds tokens).map Token.kind)) ∧
      (¬ Alternating ((bounds tokens).map Token.kind) →
        ∃ error, Misnested tokens error ∧ Document.ofTokens tokens = .error error ∧
          ∀ held : Document, held.reassemble tokens = (.error error, .empty)) := by
  have hregular := regular_of_checked h
  have haccepted : (∃ document, Document.ofTokens tokens = .ok document) ↔
      Alternating ((bounds tokens).map Token.kind) := by
    refine Iff.trans ?_ (hregular.exists_assemble_iff none none)
    simp [ofTokens_eq_assemble, map_eq_ok_iff]
  refine ⟨haccepted, fun hnot ↦ ?_⟩
  cases hresult : Document.ofTokens tokens with
  | ok document => exact absurd (haccepted.mp ⟨document, hresult⟩) hnot
  | error error =>
    refine ⟨error, ?_, rfl, fun held ↦ ?_⟩
    · rw [ofTokens_eq_assemble] at hresult
      exact hregular.misnested inTurn_nil rfl (map_eq_error_iff.mp hresult)
    · rw [reassemble_eq, hresult]

/-- Braces in a comment and in a value are no tokens. A section is closed and another one named on
one line, and the second one is open at the end. -/
theorem TokenStream.nesting_of_checked_unclosed :
    ∃ tokens error, error = .structural 3 "end of section \"t\"" "end of file" ∧
      (ofText "# \x7d\ns \x7b k = \x7b # \x7d\n\x7d t \x7b").checked = .ok tokens ∧
      ¬ Alternating ((bounds tokens).map Token.kind) ∧ Misnested tokens error ∧
      Document.reassemble ⟨[.remark "old"]⟩ tokens = (.error error, .empty) := by
  let text := "# \x7d\ns \x7b k = \x7b # \x7d\n\x7d t \x7b"
  have hchecked : (ofText text).checked = .ok (ofText text).tokens := by decide
  have hresult : Document.ofTokens (ofText "# \x7d\ns \x7b k = \x7b # \x7d\n\x7d t \x7b").tokens =
      .error (.structural 3 "end of section \"t\"" "end of file") := by
    have hname : "end of section " ++ quoted "t" = "end of section \"t\"" := by decide +kernel
    rw [← hname]
    rfl
  obtain ⟨haccepted, hrefused⟩ := nesting_of_checked hchecked
  have hnot : ¬ Alternating ((bounds (ofText text).tokens).map Token.kind) := by
    rw [← haccepted, hresult]
    rintro ⟨document, hok⟩
    cases hok
  obtain ⟨error, hmisnested, herror, hheld⟩ := hrefused hnot
  exact ⟨_, error, (Except.error.inj (hresult.symm.trans herror)).symm, hchecked, hnot, hmisnested,
    hheld ⟨[.remark "old"]⟩⟩

end SectionedConfig
