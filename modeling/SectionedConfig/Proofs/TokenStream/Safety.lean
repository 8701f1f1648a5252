import SectionedConfig.Proofs.Document.Decoding
import SectionedConfig.Proofs.Document.Flattening
import SectionedConfig.Proofs.Registry.FlatDecoding
import SectionedConfig.Proofs.TokenStream.Failure
import SectionedConfig.Proofs.TokenStream.Nesting

/-!
# What can go wrong behind the lexer

Rendering, decoding and assembling take any tokens, and each has complaints about tokens out of
order. The tokens of an accepted text are in order, so these complaints cannot be met there. All
that is left are integers that cannot be read, values of the wrong kind for a slot, and sections
that are nested, not open, or not closed. Everything follows by induction on the order of the
tokens, whatever they say.
-/

namespace SectionedConfig

open Assignment Layout Text

variable {tokens : List Token} {error : Error}

/-! ## Rendering -/

theorem Layout.Writes.exists_textFrom {cursor after : Cursor} {front rest : List Token}
    {text : List Char} (h : Writes cursor front text after)
    (hrest : ∃ later, textFrom after rest = .ok later) :
    ∃ written, textFrom cursor (front ++ rest) = .ok written := by
  obtain ⟨later, hlater⟩ := hrest
  refine ⟨text ++ later, ?_⟩
  rw [h, hlater]
  rfl

namespace Regular

theorem exists_textFrom (h : Regular tokens) (cursor : Cursor) :
    ∃ text, textFrom cursor tokens = .ok text := by
  induction h generalizing cursor with
  | stop hkind =>
    refine ⟨[], ?_⟩
    rw [textFrom, if_pos hkind]
  | start hkind _ ih =>
    obtain ⟨text, hwrites⟩ := exists_writes_singleton (by rw [hkind]; rfl) cursor
    exact hwrites.exists_textFrom (ih _)
  | @opening name brace _ hname hbrace _ ih =>
    obtain ⟨text, after, hwrites⟩ : ∃ text after, Writes cursor [name, brace] text after := by
      apply exists_writes
      simp [hname, hbrace, isSettled]
    exact hwrites.exists_textFrom (ih after)
  | closing hbrace _ ih =>
    obtain ⟨text, hwrites⟩ := exists_writes_singleton (by rw [hbrace]; rfl) cursor
    exact hwrites.exists_textFrom (ih _)
  | statement hplain _ ih =>
    obtain ⟨text, after, hwrites⟩ := exists_writes_tokens hplain cursor
    exact hwrites.exists_textFrom (ih after)

theorem exists_render (h : Regular tokens) : ∃ text, render tokens = .ok text := by
  obtain ⟨text, htext⟩ := h.exists_textFrom .start
  exact ⟨String.ofList text, by rw [render, htext]; rfl⟩

end Regular

/-! ## Decoding -/

namespace Token

/-- The tokens that hold values. -/
def values (tokens : List Token) : List Token :=
  tokens.filter fun token ↦ token.kind.isValue

theorem values_cons_of_isValue {token : Token} (h : token.kind.isValue = true)
    (rest : List Token) : values (token :: rest) = token :: values rest :=
  List.filter_cons_of_pos h

theorem values_cons_of_not_isValue {token : Token} (h : token.kind.isValue = false)
    (rest : List Token) : values (token :: rest) = values rest :=
  List.filter_cons_of_neg (by simp [h])

end Token

/-- A plain statement holds the value of its assignment and no other one. -/
theorem Statement.IsPlain.values_tokens_append {statement : Statement} (h : statement.IsPlain)
    (enclosing : Option String) (rest : List Token) :
    Token.values (statement.tokens ++ rest) =
      (statement.assignments enclosing).map Assignment.value ++ Token.values rest := by
  cases h with
  | newline hkind => exact Token.values_cons_of_not_isValue (by rw [hkind]; rfl) rest
  | comment hmark htext =>
    simp only [Statement.tokens, List.cons_append, List.nil_append]
    rw [Token.values_cons_of_not_isValue (by rw [hmark]; rfl),
      Token.values_cons_of_not_isValue (by rw [htext]; rfl)]
    rfl
  | assignment hkey hsign hvalue =>
    simp only [Statement.tokens, List.cons_append, List.nil_append]
    rw [Token.values_cons_of_not_isValue (by rw [hkey]; rfl),
      Token.values_cons_of_not_isValue (by rw [hsign]; rfl), Token.values_cons_of_isValue hvalue]
    rfl

/-- A walk over tokens in order has no fault, and it finds an assignment for each of the values. -/
theorem Regular.exists_walkFrom (h : Regular tokens) (enclosing : Option String)
    (previous : Option Token) :
    ∃ found, walkFrom enclosing previous tokens = ⟨found, none⟩ ∧
      Token.values tokens = found.map Assignment.value := by
  induction h generalizing enclosing previous with
  | stop hkind =>
    refine ⟨[], ?_, ?_⟩
    · rw [walkFrom, hkind]
    · exact Token.values_cons_of_not_isValue (by rw [hkind]; rfl) []
  | @start token rest hkind _ ih =>
    obtain ⟨found, hwalk, hvalues⟩ := ih enclosing (some token)
    refine ⟨found, ?_, ?_⟩
    · rw [walkFrom, hkind]
      exact hwalk
    · rw [Token.values_cons_of_not_isValue (by rw [hkind]; rfl), hvalues]
  | @opening name brace rest hname hbrace _ ih =>
    obtain ⟨found, hwalk, hvalues⟩ := ih (some name.value) (some brace)
    refine ⟨found, ?_, ?_⟩
    · simp only [walkFrom, hname, hbrace]
      exact hwalk
    · rw [Token.values_cons_of_not_isValue (by rw [hname]; rfl),
        Token.values_cons_of_not_isValue (by rw [hbrace]; rfl), hvalues]
  | @closing brace rest hbrace _ ih =>
    obtain ⟨found, hwalk, hvalues⟩ := ih none (some brace)
    refine ⟨found, ?_, ?_⟩
    · rw [walkFrom, hbrace]
      exact hwalk
    · rw [Token.values_cons_of_not_isValue (by rw [hbrace]; rfl), hvalues]
  | @statement statement rest hplain _ ih =>
    obtain ⟨last, hlast⟩ := hplain.exists_walkFrom enclosing previous rest
    obtain ⟨found, hwalk, hvalues⟩ := ih enclosing last
    refine ⟨statement.assignments enclosing ++ found, ?_, ?_⟩
    · rw [hlast, hwalk]
      rfl
    · rw [hplain.values_tokens_append enclosing, List.map_append, hvalues]

theorem Regular.exists_walk (h : Regular tokens) :
    ∃ found, walk tokens = ⟨found, none⟩ ∧ Token.values tokens = found.map Assignment.value :=
  h.exists_walkFrom none none

namespace Assignment

/-- An assignment makes an entry if its value can be read, and only then. -/
theorem exists_entry_iff {assignment : Assignment} :
    (∃ entry, assignment.entry = .ok entry) ↔ Readable [assignment.value] := by
  constructor
  · rintro ⟨entry, hentry⟩ token htoken hkind
    obtain rfl := List.mem_singleton.mp htoken
    rw [Assignment.entry, if_pos hkind] at hentry
    obtain ⟨number, hnumber, _⟩ := map_eq_ok_iff.mp hentry
    exact (integer_eq_ok_iff.mp hnumber).isInt64
  · exact fun h ↦ exists_entry h List.mem_cons_self

/-- The error is that of the first integer among the tokens that cannot be read, as the value of an
assignment. -/
def FirstUnreadable (tokens : List Token) (error : Error) : Prop :=
  ∃ before bad after, tokens = before ++ bad :: after ∧ Readable before ∧ ¬ Readable [bad] ∧
    ∃ assignment ∈ (walk tokens).found, assignment.value = bad ∧
      error = .invalidInteger assignment.composedKey bad.value bad.line

end Assignment

namespace Regular

theorem firstUnreadable (h : Regular tokens) (herror : ConfigMap.ofTokens tokens = .error error) :
    FirstUnreadable tokens error := by
  obtain ⟨found, htokens, hvalues⟩ := h.exists_walk
  rw [ConfigMap.ofTokens, htokens, Walk.traverse_of_faultless, map_eq_error_iff] at herror
  obtain ⟨earlier, bad, later, rfl, hearlier, hbad⟩ := mapM_eq_error_iff.mp herror
  -- The values in front of the bad one are those of the assignments in front of its assignment.
  rw [List.map_append, List.map_cons] at hvalues
  obtain ⟨front, back, rfl, hfront, hback⟩ := List.filter_eq_append_iff.mp hvalues
  obtain ⟨gap, after, rfl, hgap, -, -⟩ := List.filter_eq_cons_iff.mp hback
  have hnone : ¬ Readable [bad.value] := by
    rw [← exists_entry_iff, hbad]
    rintro ⟨entry, hentry⟩
    cases hentry
  refine ⟨front ++ gap, bad.value, after, by simp, fun token htoken hkind ↦ ?_, hnone, bad, ?_, rfl,
    eq_invalidInteger_of_entry hbad⟩
  · rcases List.mem_append.mp htoken with htoken | htoken
    · have hvalue : token ∈ earlier.map Assignment.value := by
        rw [← hfront]
        exact List.mem_filter.mpr ⟨htoken, by rw [hkind]; rfl⟩
      obtain ⟨assignment, hassignment, rfl⟩ := List.mem_map.mp hvalue
      exact exists_entry_iff.mp (hearlier assignment hassignment) _ List.mem_cons_self hkind
    · exact absurd (by rw [hkind]; rfl) (hgap token htoken)
  · rw [htokens]
    exact List.mem_append_right earlier List.mem_cons_self

/-- Tokens in order make up a flat map if all of their integers can be read, and only then. -/
theorem exists_ofTokens_iff (h : Regular tokens) :
    (∃ map, ConfigMap.ofTokens tokens = .ok map) ↔ Readable tokens := by
  constructor
  · rintro ⟨map, hmap⟩ token htoken hkind
    obtain ⟨found, htokens, hvalues⟩ := h.exists_walk
    rw [ConfigMap.ofTokens, htokens, Walk.traverse_of_faultless, map_eq_ok_iff] at hmap
    obtain ⟨entries, hentries, _⟩ := hmap
    have hvalue : token ∈ found.map Assignment.value := by
      rw [← hvalues]
      exact List.mem_filter.mpr ⟨htoken, by rw [hkind]; rfl⟩
    obtain ⟨assignment, hassignment, rfl⟩ := List.mem_map.mp hvalue
    obtain ⟨entry, _, hentry⟩ := exists_mem_of_mapM hentries hassignment
    exact exists_entry_iff.mp ⟨entry, hentry⟩ _ List.mem_cons_self hkind
  · intro hread
    cases hmap : ConfigMap.ofTokens tokens with
    | ok map => exact ⟨map, rfl⟩
    | error error =>
      obtain ⟨before, bad, after, rfl, -, hbad, -⟩ := h.firstUnreadable hmap
      rw [Readable, List.forall_mem_append, List.forall_mem_cons] at hread
      exact absurd (List.forall_mem_singleton.mpr hread.2.1) hbad

end Regular

/-! ## Decoding into a target -/

variable {Target : Type} {registry : Registry Target} {hints : Hints} {target : Target}

/-- Tokens in order are refused by a registry for an integer that cannot be read, or for the kind of
a value. -/
theorem Regular.eq_of_decode_eq_error (h : Regular tokens)
    (herror : (registry.decode hints tokens target).1 = .error error) :
    (∃ key value line, error = .invalidInteger key value line) ∨
      ∃ sectionName field expected found,
        error = .typeMismatch sectionName field expected found := by
  obtain ⟨found, htokens, _⟩ := h.exists_walk
  rw [Registry.fst_decode, map_eq_error_iff] at herror
  have hfault : (walk tokens).fault = none := by rw [htokens]
  obtain ⟨assignment, _, hupdate⟩ := Walk.exists_of_traverse_eq_error hfault herror
  obtain ⟨slot, _, hconvert⟩ := Registry.update?_eq_error hupdate
  rcases Slot.convert_eq_error_iff.mp hconvert with ⟨_, rfl⟩ | ⟨_, _, _, rfl⟩
  · exact .inr ⟨_, _, _, _, rfl⟩
  · exact .inl ⟨_, _, _, rfl⟩

/-! ## Assembling -/

namespace Document

/-- A complaint about opening or closing one of the sections that the tokens name. -/
inductive NestingError (tokens : List Token) : Error → Prop where
  /-- A section is named while another one is open. -/
  | inner {name around : Token} (hname : name ∈ tokens) (hkind : name.kind = .sectionName)
      (haround : around ∈ tokens) (hkind' : around.kind = .sectionName) :
      NestingError tokens (.structural name.line ("end of section " ++ quoted around.value)
        TokenKind.sectionName.name)
  /-- A section is closed while none is open. -/
  | unopened {brace : Token} (hbrace : brace ∈ tokens) (hkind : brace.kind = .sectionEnd) :
      NestingError tokens (.structural brace.line "open section" TokenKind.sectionEnd.name)
  /-- A section is still open at the end. -/
  | unclosed {around : Token} (haround : around ∈ tokens) (hkind : around.kind = .sectionName) :
      NestingError tokens (.structural around.line ("end of section " ++ quoted around.value)
        TokenKind.endOfFile.name)

/-- Complaints about the nesting of sections are structural. -/
theorem NestingError.exists_structural (h : NestingError tokens error) :
    ∃ line expected found, error = .structural line expected found := by
  cases h with
  | inner | unopened | unclosed => exact ⟨_, _, _, rfl⟩

end Document

open Document

/-- What is wrong with the nesting of tokens is wrong with the sections that they name. -/
theorem Misnested.nestingError {all : List Token} (h : Misnested tokens error)
    (hall : tokens ⊆ all) : NestingError all error := by
  cases h with
  | inner htokens _ hkind hopen =>
    subst htokens
    obtain ⟨hbefore, hname⟩ := List.append_subset.mp hall
    obtain ⟨haround, hkind'⟩ := Token.mem_of_openName?_eq_some hopen
    exact .inner (hname List.mem_cons_self) hkind (hbefore haround) hkind'
  | unopened htokens _ hkind _ =>
    subst htokens
    exact .unopened ((List.append_subset.mp hall).2 List.mem_cons_self) hkind
  | unclosed _ hopen =>
    obtain ⟨haround, hkind⟩ := Token.mem_of_openName?_eq_some hopen
    exact .unclosed (hall haround) hkind

/-- Tokens in order are refused by the assembly for the nesting of their sections. -/
theorem Regular.nestingError {all : List Token} {pending : Option Pending}
    {previous : Option Token} (h : Regular tokens) (hall : tokens ⊆ all)
    (hpending : ∀ around ∈ pending, around.name ∈ all ∧ around.name.kind = .sectionName)
    (herror : assemble pending previous tokens = .error error) : NestingError all error := by
  cases pending with
  | none => exact (h.misnested Token.inTurn_nil rfl herror).nestingError hall
  | some around =>
    obtain ⟨hname, hkind⟩ := hpending around rfl
    -- The name of the section that is open stands in front of the tokens.
    have hturn : Token.InTurn [around.name] :=
      Token.inTurn_nil.concat (by simp [Token.IsAmiss, hkind, Token.openName?, Token.bounds])
    have hopen : Token.openName? [around.name] = (some around).map Pending.name :=
      Token.openName?_append_name (Token.bounds_cons_of_pos (.inl hkind) []) hkind []
    exact (h.misnested hturn hopen herror).nestingError (List.cons_subset.mpr ⟨hname, hall⟩)

/-! ## Texts -/

theorem TokenStream.ofText_of_checked {text : String}
    (h : (ofText text).checked = .ok tokens) :
    ConfigMap.ofText text = ConfigMap.ofTokens tokens := by
  rw [ConfigMap.ofText, ConfigMap.ofStream, h]
  rfl

/-- The failure that ends the tokens of a text is that of a line. -/
theorem TokenStream.exists_lexical_of_checked {text : String}
    (h : (ofText text).checked = .error error) :
    ∃ line offset reason, error = .lexical line offset reason := by
  rcases faultless_or_firstFault text with hnone | ⟨before, line, fault, hfirst⟩
  · rw [checked_of_faultless hnone] at h
    cases h
  · rw [hfirst.checked_eq] at h
    exact ⟨_, _, _, (Except.error.inj h).symm⟩

/-- The tokens of an accepted text can be rendered. They are decoded if all integers can be read,
and else refused for the first one that cannot. A registry refuses them for an integer or for the
kind of a value, and assembling for the nesting of the sections. A text is refused for one of its
lines or for an integer. -/
theorem TokenStream.errors_of_checked (text : String) :
    (∀ tokens, (ofText text).checked = .ok tokens →
      (∃ rendered, render tokens = .ok rendered) ∧
        ((∃ map, ConfigMap.ofTokens tokens = .ok map) ↔ Readable tokens) ∧
        (∀ error, ConfigMap.ofTokens tokens = .error error → FirstUnreadable tokens error) ∧
        (∀ (Target : Type) (registry : Registry Target) (hints : Hints) (target : Target)
            (error : Error), (registry.decode hints tokens target).1 = .error error →
            (∃ key value line, error = .invalidInteger key value line) ∨
              ∃ sectionName key expected found,
                error = .typeMismatch sectionName key expected found) ∧
        ∀ error, Document.ofTokens tokens = .error error → NestingError tokens error) ∧
      ∀ error, ConfigMap.ofText text = .error error →
        (∃ line offset reason, error = .lexical line offset reason) ∨
          ∃ key value line, error = .invalidInteger key value line := by
  constructor
  · intro tokens hchecked
    have hregular := regular_of_checked hchecked
    refine ⟨hregular.exists_render, hregular.exists_ofTokens_iff, fun error ↦
      hregular.firstUnreadable, fun Target registry hints target error ↦
      hregular.eq_of_decode_eq_error, fun error herror ↦ ?_⟩
    rw [ofTokens_eq_assemble] at herror
    have hassemble : assemble none none tokens = .error error := map_eq_error_iff.mp herror
    exact hregular.nestingError (List.Subset.refl tokens) (by simp) hassemble
  · intro error herror
    cases hchecked : (ofText text).checked with
    | ok tokens =>
      rw [ofText_of_checked hchecked] at herror
      obtain ⟨_, bad, _, _, _, _, assignment, _, _, rfl⟩ :=
        (regular_of_checked hchecked).firstUnreadable herror
      exact .inr ⟨assignment.composedKey, bad.value, bad.line, rfl⟩
    | error fault =>
      rw [ConfigMap.ofText, ConfigMap.ofStream, hchecked] at herror
      obtain rfl := Except.error.inj herror
      exact .inl (exists_lexical_of_checked hchecked)

/-- A section stands inside another one, neither is closed, and the first of two bare values is no
integer. The text is accepted, and its tokens are refused for the integer by either kind of decoding
and for the inner section by the assembly. -/
theorem TokenStream.errors_of_checked_nested :
    ∃ (text : String) (tokens : List Token) (registry : Registry Table),
      text = "s \x7b\n\tn = 1x # \"\nt \x7b\nm = 2y" ∧ (ofText text).checked = .ok tokens ∧
      (∃ rendered, render tokens = .ok rendered) ∧ ¬ Readable tokens ∧
      FirstUnreadable tokens (.invalidInteger "s/n" "1x" 2) ∧
      (∃ error, (registry.decode .empty tokens .blank).1 = .error error ∧
        ((∃ key value line, error = .invalidInteger key value line) ∨
          ∃ sectionName key expected found,
            error = .typeMismatch sectionName key expected found)) ∧
      NestingError tokens (.structural 3 "end of section \"s\"" "section") ∧
      ∃ error, ConfigMap.ofText text = .error error ∧
        ((∃ line offset reason, error = .lexical line offset reason) ∨
          ∃ key value line, error = .invalidInteger key value line) := by
  let text := "s \x7b\n\tn = 1x # \"\nt \x7b\nm = 2y"
  let registry : Registry Table := Index.empty.insert ⟨"s", "n"⟩ (Table.slot .string (0, 0))
  have hchecked : (ofText text).checked = .ok (ofText text).tokens := by decide
  have hmap : ConfigMap.ofTokens (ofText text).tokens =
      .error (.invalidInteger "s/n" "1x" 2) := by
    decide
  have hdecode : (registry.decode .empty (ofText text).tokens .blank).1 =
      .error (.typeMismatch "s" "n" "string" "int64") := by
    decide +kernel
  have hassemble : Document.ofTokens (ofText "s \x7b\n\tn = 1x # \"\nt \x7b\nm = 2y").tokens =
      .error (nested 3 "s") :=
    rfl
  have hmessage : nested 3 "s" = .structural 3 "end of section \"s\"" "section" := by
    decide +kernel
  rw [hmessage] at hassemble
  have htext : ConfigMap.ofText text = .error (.invalidInteger "s/n" "1x" 2) := by decide
  obtain ⟨haccepted, hrefused⟩ := errors_of_checked text
  obtain ⟨hrender, hread, hfirst, hkinds, hnesting⟩ := haccepted _ hchecked
  have hunreadable : ¬ Readable (ofText text).tokens := by
    rw [← hread, hmap]
    rintro ⟨map, hok⟩
    cases hok
  exact ⟨text, _, registry, rfl, hchecked, hrender, hunreadable, hfirst _ hmap,
    ⟨_, hdecode, hkinds Table registry .empty .blank _ hdecode⟩, hnesting _ hassemble,
    ⟨_, htext, hrefused _ htext⟩⟩

end SectionedConfig
