import SectionedConfig.Proofs.TokenStream.Likeness
import SectionedConfig.Proofs.TokenStream.Marks

/-!
# Comments say nothing

What stands behind the number sign of a comment, up to the end of its line, can be exchanged for
anything on one line, whatever marks it contains. The text is accepted if it was before, its tokens
differ in the texts of the comments and in offsets, and the same is decoded from it.
-/

namespace SectionedConfig

open Text

/-- What stands behind `before` in a text with these tokens, with other texts in its comments. -/
inductive Recommented (tokens : List Token) : List Char → List Char → List Char → Prop where
  | stop {before : List Char} : Recommented tokens before [] []
  | keep {before rest rest' : List Char} {c : Char}
      (hrest : Recommented tokens (before ++ [c]) rest rest') :
      Recommented tokens before (c :: rest) (c :: rest')
  | comment {before body body' rest rest' : List Char} {token : Token} (htoken : token ∈ tokens)
      (hkind : token.kind = .comment) (hoffset : token.offset = byteSize before)
      (hbody : '\n' ∉ body) (hbody' : '\n' ∉ body') (hend : StartsAtFeed rest)
      (hrest : Recommented tokens (before ++ '#' :: body) rest rest') :
      Recommented tokens before ('#' :: body ++ rest) ('#' :: body' ++ rest')

/-- A token that says nothing if it is the text of a comment. -/
def Token.withoutRemark (token : Token) : Token :=
  if token.kind = .commentText then { token with value := "" } else token

/-! ## Tokens without the texts of comments -/

namespace Token

theorem kind_withoutRemark (token : Token) : token.withoutRemark.kind = token.kind := by
  unfold withoutRemark
  split <;> rfl

theorem line_withoutRemark (token : Token) : token.withoutRemark.line = token.line := by
  unfold withoutRemark
  split <;> rfl

theorem withoutRemark_of_ne {token : Token} (h : token.kind ≠ .commentText) :
    token.withoutRemark = token :=
  if_neg h

end Token

namespace Assignment

/-- Neither a key nor a value is the text of a comment. -/
theorem around_withoutRemark (enclosing : Option String) (previous : Option Token) (sign : Token)
    (next : Option Token) :
    around enclosing (previous.map Token.withoutRemark) sign.withoutRemark
        (next.map Token.withoutRemark) =
      around enclosing previous sign next := by
  cases previous with
  | none => simp only [around, Option.map_none, Token.line_withoutRemark]
  | some key =>
    simp only [around, Option.map_some, Token.kind_withoutRemark, Token.line_withoutRemark]
    split
    next hkey =>
      rw [Token.withoutRemark_of_ne (by simp [hkey])]
      cases next with
      | none => rfl
      | some value =>
        simp only [Option.map_some, Token.kind_withoutRemark]
        split
        next hvalue =>
          have hne : value.kind ≠ .commentText := by
            rintro hkind
            rw [hkind] at hvalue
            cases hvalue
          rw [Token.withoutRemark_of_ne hne]
        next => rfl
    next => rfl

/-- The walk over tokens passes the texts of comments. -/
theorem walkFrom_map_withoutRemark (enclosing : Option String) (previous : Option Token)
    (tokens : List Token) :
    walkFrom enclosing (previous.map Token.withoutRemark) (tokens.map Token.withoutRemark) =
      walkFrom enclosing previous tokens := by
  induction tokens generalizing enclosing previous with
  | nil => rfl
  | cons token rest ih =>
    have hnext (enclosing : Option String) := ih enclosing (some token)
    rw [Option.map_some] at hnext
    rw [List.map_cons, walkFrom, walkFrom, Token.kind_withoutRemark, List.head?_map,
      around_withoutRemark]
    by_cases hkind : token.kind = .commentText
    · simp only [hkind]
      exact hnext enclosing
    · have hsame : token.withoutRemark = token := Token.withoutRemark_of_ne hkind
      rw [hsame] at hnext ⊢
      simp only [hnext]

end Assignment

theorem isLikeness_withoutRemark : IsLikeness Lexeme.withoutRemark Token.withoutRemark where
  onLine := by
    intro lexeme number
    rw [Lexeme.withoutRemark, apply_ite (Lexeme.onLine number)]
    rfl
  startOfFile := rfl
  endOfFile := rfl
  walk := Assignment.walkFrom_map_withoutRemark none none

/-! ## Texts -/

variable {text : String} {before rest rest' : List Char}

theorem Recommented.startsAtFeed {tokens : List Token} (h : Recommented tokens before rest rest')
    (hrest : StartsAtFeed rest) : StartsAtFeed rest' := by
  cases h with
  | stop => exact hrest
  | keep => exact hrest.imp nofun id
  | comment => rcases hrest with hrest | hrest <;> cases hrest

/-- Other texts in the comments change nothing else that the lines come to. -/
theorem Recommented.lineOutcomes_eq
    (h : Recommented (TokenStream.ofText text).tokens before rest rest')
    (htext : text.toList = before ++ rest) :
    lineOutcomes Lexeme.withoutRemark (before ++ rest) =
      lineOutcomes Lexeme.withoutRemark (before ++ rest') := by
  induction h with
  | stop => rfl
  | keep _ ih => simpa using ih (by simpa using htext)
  | @comment before body body' rest rest' token htoken hkind hoffset hbody hbody' hend hrest ih =>
    have hmark : token.kind.isMark = true := by rw [hkind]; rfl
    obtain ⟨earlier, front, mark, after, hplace, hsize, hearlier, hfront, hmark⟩ :=
      TokenStream.exists_markAt htoken hmark
    obtain ⟨rfl, _⟩ := eq_of_byteSize_eq (htext.symm.trans hplace) (hoffset.symm.trans hsize)
    rw [hkind] at hmark
    have hremark := hmark.remarkFront
    have hlater := hrest.startsAtFeed hend
    have hcontent {body : List Char} (hbody : '\n' ∉ body) : '\n' ∉ front ++ '#' :: body := by
      simp [hfront, hbody]
    have hline := lineOutcomes_congr hearlier (hcontent hbody) (hcontent hbody') hlater
      (fun _ ↦ by simp) (fun _ ↦ Segments.lineOutcome_append_remark hremark body body')
    calc
      lineOutcomes Lexeme.withoutRemark (earlier ++ front ++ ('#' :: body ++ rest)) =
          lineOutcomes Lexeme.withoutRemark (earlier ++ front ++ '#' :: body ++ rest) := by simp
      _ = lineOutcomes Lexeme.withoutRemark (earlier ++ front ++ '#' :: body ++ rest') :=
        ih (by simpa using htext)
      _ = lineOutcomes Lexeme.withoutRemark (earlier ++ (front ++ '#' :: body ++ rest')) := by simp
      _ = lineOutcomes Lexeme.withoutRemark (earlier ++ (front ++ '#' :: body' ++ rest')) := hline
      _ = lineOutcomes Lexeme.withoutRemark (earlier ++ front ++ ('#' :: body' ++ rest')) := by simp

/-- Texts read alike, but for the texts of comments among their tokens, if one of them is the other
with other texts in its comments. -/
theorem readsAlike_of_recommented {text text' : String}
    (h : Recommented (TokenStream.ofText text).tokens [] text.toList text'.toList) :
    ReadsAlike (fun token ↦ token.withoutOffset.withoutRemark) text text' :=
  isLikeness_withoutRemark.readsAlike (h.lineOutcomes_eq rfl)

/-- A comment behind a string and one on a line of its own, with marks and open quotation marks and
brackets put into them. -/
theorem readsAlike_of_recommented_marks :
    Recommented (TokenStream.ofText "k=\"v\"#x\n#").tokens [] "k=\"v\"#x\n#".toList
        "k=\"v\"#\"=[\x7b#\n#\x7d\"".toList ∧
      ReadsAlike (fun token ↦ token.withoutOffset.withoutRemark) "k=\"v\"#x\n#"
        "k=\"v\"#\"=[\x7b#\n#\x7d\"" ∧
      ConfigMap.ofText "k=\"v\"#\"=[\x7b#\n#\x7d\"" = .ok (.ofList [("k", .string "v")]) := by
  have hrecommented : Recommented (TokenStream.ofText "k=\"v\"#x\n#").tokens []
      "k=\"v\"#x\n#".toList "k=\"v\"#\"=[\x7b#\n#\x7d\"".toList := by
    have hold : "k=\"v\"#x\n#".toList = ['k', '=', '"', 'v', '"', '#', 'x', '\n', '#'] := rfl
    have hnew : "k=\"v\"#\"=[\x7b#\n#\x7d\"".toList =
        ['k', '=', '"', 'v', '"', '#', '"', '=', '[', '{', '#', '\n', '#', '}', '"'] := rfl
    have htrailing : ⟨.comment, "#", some ⟨1, 5⟩, none, false⟩ ∈
        (TokenStream.ofText "k=\"v\"#x\n#").tokens := by decide
    have hfull : ⟨.comment, "#", some ⟨2, 8⟩, none, false⟩ ∈
        (TokenStream.ofText "k=\"v\"#x\n#").tokens := by decide
    rw [hold, hnew]
    refine .keep (.keep (.keep (.keep (.keep ?_))))
    refine @Recommented.comment _ _ ['x'] ['"', '=', '[', '{', '#'] _ _ _ htrailing rfl rfl
      (by decide) (by decide) (.inr rfl) (.keep ?_)
    exact @Recommented.comment _ _ [] ['}', '"'] _ _ _ hfull rfl rfl (by decide) (by decide)
      (.inl rfl) .stop
  have halike := readsAlike_of_recommented hrecommented
  have hchecked : (TokenStream.ofText "k=\"v\"#x\n#").checked =
      .ok (TokenStream.ofText "k=\"v\"#x\n#").tokens := by decide
  refine ⟨hrecommented, halike, ?_⟩
  rw [halike.config _ hchecked]
  decide

end SectionedConfig
