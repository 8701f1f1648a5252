import SectionedConfig.Proofs.Line.Ending
import SectionedConfig.Proofs.TokenStream

/-!
# Asking for tokens

A caller can ask a token stream for the next batch or for all that is left, in any order and as
often as it likes. Whatever it asks for, the answers put together are the tokens of the input from
the start on, and once these are used up each answer is the end of the file and nothing else. A
batch before the last one is the tokens of one line with the end of its statement behind them, and
the last one ends with the end of the file or a failure. So asking for batches until one of them
ends the input comes to an end, and gives what asking for all that is left gives at once.
-/

namespace SectionedConfig

open Text

/-! ## Batches in a row -/

/-- The token is the last one of an input. -/
def Token.IsFinal (token : Token) : Prop :=
  token.kind = .endOfFile ∨ token.kind = .failure

/-- The token stands neither at the start nor at the end of an input. -/
def Token.IsMiddle (token : Token) : Prop :=
  token.kind ≠ .startOfFile ∧ ¬ token.IsFinal

theorem Token.isMiddle_of_isOnLine {token : Token} (h : token.kind.isOnLine = true) :
    token.IsMiddle := by
  unfold IsMiddle IsFinal
  cases hkind : token.kind <;> simp [hkind, TokenKind.isOnLine] at h ⊢

theorem Token.isMiddle_of_endOfStatement {token : Token} (h : token.kind = .endOfStatement) :
    token.IsMiddle := by
  simp [IsMiddle, IsFinal, h]

/-- Each batch but the last is the tokens of a line with the end of its statement, and the last one
ends the input. `lead` are the tokens that open the first batch. -/
inductive Batch.InRows : List Token → List Batch → Prop where
  | last {lead front : List Token} {final : Token} {batch : Batch}
      (htokens : batch.tokens = lead ++ front ++ [final]) (hfront : ∀ token ∈ front, token.IsMiddle)
      (hfinal : final.IsFinal) : InRows lead [batch]
  | line {lead front : List Token} {stop : Token} {batch : Batch} {rest : List Batch}
      (htokens : batch.tokens = lead ++ front ++ [stop])
      (hfront : ∀ token ∈ front, token.kind.isOnLine = true) (hstop : stop.kind = .endOfStatement)
      (hrest : InRows [] rest) : InRows lead (batch :: rest)

namespace Batch

variable {lead : List Token} {batches : List Batch}

theorem inRows_ofLines (lead : List Token) (number offset : Nat) (lines : List LineRead) :
    InRows lead (ofLines lead number offset lines) := by
  -- The first batch may be the last one, and hold no line.
  have hsingle (lead : List Token) (final : Token) (number : Nat) (hfinal : final.IsFinal) :
      InRows lead [⟨lead ++ [final], number⟩] := by
    have htokens : lead ++ [final] = lead ++ [] ++ [final] := by
      rw [List.append_nil]
    exact .last htokens (by simp) hfinal
  induction lines generalizing lead number offset with
  | nil => exact hsingle lead .endOfFile number (.inl rfl)
  | cons read rest ih =>
    cases read with
    | error reason => exact hsingle lead (.ofError _) number (.inr rfl)
    | ok line =>
      have hmiddle : ∀ token ∈ line.scan.lexemes.map (Lexeme.toToken number offset),
          token.IsMiddle := by
        intro token htoken
        obtain ⟨lexeme, hlexeme, rfl⟩ := List.mem_map.mp htoken
        rcases Line.kind_of_mem_lexemes hlexeme with hkind | hkind
        · exact Token.isMiddle_of_isOnLine hkind
        · exact Token.isMiddle_of_endOfStatement hkind
      simp only [ofLines]
      cases hfault : line.scan.fault with
      | some fault => exact .last rfl hmiddle (.inr rfl)
      | none =>
        cases line.terminated with
        | true =>
          obtain ⟨front, stop, hline, hstop, hfront⟩ := line.exists_stop hfault number offset
          have htokens : lead ++ line.scan.lexemes.map (Lexeme.toToken number offset) =
              lead ++ front ++ [stop] := by
            rw [hline, List.append_assoc]
          exact .line htokens hfront hstop (ih [] _ _)
        | false => exact .last rfl hmiddle (.inl rfl)

namespace InRows

theorem ne_nil (h : InRows lead batches) : batches ≠ [] := by
  cases h <;> exact List.cons_ne_nil _ _

/-- Batches in rows hold one final token, and it is their last one. -/
theorem exists_tokens_eq (h : InRows lead batches) :
    ∃ middle final, batches.flatMap Batch.tokens = lead ++ middle ++ [final] ∧
      (∀ token ∈ middle, token.IsMiddle) ∧ final.IsFinal := by
  induction h with
  | @last lead front final batch htokens hfront hfinal =>
    refine ⟨front, final, ?_, hfront, hfinal⟩
    rw [List.flatMap_singleton, htokens]
  | @line lead front stop batch rest htokens hfront hstop _ ih =>
    obtain ⟨middle, final, hrest, hmiddle, hfinal⟩ := ih
    refine ⟨front ++ stop :: middle, final, ?_, ?_, hfinal⟩
    · rw [List.flatMap_cons, htokens, hrest]
      simp
    · rw [List.forall_mem_append, List.forall_mem_cons]
      exact ⟨fun token htoken ↦ Token.isMiddle_of_isOnLine (hfront token htoken),
        Token.isMiddle_of_endOfStatement hstop, hmiddle⟩

end InRows

end Batch

/-! ## Calls -/

/-- What a caller can ask a token stream for. -/
inductive Call where
  /-- The next batch. -/
  | batch
  /-- All tokens that are left. -/
  | rest
deriving DecidableEq

namespace TokenStream

/-- The answer to a call, and the stream after it. -/
def answer (stream : TokenStream) : Call → List Token × TokenStream
  | .batch => stream.nextBatch
  | .rest => stream.rest

/-- The answers to calls one after the other. -/
def answers (stream : TokenStream) : List Call → List (List Token)
  | [] => []
  | call :: later => (stream.answer call).1 :: (stream.answer call).2.answers later

/-- The stream after calls. -/
def after (stream : TokenStream) : List Call → TokenStream
  | [] => stream
  | call :: later => (stream.answer call).2.after later

/-- The tokens that have not been handed out. -/
def remaining (stream : TokenStream) : List Token :=
  stream.pending.flatMap Batch.tokens

variable {stream : TokenStream}

theorem after_concat (stream : TokenStream) (calls : List Call) (call : Call) :
    stream.after (calls ++ [call]) = ((stream.after calls).answer call).2 := by
  induction calls generalizing stream with
  | nil => rfl
  | cons first later ih => exact ih (stream.answer first).2

/-- Once nothing is left, nothing changes. -/
theorem answer_of_pending_eq_nil (h : stream.pending = []) (call : Call) :
    stream.answer call = ([.endOfFile], stream) := by
  cases call with
  | batch => rw [answer, nextBatch, h]
  | rest => rw [answer, rest, h]

theorem answers_of_pending_eq_nil (h : stream.pending = []) (calls : List Call) :
    stream.answers calls = calls.map fun _ ↦ [.endOfFile] := by
  induction calls with
  | nil => rfl
  | cons call later ih => rw [answers, answer_of_pending_eq_nil h, ih, List.map_cons]

theorem after_of_pending_eq_nil (h : stream.pending = []) (calls : List Call) :
    stream.after calls = stream := by
  induction calls with
  | nil => rfl
  | cons call later ih => rw [after, answer_of_pending_eq_nil h, ih]

/-- As long as something is left, an answer is taken from the front of it. -/
theorem remaining_eq_append (h : stream.pending ≠ []) (call : Call) :
    stream.remaining = (stream.answer call).1 ++ (stream.answer call).2.remaining := by
  obtain ⟨pending, number⟩ := stream
  cases pending with
  | nil => exact absurd rfl h
  | cons batch others =>
    cases call with
    | batch => exact List.flatMap_cons
    | rest => simp [answer, rest, remaining]

/-- The answers to the first calls are taken from what is left, and if there are later calls nothing
is left for them. -/
theorem exists_answers_eq (stream : TokenStream) (calls : List Call) :
    ∃ used late, calls = used ++ late ∧
      stream.answers calls = stream.answers used ++ late.map (fun _ ↦ [.endOfFile]) ∧
      (stream.answers used).flatten ++ (stream.after calls).remaining = stream.remaining ∧
      (late = [] ∨ (stream.after calls).pending = []) := by
  induction calls generalizing stream with
  | nil => exact ⟨[], [], rfl, rfl, rfl, .inl rfl⟩
  | cons call later ih =>
    by_cases hpending : stream.pending = []
    · refine ⟨[], call :: later, rfl, answers_of_pending_eq_nil hpending _, ?_, .inr ?_⟩
      · rw [after_of_pending_eq_nil hpending]
        rfl
      · rw [after_of_pending_eq_nil hpending, hpending]
    · obtain ⟨used, late, rfl, hanswers, hremaining, hlate⟩ := ih (stream.answer call).2
      refine ⟨call :: used, late, rfl, ?_, ?_, hlate⟩
      · rw [answers, hanswers, answers, List.cons_append]
      · rw [answers, List.flatten_cons, List.append_assoc, after, hremaining,
          ← remaining_eq_append hpending]

/-! ## What is left -/

/-- What is left of an input: nothing, or batches in rows. -/
def IsSound (stream : TokenStream) : Prop :=
  stream.pending = [] ∨ ∃ lead, (∀ token ∈ lead, token.kind = .startOfFile) ∧
    Batch.InRows lead stream.pending

theorem isSound_ofLines (lines : List LineRead) : (ofLines lines).IsSound :=
  .inr ⟨[Batch.startOfFile], by simp [Batch.startOfFile], Batch.inRows_ofLines _ 1 0 lines⟩

theorem IsSound.answer (h : stream.IsSound) (call : Call) : (stream.answer call).2.IsSound := by
  rcases h with hpending | ⟨lead, hlead, hrows⟩
  · rw [answer_of_pending_eq_nil hpending]
    exact .inl hpending
  · obtain ⟨pending, number⟩ := stream
    cases call with
    | rest =>
      cases hrows <;> exact .inl rfl
    | batch =>
      cases hrows with
      | last => exact .inl rfl
      | line _ _ _ hrest => exact .inr ⟨[], by simp, hrest⟩

theorem IsSound.after (h : stream.IsSound) (calls : List Call) : (stream.after calls).IsSound := by
  induction calls generalizing stream with
  | nil => exact h
  | cons call later ih => exact ih (h.answer call)

/-- A batch behind which something is left holds the end of one statement, and it is the last
token. -/
theorem IsSound.exists_stop (h : stream.IsSound) (hnext : stream.nextBatch.2.pending ≠ []) :
    ∃ front stop, stream.nextBatch.1 = front ++ [stop] ∧ stop.kind = .endOfStatement ∧
      ∀ token ∈ front, token.kind ≠ .endOfStatement := by
  obtain ⟨pending, number⟩ := stream
  rcases h with rfl | ⟨lead, hlead, hrows⟩
  · exact absurd rfl hnext
  · cases hrows with
    | last => exact absurd rfl hnext
    | @line _ front stop batch rest htokens hfront hstop _ =>
      refine ⟨lead ++ front, stop, htokens, hstop, List.forall_mem_append.mpr ⟨?_, ?_⟩⟩
      · intro token htoken
        simp [hlead token htoken]
      · intro token htoken hkind
        simpa [hkind, TokenKind.isOnLine] using hfront token htoken

/-! ## Asking for batches to the end -/

/-- Asking for batches until one of them ends the input gives the tokens, and leaves the stream. -/
inductive Drains : TokenStream → List Token × TokenStream → Prop where
  | last {stream : TokenStream} (h : ∃ token ∈ stream.nextBatch.1, token.IsFinal) :
      Drains stream stream.nextBatch
  | next {stream after : TokenStream} {tokens : List Token}
      (h : ∀ token ∈ stream.nextBatch.1, ¬ token.IsFinal)
      (hrest : Drains stream.nextBatch.2 (tokens, after)) :
      Drains stream (stream.nextBatch.1 ++ tokens, after)

/-- Asking for all that is left is asking for a batch, and then for all that is left. -/
theorem rest_cons (batch : Batch) {others : List Batch} (h : others ≠ []) (number : Nat) :
    rest ⟨batch :: others, number⟩ =
      (batch.tokens ++ (rest ⟨others, batch.line⟩).1, (rest ⟨others, batch.line⟩).2) := by
  cases others with
  | nil => exact absurd rfl h
  | cons second more => simp [rest, List.getLast?_cons]

theorem drains_of_inRows {lead : List Token} {batches : List Batch}
    (hlead : ∀ token ∈ lead, token.kind = .startOfFile) (h : Batch.InRows lead batches)
    (number : Nat) : Drains ⟨batches, number⟩ (rest ⟨batches, number⟩) := by
  induction h generalizing number with
  | @last lead front final batch htokens _ hfinal =>
    have hrest : rest ⟨[batch], number⟩ = nextBatch ⟨[batch], number⟩ := by
      simp [rest, nextBatch]
    rw [hrest]
    have hmem : final ∈ batch.tokens := by
      rw [htokens]
      exact List.mem_append_right _ List.mem_cons_self
    exact .last ⟨final, hmem, hfinal⟩
  | @line lead front stop batch others htokens hfront hstop hrows ih =>
    have hmiddle : ∀ token ∈ batch.tokens, ¬ token.IsFinal := by
      rw [htokens, List.forall_mem_append, List.forall_mem_append]
      refine ⟨⟨?_, ?_⟩, ?_⟩
      · intro token htoken
        simp [Token.IsFinal, hlead token htoken]
      · exact fun token htoken ↦ (Token.isMiddle_of_isOnLine (hfront token htoken)).2
      · exact List.forall_mem_singleton.mpr (Token.isMiddle_of_endOfStatement hstop).2
    have hdrains : Drains ⟨others, batch.line⟩ (rest ⟨others, batch.line⟩) :=
      ih (by simp) batch.line
    rw [rest_cons batch hrows.ne_nil]
    exact .next hmiddle hdrains

/-- Asking for batches comes to an end, with all that was left. -/
theorem IsSound.drains (h : stream.IsSound) : Drains stream stream.rest := by
  rcases h with hpending | ⟨lead, hlead, hrows⟩
  · have hrest : stream.rest = stream.nextBatch := by
      rw [rest, nextBatch, hpending]
    rw [hrest]
    refine .last ⟨.endOfFile, ?_, .inl rfl⟩
    rw [nextBatch, hpending]
    exact List.mem_cons_self
  · exact drains_of_inRows hlead hrows stream.line

/-! ## All calls -/

/-- The answers to any calls, put together, are taken from the tokens of the input in order, and
each call after the last of them is answered with the end of the file. The tokens start with the
start of the file and end with its end or a failure, and hold neither in between. A batch behind
which some of the tokens are left holds the end of one statement, as its last token. After any
calls, asking for batches comes to an end, with all that was left. -/
theorem answers_ofBytes (bytes : ByteStream) :
    (∀ calls, ∃ used late, calls = used ++ late ∧
      (ofBytes bytes).answers calls =
        (ofBytes bytes).answers used ++ late.map (fun _ ↦ [.endOfFile]) ∧
      ((ofBytes bytes).answers used).flatten <+: (ofBytes bytes).tokens ∧
      (late = [] ∨ ((ofBytes bytes).answers used).flatten = (ofBytes bytes).tokens)) ∧
    (∃ middle final, (ofBytes bytes).tokens = Batch.startOfFile :: middle ++ [final] ∧
      (∀ token ∈ middle, token.IsMiddle) ∧ final.IsFinal) ∧
    (∀ calls left, left ≠ [] →
      ((ofBytes bytes).answers (calls ++ [.batch])).flatten ++ left = (ofBytes bytes).tokens →
        ∃ front stop, ((ofBytes bytes).after calls).nextBatch.1 = front ++ [stop] ∧
          stop.kind = .endOfStatement ∧ ∀ token ∈ front, token.kind ≠ .endOfStatement) ∧
    ∀ calls, Drains ((ofBytes bytes).after calls) ((ofBytes bytes).after calls).rest := by
  have hsound : (ofBytes bytes).IsSound := isSound_ofLines bytes.lines
  have htokens : (ofBytes bytes).tokens = (ofBytes bytes).remaining :=
    tokens_ofLines_eq_flatMap bytes.lines
  refine ⟨fun calls ↦ ?_, ?_, fun calls left hleft hall ↦ ?_,
    fun calls ↦ (hsound.after calls).drains⟩
  · obtain ⟨used, late, hcalls, hanswers, hremaining, hlate⟩ :=
      exists_answers_eq (ofBytes bytes) calls
    rw [← htokens] at hremaining
    refine ⟨used, late, hcalls, hanswers, ⟨_, hremaining⟩, hlate.imp_right fun hpending ↦ ?_⟩
    rw [← hremaining, remaining, hpending, List.flatMap_nil, List.append_nil]
  · rw [htokens]
    exact (Batch.inRows_ofLines [Batch.startOfFile] 1 0 bytes.lines).exists_tokens_eq
  · -- Some of the tokens are left, so the last batch has not been handed out.
    apply (hsound.after calls).exists_stop
    obtain ⟨used, late, -, hanswers, hremaining, -⟩ :=
      exists_answers_eq (ofBytes bytes) (calls ++ [.batch])
    rw [hanswers, List.flatten_append, List.append_assoc, htokens, ← hremaining,
      List.append_cancel_left_eq, after_concat] at hall
    intro hpending
    have hnil : ((ofBytes bytes).after calls).nextBatch.2.remaining = [] := by
      rw [remaining, hpending, List.flatMap_nil]
    exact hleft (List.append_eq_nil_iff.mp (hall.trans hnil)).2

/-- The first of two batches holds a line, and the second one the failure that interrupts the next
line. -/
theorem answers_ofBytes_interrupted :
    ∃ left, left = [Token.ofError (.stream "line 2: gone")] ∧
      ((ofBytes ⟨[97, 61, 49, 10, 98], some "gone"⟩).answers ([] ++ [.batch])).flatten ++ left =
        (ofBytes ⟨[97, 61, 49, 10, 98], some "gone"⟩).tokens ∧
      (ofBytes ⟨[97, 61, 49, 10, 98], some "gone"⟩).answers [.batch, .rest, .batch] =
        [[Batch.startOfFile, ⟨.identifier, "a", some ⟨1, 0⟩, none, false⟩,
          ⟨.assignment, "=", some ⟨1, 1⟩, none, false⟩, ⟨.int64, "1", some ⟨1, 2⟩, none, false⟩,
          ⟨.endOfStatement, "\n", some ⟨1, 3⟩, none, false⟩], left, [.endOfFile]] ∧
      ∃ front stop, (ofBytes ⟨[97, 61, 49, 10, 98], some "gone"⟩).nextBatch.1 = front ++ [stop] ∧
        stop.kind = .endOfStatement ∧ ∀ token ∈ front, token.kind ≠ .endOfStatement := by
  have hall : ((ofBytes ⟨[97, 61, 49, 10, 98], some "gone"⟩).answers ([] ++ [.batch])).flatten ++
      [Token.ofError (.stream "line 2: gone")] =
        (ofBytes ⟨[97, 61, 49, 10, 98], some "gone"⟩).tokens := by
    decide
  obtain ⟨_, _, hbatch, _⟩ := answers_ofBytes ⟨[97, 61, 49, 10, 98], some "gone"⟩
  exact ⟨_, rfl, hall, by decide, hbatch [] _ (List.cons_ne_nil _ _) hall⟩

end TokenStream

end SectionedConfig
