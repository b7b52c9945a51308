import ArithAsm.Proofs.Sentence.Viability
import ArithAsm.Proofs.Source.Tokenization

/-!
# What a reading asks for

A reading asks a stream for one token after the other and stops at the first that completes the
sentence or is refused.  So a fault matters only to a reading that comes to it, which is one
whose tokens up to there are viable.
-/

namespace ArithAsm

theorem Viable.of_append {before after : List Token} (h : Viable (before ++ after)) :
    Viable before := by
  obtain ⟨rest, hsentence⟩ := h
  exact ⟨after ++ rest, by rwa [← List.append_assoc]⟩

/-- Events on the way do not matter to the outcome. -/
theorem Pending.outcome_read_of_tokens {stream : Stream} {found : List Token}
    (h : stream.tokens = .ok found) (state : Pending) :
    (state.read stream).outcome = (state.read (Stream.ofTokens found)).outcome := by
  induction stream generalizing found state with
  | nil =>
      obtain rfl := Except.ok.inj h
      rfl
  | cons arrival rest ih =>
      cases arrival with
      | event event => exact ih h state
      | fault fault => cases h
      | token token =>
          rw [Stream.tokens] at h
          cases hrest : Stream.tokens rest with
          | error fault =>
              rw [hrest] at h
              cases h
          | ok later =>
              rw [hrest] at h
              obtain rfl := Except.ok.inj h
              change _ = (state.read (.token token :: Stream.ofTokens later)).outcome
              rw [Pending.read, Pending.read]
              cases state.step token with
              | go next => exact ih hrest next
              | complete tree => rfl
              | refuse expected => rfl

theorem Stream.Hands.event {stream rest : Stream} {given : List Token}
    (h : Hands stream given rest) (hne : given ≠ []) (event : Event) :
    Hands (.event event :: stream) given rest := by
  cases h with
  | nothing => exact absurd rfl hne
  | more hnext hlater => exact .more hnext hlater

namespace Unfinished

theorem step_ne_go_of_isFinish {s next : Unfinished} {token : Token}
    (h : token.isFinish = true) : s.step token ≠ .go next := by
  obtain ⟨word, place⟩ := token
  cases word with
  | number value => cases h
  | mark m spelling => cases h
  | finish spelling =>
      cases s with
      | operand sign level groups => exact nofun
      | operator x level groups => cases groups <;> exact nofun

/-- A tree is read from a stream that hands out the tokens of a derivation and then the end. -/
theorem exists_complete_of_read {s : Unfinished} {stream : Stream} {tree : Expr}
    (h : (s.erase.read stream).outcome = .ok tree) :
    ∃ (given : List Token) (token : Token) (rest : Stream) (last : Unfinished)
      (sentence : Phrase .sum), stream.Hands (given ++ [token]) rest ∧
        s.run given = some last ∧ last.step token = .complete sentence ∧
        sentence.tree = tree := by
  induction stream generalizing s with
  | nil => cases h
  | cons arrival stream ih =>
      cases arrival with
      | event event =>
          obtain ⟨given, token, rest, last, sentence, hhands, hlast⟩ := ih h
          exact ⟨given, token, rest, last, sentence, hhands.event (by simp) event, hlast⟩
      | fault fault => cases h
      | token token =>
          rw [Pending.read, step_erase] at h
          cases hstep : s.step token with
          | refuse expected =>
              rw [hstep] at h
              cases h
          | complete sentence =>
              rw [hstep] at h
              exact ⟨[], token, stream, s, sentence, .more rfl (.nothing stream), rfl, hstep,
                Except.ok.inj h⟩
          | go next =>
              rw [hstep] at h
              obtain ⟨given, last_, rest, last, sentence, hhands, hrun, hlast⟩ := ih h
              exact ⟨token :: given, last_, rest, last, sentence, .more rfl hhands,
                (run_cons hstep given).trans hrun, hlast⟩

end Unfinished

/-- With the end behind them tokens are enough for a reading. -/
theorem outcome_read_finish (given : List Token) {token : Token} (h : token.isFinish = true) :
    (∃ tree, (Stream.ofTokens (given ++ [token])).read.outcome = .ok tree) ∨
      ∃ fault, (Stream.ofTokens (given ++ [token])).read.outcome =
        .error (.grammatical fault) := by
  have hends : Unfinished.start.Ends (given ++ [token]) _ :=
    Unfinished.start.ends_read (given ++ [token])
  change Unfinished.start.Ends _ (Stream.ofTokens (given ++ [token])).read at hends
  generalize (Stream.ofTokens (given ++ [token])).read = reading at hends ⊢
  cases hends with
  | complete before after found last sentence htokens hrun hstep => exact .inl ⟨_, rfl⟩
  | refused before after found last expected htokens hrun hstep => exact .inr ⟨_, rfl⟩
  | exhausted last hrun =>
      rw [Unfinished.run_append] at hrun
      obtain ⟨middle, -, hmiddle⟩ := Option.bind_eq_some_iff.mp hrun
      cases hstep : middle.step token with
      | go next => exact absurd hstep (Unfinished.step_ne_go_of_isFinish h)
      | complete sentence => simp [Unfinished.run, hstep] at hmiddle
      | refuse expected => simp [Unfinished.run, hstep] at hmiddle

/-- Tokens before the end are all read, or one of them is refused. -/
theorem run_or_refused {given : List Token} (h : ∀ token ∈ given, token.isFinish = false) :
    (∃ last, Unfinished.start.run given = some last) ∨
      ∃ before token after last expected, given = before ++ token :: after ∧
        Unfinished.start.run before = some last ∧ last.step token = .refuse expected := by
  have hends : Unfinished.start.Ends given _ := Unfinished.start.ends_read given
  generalize Unfinished.start.erase.read (Stream.ofTokens given) = reading at hends
  cases hends with
  | exhausted last hrun => exact .inl ⟨last, hrun⟩
  | refused before after token last expected htokens hrun hstep =>
      exact .inr ⟨before, token, after, last, expected, htokens, hrun, hstep⟩
  | complete before after token last sentence htokens hrun hstep =>
      have hmem : token ∈ given := by
        rw [htokens]
        exact List.mem_append_right _ List.mem_cons_self
      have hnot := h token hmem
      rw [(Unfinished.step_eq_complete hstep).1] at hnot
      cases hnot

/-- A fault after tokens decides on the outcome just if the tokens are viable.  Otherwise one
of them is refused. -/
theorem outcome_read_fault {given : List Token} (h : ∀ token ∈ given, token.isFinish = false)
    (fault : LexFault) :
    (Viable given ∧ (Stream.read (Stream.ofTokens given ++ [.fault fault])).outcome =
      .error (.lexical fault)) ∨
    (¬ Viable given ∧ ∃ expected, ∃ token ∈ given,
      (Stream.read (Stream.ofTokens given ++ [.fault fault])).outcome =
        .error (.grammatical ⟨expected, token⟩)) := by
  rcases run_or_refused h with
    ⟨last, hrun⟩ | ⟨before, token, after, last, expected, rfl, hrun, hstep⟩
  · left
    refine ⟨Unfinished.viable_of_run hrun, ?_⟩
    change (Unfinished.start.erase.read _).outcome = _
    rw [Unfinished.read_ofTokens_append hrun]
    rfl
  · right
    constructor
    · intro hviable
      have hprefix : Viable ((before ++ [token]) ++ after) := by
        rwa [List.append_assoc, List.singleton_append]
      exact Unfinished.not_viable_of_refused hrun hstep hprefix.of_append
    · refine ⟨expected, token, List.mem_append_right _ List.mem_cons_self, ?_⟩
      have hsplit : Stream.ofTokens (before ++ token :: after) ++ [.fault fault] =
          Stream.ofTokens before ++ .token token :: (Stream.ofTokens after ++ [.fault fault]) := by
        simp [Stream.ofTokens]
      rw [hsplit]
      change (Unfinished.start.erase.read _).outcome = _
      rw [Unfinished.read_ofTokens_append hrun, Pending.read, Unfinished.step_erase, hstep]
      rfl

end ArithAsm
