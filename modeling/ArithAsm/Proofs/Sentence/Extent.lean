import ArithAsm.Proofs.Sentence.Demand
import ArithAsm.Proofs.Sentence.Refusal

/-!
# How far a reading goes

A reading takes the tokens up to the one that decides it and leaves all others.  What comes after
that token changes nothing but what is left.  If the end comes before any refused token, then the
end is the last token taken, and a second reading starts right behind it.  Without an end there is
no tree, and the tokens run out just if a sentence can start with them.
-/

namespace ArithAsm

/-- What a reading did not need may be anything. -/
theorem Pending.read_append_of_ne_exhausted {stream : Stream} {state : Pending}
    (h : (state.read stream).outcome ≠ .error .exhausted) (later : Stream) :
    state.read (stream ++ later) =
      { state.read stream with rest := (state.read stream).rest ++ later } := by
  induction stream generalizing state with
  | nil => exact absurd rfl h
  | cons arrival stream ih =>
      cases arrival with
      | event event =>
          have hlater : state.read (stream ++ later) = _ := ih h
          rw [List.cons_append, Pending.read, hlater]
          rfl
      | fault fault => rfl
      | token token =>
          rw [Pending.read] at h
          rw [List.cons_append, Pending.read, Pending.read]
          cases hstep : state.step token with
          | go next =>
              rw [hstep] at h
              exact ih h
          | complete tree => rfl
          | refuse expected => rfl

theorem Stream.read_append_of_ne_exhausted {stream : Stream}
    (h : stream.read.outcome ≠ .error .exhausted) (later : Stream) :
    Stream.read (stream ++ later) = { stream.read with rest := stream.read.rest ++ later } :=
  Pending.read_append_of_ne_exhausted h later

theorem Stream.ofTokens_append (first second : List Token) :
    ofTokens (first ++ second) = ofTokens first ++ ofTokens second :=
  List.map_append

/-- Where the end comes, the tokens after it are not needed. -/
theorem read_take_of_first_finish {tokens : List Token} {k : Nat}
    (h : tokens.findIdx? Token.isFinish = some k) :
    (Stream.ofTokens (tokens.take (k + 1))).read.outcome ≠ .error .exhausted ∧
      (Stream.ofTokens tokens).read =
        { (Stream.ofTokens (tokens.take (k + 1))).read with
          rest := (Stream.ofTokens (tokens.take (k + 1))).read.rest ++
            Stream.ofTokens (tokens.drop (k + 1)) } := by
  obtain ⟨hk, hfinish, -⟩ := List.findIdx?_eq_some_iff_getElem.mp h
  have hneeded : (Stream.ofTokens (tokens.take (k + 1))).read.outcome ≠ .error .exhausted := by
    rw [List.take_succ_eq_append_getElem hk]
    rcases outcome_read_finish (tokens.take k) hfinish with ⟨tree, htree⟩ | ⟨fault, hfault⟩
    · rw [htree]
      exact nofun
    · rw [hfault]
      exact nofun
  refine ⟨hneeded, ?_⟩
  rw [← Stream.read_append_of_ne_exhausted hneeded, ← Stream.ofTokens_append,
    List.take_append_drop]

theorem drop_append_cons (before : List Token) (token : Token) (after : List Token) :
    (before ++ token :: after).drop (before.length + 1) = after := by
  rw [List.drop_length_add_append]
  rfl

/-- A reading that gives a tree takes the tokens up to the first end. -/
theorem rest_of_outcome_ok {tokens : List Token} {tree : Expr} {k : Nat}
    (h : (Stream.ofTokens tokens).read.outcome = .ok tree)
    (hfirst : tokens.findIdx? Token.isFinish = some k) :
    (Stream.ofTokens tokens).read.rest = Stream.ofTokens (tokens.drop (k + 1)) := by
  obtain ⟨p, token, after, rfl, htoken, -⟩ := exists_phrase_of_read h
  rw [findIdx?_isFinish_append p.isFinish_of_mem_tokens htoken after] at hfirst
  obtain rfl := Option.some.inj hfirst
  rw [p.read_tokens htoken, drop_append_cons]

/-- A token to blame is the first with which no sentence can go on, and the last token taken. -/
theorem exists_index_of_refused {tokens : List Token} {fault : SyntaxFault}
    (h : (Stream.ofTokens tokens).read.outcome = .error (.grammatical fault)) :
    ∃ j, tokens[j]? = some fault.found ∧ Viable (tokens.take j) ∧
      ¬ Viable (tokens.take (j + 1)) ∧
      (Stream.ofTokens tokens).read.rest = Stream.ofTokens (tokens.drop (j + 1)) := by
  have hends : Unfinished.start.Ends tokens (Stream.ofTokens tokens).read :=
    Unfinished.start.ends_read tokens
  generalize (Stream.ofTokens tokens).read = reading at h hends ⊢
  cases hends with
  | exhausted last hrun => cases h
  | complete before after token last sentence htokens hrun hstep => cases h
  | refused before after token last expected htokens hrun hstep =>
      obtain rfl : ⟨expected, token⟩ = fault := by injection h with h; injection h
      subst htokens
      have htake : (before ++ token :: after).take (before.length + 1) = before ++ [token] := by
        rw [List.take_length_add_append]
        rfl
      refine ⟨before.length, ?_, ?_, ?_, ?_⟩
      · simp
      · rw [List.take_left]
        exact Unfinished.viable_of_run hrun
      · rw [htake]
        exact Unfinished.not_viable_of_refused hrun hstep
      · rw [drop_append_cons]

/-- Tokens without an end run out where they are viable, and otherwise one of them is refused. -/
theorem outcome_read_of_no_finish {tokens : List Token}
    (h : ∀ token ∈ tokens, token.isFinish = false) :
    (Viable tokens ∧ (Stream.ofTokens tokens).read.outcome = .error .exhausted) ∨
      (¬ Viable tokens ∧
        ∃ fault, (Stream.ofTokens tokens).read.outcome = .error (.grammatical fault)) := by
  rcases run_or_refused h with
    ⟨last, hrun⟩ | ⟨before, token, after, last, expected, rfl, hrun, hstep⟩
  · left
    have hread : (Stream.ofTokens tokens).read = last.erase.read (Stream.ofTokens []) := by
      have hall := Unfinished.read_append hrun []
      rwa [List.append_nil] at hall
    refine ⟨Unfinished.viable_of_run hrun, ?_⟩
    rw [hread]
    rfl
  · right
    constructor
    · intro hviable
      have hfront : Viable ((before ++ [token]) ++ after) := by
        rwa [List.append_assoc, List.singleton_append]
      exact Unfinished.not_viable_of_refused hrun hstep hfront.of_append
    · rw [Unfinished.read_refused hrun hstep]
      exact ⟨_, rfl⟩

namespace Compilation

/-- Only what is left tells two streams apart. -/
theorem ofStream_eq_of_read {first second : Stream} {rest : Stream}
    (h : first.read = { second.read with rest }) (source : String) (lines : List String) :
    ofStream source lines first = ofStream source lines second := by
  unfold ofStream Stream.parse
  rw [h]
  obtain ⟨outcome, events, left⟩ := second.read
  cases outcome <;> rfl

/-- A reading that fails has refused a token, unless tokens ran out. -/
theorem refused_of_result_ofTokens {source : String} {lines : List String} {tokens : List Token}
    {failure : Failure}
    (h : (ofStream source lines (Stream.ofTokens tokens)).result = .error failure) :
    ((Stream.ofTokens tokens).read.outcome = .error .exhausted ∧ failure = .exhausted) ∨
      ∃ fault : SyntaxFault,
        (Stream.ofTokens tokens).read.outcome = .error (.grammatical fault) ∧
          fault.failure lines = failure := by
  rw [result_ofStream] at h
  have hends : Unfinished.start.Ends tokens (Stream.ofTokens tokens).read :=
    Unfinished.start.ends_read tokens
  generalize (Stream.ofTokens tokens).read = reading at h hends ⊢
  cases hends with
  | exhausted last hrun => exact .inl ⟨rfl, (Except.error.inj h).symm⟩
  | complete before after token last sentence htokens hrun hstep => cases h
  | refused before after token last expected htokens hrun hstep =>
      exact .inr ⟨_, rfl, Except.error.inj h⟩

theorem result_ofStream_of_refused {source : String} {lines : List String} {stream : Stream}
    {fault : SyntaxFault} (h : stream.read.outcome = .error (.grammatical fault)) :
    (ofStream source lines stream).result = .error (fault.failure lines) := by
  rw [result_ofStream, h]
  rfl

theorem result_ofStream_eq_exhausted_iff {source : String} {lines : List String}
    {stream : Stream} :
    (ofStream source lines stream).result = .error .exhausted ↔
      stream.read.outcome = .error .exhausted := by
  rw [result_ofStream]
  constructor
  · intro h
    obtain ⟨fault, hread, hfault⟩ := exists_of_mapError_eq_error h
    cases fault with
    | lexical fault => cases fault <;> cases hfault
    | grammatical fault => exact absurd hfault (fault.failure_ne_exhausted lines)
    | exhausted => exact hread
  · intro h
    rw [h]
    rfl

end Compilation

end ArithAsm
