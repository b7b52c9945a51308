import ArithAsm.Proofs.Sentence.Acceptance

/-!
# Viable prefixes

A token list is viable if a sentence can start with it.  What has been derived at any moment
is viable, since the parentheses still open can be closed one by one.  A token that is
refused takes viability away: no sentence goes on with it.
-/

namespace ArithAsm

/-- An expression with the token that marks the end behind it. -/
def IsSentence (tokens : List Token) : Prop :=
  ∃ (p : Phrase .sum) (token : Token), token.isFinish = true ∧ tokens = p.tokens ++ [token]

def Viable (tokens : List Token) : Prop :=
  ∃ rest, IsSentence (tokens ++ rest)

namespace Unfinished

/-- After an operand the open parentheses are closed, from the innermost to the outermost. -/
theorem exists_completion_operator (x : Phrase .signed) (level : OpenLevel)
    (groups : List OpenGroup) :
    ∃ (rest : List Token) (p : Phrase .sum),
      p.tokens = (operator x level groups).tokens ++ rest := by
  induction groups generalizing x level with
  | nil => exact ⟨[], level.close x, by simp [tokens, OpenGroup.tokens, OpenLevel.tokens_close]⟩
  | cons g outer ih =>
      let closing : Spelled := ⟨default, some ")"⟩
      obtain ⟨rest, p, hp⟩ :=
        ih (SpelledSign.apply g.sign (.group g.opening (level.close x) closing)) g.around
      refine ⟨closing.token .closing :: rest, p, hp.trans ?_⟩
      simp [tokens, OpenGroup.tokens, SpelledSign.tokens_apply, Phrase.tokens,
        OpenLevel.tokens_close]

/-- Whatever has been derived can be completed. -/
theorem exists_completion (s : Unfinished) :
    ∃ (rest : List Token) (p : Phrase .sum), p.tokens = s.tokens ++ rest := by
  cases s with
  | operator x level groups => exact exists_completion_operator x level groups
  | operand sign level groups =>
      let zero : Phrase .operand := .number default (some 0)
      obtain ⟨rest, p, hp⟩ :=
        exists_completion_operator (SpelledSign.apply sign zero) level groups
      refine ⟨zero.tokens ++ rest, p, hp.trans ?_⟩
      simp [tokens, SpelledSign.tokens_apply]

theorem viable_of_run {before : List Token} {s : Unfinished}
    (h : start.run before = some s) : Viable before := by
  obtain ⟨rest, p, hp⟩ := s.exists_completion
  have hbefore : s.tokens = before := tokens_run h
  exact ⟨rest ++ [⟨.finish none, default⟩], p, ⟨.finish none, default⟩, rfl,
    by rw [hp, hbefore, List.append_assoc]⟩

theorem read_refused {before : List Token} {s : Unfinished} {token : Token}
    {expected : Expected} (hrun : start.run before = some s)
    (hstep : s.step token = .refuse expected) (after : List Token) :
    (Stream.ofTokens (before ++ token :: after)).read =
      ⟨.error (.grammatical ⟨expected, token⟩), [], Stream.ofTokens after⟩ := by
  change start.erase.read _ = _
  rw [read_append hrun]
  change s.erase.read (.token token :: Stream.ofTokens after) = _
  rw [Pending.read, step_erase, hstep]
  rfl

theorem not_viable_of_refused {before : List Token} {s : Unfinished} {token : Token}
    {expected : Expected} (hrun : start.run before = some s)
    (hstep : s.step token = .refuse expected) : ¬ Viable (before ++ [token]) := by
  rintro ⟨rest, p, finish, hfinish, hsentence⟩
  have haccepted := p.read_tokens hfinish []
  have hrefused := read_refused hrun hstep rest
  have heq : p.tokens ++ [finish] = before ++ token :: rest := by
    rw [← hsentence, List.append_assoc, List.singleton_append]
  rw [heq, hrefused] at haccepted
  cases congrArg Reading.outcome haccepted

end Unfinished

end ArithAsm
