import ArithAsm.Proofs.Sentence.Unfinished
import ArithAsm.Sentence.Reading

/-!
# The course of a reading

The tokens of a derivation lead an unfinished derivation to that very derivation.  So the
tokens determine it, and a reading of them, which makes the same moves with trees, arrives
at its tree.  A reading of any tokens makes moves until the first token that completes the
sentence or is refused.
-/

namespace ArithAsm

namespace Unfinished

/-- Derives tokens one after the other, as long as none is refused or ends the sentence. -/
def run : Unfinished → List Token → Option Unfinished
  | s, [] => some s
  | s, token :: rest =>
      match s.step token with
      | .go next => next.run rest
      | _ => none

@[simp] theorem run_nil (s : Unfinished) : s.run [] = some s := rfl

theorem run_cons {s next : Unfinished} {token : Token} (h : s.step token = .go next)
    (rest : List Token) : s.run (token :: rest) = next.run rest := by
  simp [run, h]

theorem run_append (s : Unfinished) (first second : List Token) :
    s.run (first ++ second) = (s.run first).bind fun next ↦ next.run second := by
  induction first generalizing s with
  | nil => rfl
  | cons token first ih =>
      rw [List.cons_append, run, run]
      cases s.step token with
      | go next => exact ih next
      | complete sentence => rfl
      | refuse expected => rfl

/-- Nothing is lost: a run has derived just the tokens it was given. -/
theorem tokens_run {s next : Unfinished} {given : List Token} (h : s.run given = some next) :
    next.tokens = s.tokens ++ given := by
  induction given generalizing s with
  | nil =>
      obtain rfl := Option.some.inj h
      simp
  | cons token given ih =>
      cases hstep : s.step token with
      | go t =>
          rw [run_cons hstep] at h
          rw [ih h, tokens_step hstep, List.append_assoc, List.singleton_append]
      | complete sentence => simp [run, hstep] at h
      | refuse expected => simp [run, hstep] at h

/-- Where the tokens of a derivation lead: to the state in which that derivation is the
operand at hand, or what the operand at hand will close. -/
def Reached : {rank : Rank} → Phrase rank → Prop
  | .operand, p => ∀ sign level groups,
      (operand sign level groups).run p.tokens =
        some (operator (SpelledSign.apply sign p) level groups)
  | .signed, p => ∀ level groups,
      (operand none level groups).run p.tokens = some (operator p level groups)
  | .product, p => ∀ sum groups, ∃ product x,
      (operand none ⟨sum, none⟩ groups).run p.tokens = some (operator x ⟨sum, product⟩ groups) ∧
        OpenProduct.close product x = p
  | .sum, p => ∀ groups, ∃ level x,
      (operand none {} groups).run p.tokens = some (operator x level groups) ∧
        level.close x = p

theorem reached {rank : Rank} (p : Phrase rank) : Reached p := by
  induction p with
  | number place value =>
      intro sign level groups
      rfl
  | group opening inner closing ih =>
      intro sign level groups
      obtain ⟨innerLevel, x, hrun, hclose⟩ := ih (⟨opening, sign, level⟩ :: groups)
      have hopen : (operand sign level groups).step (opening.token .opening) =
          .go (operand none {} (⟨opening, sign, level⟩ :: groups)) := by
        cases sign <;> rfl
      rw [Phrase.tokens, run_cons hopen, run_append, hrun, Option.bind_some, ← hclose]
      rfl
  | unsigned operand ih => exact ih none
  | plus sign x ih =>
      intro level groups
      exact ih (some (.plus sign)) level groups
  | minus sign x ih =>
      intro level groups
      exact ih (some (.minus sign)) level groups
  | factor first ih =>
      intro sum groups
      exact ⟨none, first, ih ⟨sum, none⟩ groups, rfl⟩
  | multiply left op at_ right ihl ihr =>
      intro sum groups
      obtain ⟨product, x, hrun, hclose⟩ := ihl sum groups
      refine ⟨some ⟨left, op, at_⟩, right, ?_, rfl⟩
      -- The operator closes the product before it, which is the derivation on its left.
      have hstep : (operator x ⟨sum, product⟩ groups).step (at_.token op.mark) =
          .go (operand none ⟨sum, some ⟨left, op, at_⟩⟩ groups) := by
        rw [← hclose]
        cases op <;> rfl
      rw [Phrase.tokens, run_append, hrun, Option.bind_some, run_cons hstep]
      exact ihr ⟨sum, some ⟨left, op, at_⟩⟩ groups
  | term first ih =>
      intro groups
      obtain ⟨product, x, hrun, hclose⟩ := ih none groups
      exact ⟨⟨none, product⟩, x, hrun, congrArg Phrase.term hclose⟩
  | add left op at_ right ihl ihr =>
      intro groups
      obtain ⟨level, x, hrun, hclose⟩ := ihl groups
      obtain ⟨product, y, hrun', hclose'⟩ := ihr (some ⟨left, op, at_⟩) groups
      refine ⟨⟨some ⟨left, op, at_⟩, product⟩, y, ?_, ?_⟩
      · have hstep : (operator x level groups).step (at_.token op.mark) =
            .go (operand none ⟨some ⟨left, op, at_⟩, none⟩ groups) := by
          rw [← hclose]
          cases op <;> rfl
        rw [Phrase.tokens, run_append, hrun, Option.bind_some, run_cons hstep]
        exact hrun'
      · rw [OpenLevel.close, hclose']
        rfl

/-- A derivation of a whole expression is found from its tokens. -/
theorem run_tokens (p : Phrase .sum) :
    ∃ level x, start.run p.tokens = some (operator x level []) ∧ level.close x = p :=
  reached p []

end Unfinished

/-- A derivation is determined by its tokens. -/
theorem Phrase.tokens_injective {p q : Phrase .sum} (h : p.tokens = q.tokens) : p = q := by
  obtain ⟨level, x, hp, rfl⟩ := Unfinished.run_tokens p
  obtain ⟨level', x', hq, rfl⟩ := Unfinished.run_tokens q
  rw [h, hq] at hp
  cases hp
  rfl

namespace Unfinished

/-- How a reading of tokens ends: they are used up, or one of them completes the sentence,
or one of them is refused.  Nothing after that token is taken. -/
inductive Ends (s : Unfinished) (tokens : List Token) : Reading → Prop where
  | exhausted (last : Unfinished) (hrun : s.run tokens = some last) :
      Ends s tokens ⟨.error .exhausted, [], []⟩
  | complete (before after : List Token) (token : Token) (last : Unfinished)
      (sentence : Phrase .sum) (htokens : tokens = before ++ token :: after)
      (hrun : s.run before = some last) (hstep : last.step token = .complete sentence) :
      Ends s tokens ⟨.ok sentence.tree, [], Stream.ofTokens after⟩
  | refused (before after : List Token) (token : Token) (last : Unfinished)
      (expected : Expected) (htokens : tokens = before ++ token :: after)
      (hrun : s.run before = some last) (hstep : last.step token = .refuse expected) :
      Ends s tokens ⟨.error (.grammatical ⟨expected, token⟩), [], Stream.ofTokens after⟩

theorem ends_read (s : Unfinished) (tokens : List Token) :
    Ends s tokens (s.erase.read (Stream.ofTokens tokens)) := by
  induction tokens generalizing s with
  | nil => exact .exhausted s rfl
  | cons token rest ih =>
      change Ends s (token :: rest) (s.erase.read (.token token :: Stream.ofTokens rest))
      rw [Pending.read, step_erase]
      cases hstep : s.step token with
      | complete sentence => exact .complete [] rest token s sentence rfl rfl hstep
      | refuse expected => exact .refused [] rest token s expected rfl rfl hstep
      | go next =>
          have hrest := ih next
          simp only [Move.erase]
          generalize next.erase.read (Stream.ofTokens rest) = reading at hrest ⊢
          cases hrest with
          | exhausted last hrun => exact .exhausted last ((run_cons hstep rest).trans hrun)
          | complete before after found last sentence htokens hrun hfound =>
              exact .complete (token :: before) after found last sentence
                (congrArg (token :: ·) htokens) ((run_cons hstep before).trans hrun) hfound
          | refused before after found last expected htokens hrun hfound =>
              exact .refused (token :: before) after found last expected
                (congrArg (token :: ·) htokens) ((run_cons hstep before).trans hrun) hfound

end Unfinished

end ArithAsm
