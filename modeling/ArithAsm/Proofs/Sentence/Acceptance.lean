import ArithAsm.Compilation
import ArithAsm.Proofs.Sentence.Course

/-!
# Accepted tokens

A token list is read up to the first token that marks the end.  It gives a tree just if the
tokens before that one are those of a derivation.  There is then only one such derivation,
and the tree is the one it stands for.
-/

namespace ArithAsm

namespace Phrase

theorem isFinish_of_mem_tokens {rank : Rank} (p : Phrase rank) :
    ∀ token ∈ p.tokens, token.isFinish = false := by
  induction p with
  | number place value => exact List.forall_mem_singleton.mpr rfl
  | group opening inner closing ih =>
      exact List.forall_mem_cons.mpr
        ⟨rfl, List.forall_mem_append.mpr ⟨ih, List.forall_mem_singleton.mpr rfl⟩⟩
  | unsigned operand ih => exact ih
  | plus sign operand ih => exact List.forall_mem_cons.mpr ⟨rfl, ih⟩
  | minus sign operand ih => exact List.forall_mem_cons.mpr ⟨rfl, ih⟩
  | factor first ih => exact ih
  | multiply left op at_ right ihl ihr =>
      exact List.forall_mem_append.mpr ⟨ihl, List.forall_mem_cons.mpr ⟨rfl, ihr⟩⟩
  | term first ih => exact ih
  | add left op at_ right ihl ihr =>
      exact List.forall_mem_append.mpr ⟨ihl, List.forall_mem_cons.mpr ⟨rfl, ihr⟩⟩

end Phrase

/-- The first token that marks the end splits a list. -/
theorem findIdx?_isFinish_append {before : List Token} {token : Token}
    (hbefore : ∀ t ∈ before, t.isFinish = false) (htoken : token.isFinish = true)
    (after : List Token) :
    (before ++ token :: after).findIdx? Token.isFinish = some before.length := by
  rw [List.findIdx?_append, List.findIdx?_eq_none_iff.mpr hbefore, List.findIdx?_cons, htoken]
  simp

theorem exists_split_of_findIdx? {tokens : List Token} {n : Nat}
    (h : tokens.findIdx? Token.isFinish = some n) :
    ∃ token after, tokens = tokens.take n ++ token :: after ∧ token.isFinish = true := by
  obtain ⟨hn, htoken, -⟩ := List.findIdx?_eq_some_iff_getElem.mp h
  refine ⟨tokens[n], tokens.drop (n + 1), ?_, htoken⟩
  rw [← List.drop_eq_getElem_cons hn, List.take_append_drop]

namespace Unfinished

theorem read_ofTokens_append {s next : Unfinished} {before : List Token}
    (h : s.run before = some next) (rest : Stream) :
    s.erase.read (Stream.ofTokens before ++ rest) = next.erase.read rest := by
  induction before generalizing s with
  | nil =>
      obtain rfl := Option.some.inj h
      rfl
  | cons token before ih =>
      cases hstep : s.step token with
      | go t =>
          rw [run_cons hstep] at h
          rw [← ih h]
          change s.erase.read (.token token :: (Stream.ofTokens before ++ rest)) = _
          rw [Pending.read, step_erase, hstep]
          rfl
      | complete sentence => simp [run, hstep] at h
      | refuse expected => simp [run, hstep] at h

theorem read_append {s next : Unfinished} {before : List Token}
    (h : s.run before = some next) (after : List Token) :
    s.erase.read (Stream.ofTokens (before ++ after)) =
      next.erase.read (Stream.ofTokens after) := by
  rw [← read_ofTokens_append h, Stream.ofTokens, List.map_append]
  rfl

end Unfinished

/-- The tokens of a derivation, followed by the end, are read as its tree. -/
theorem Phrase.read_tokens (p : Phrase .sum) {token : Token} (h : token.isFinish = true)
    (after : List Token) :
    (Stream.ofTokens (p.tokens ++ token :: after)).read =
      ⟨.ok p.tree, [], Stream.ofTokens after⟩ := by
  obtain ⟨level, x, hrun, rfl⟩ := Unfinished.run_tokens p
  change Unfinished.start.erase.read _ = _
  rw [Unfinished.read_append hrun]
  change (Unfinished.operator x level []).erase.read (.token token :: Stream.ofTokens after) = _
  rw [Pending.read, Unfinished.step_erase, Unfinished.step_operator_finish x level h]
  rfl

/-- A tree is read only where a derivation stands before the first end. -/
theorem exists_phrase_of_read {tokens : List Token} {tree : Expr}
    (h : (Stream.ofTokens tokens).read.outcome = .ok tree) :
    ∃ (p : Phrase .sum) (token : Token) (after : List Token),
      tokens = p.tokens ++ token :: after ∧ token.isFinish = true ∧ p.tree = tree := by
  have hends : Unfinished.start.Ends tokens (Stream.ofTokens tokens).read :=
    Unfinished.start.ends_read tokens
  generalize (Stream.ofTokens tokens).read = reading at h hends
  cases hends with
  | exhausted last hrun => cases h
  | refused before after token last expected htokens hrun hstep => cases h
  | complete before after token last sentence htokens hrun hstep =>
      obtain ⟨hfinish, x, level, rfl, rfl⟩ := Unfinished.step_eq_complete hstep
      refine ⟨level.close x, token, after, ?_, hfinish, Except.ok.inj h⟩
      have hbefore := Unfinished.tokens_run hrun
      rw [htokens, OpenLevel.tokens_close]
      exact congrArg (· ++ token :: after) hbefore.symm

theorem eq_ok_of_mapError_eq_ok {ε ε' α : Type} {result : Except ε α} {f : ε → ε'} {a : α}
    (h : result.mapError f = .ok a) : result = .ok a := by
  cases result with
  | error fault => cases h
  | ok found => exact congrArg Except.ok (Except.ok.inj h)

theorem exists_of_mapError_eq_error {ε ε' α : Type} {result : Except ε α} {f : ε → ε'} {e : ε'}
    (h : result.mapError f = .error e) : ∃ fault, result = .error fault ∧ f fault = e := by
  cases result with
  | error fault => exact ⟨fault, rfl, Except.error.inj h⟩
  | ok found => cases h

namespace Compilation

theorem result_ofStream (source : String) (lines : List String) (stream : Stream) :
    (ofStream source lines stream).result =
      stream.read.outcome.mapError (ReadFault.failure lines) := by
  unfold ofStream Stream.parse
  cases h : stream.read.outcome <;> simp [h]

theorem outcome_of_result_ofStream {source : String} {lines : List String} {stream : Stream}
    {tree : Expr} (h : (ofStream source lines stream).result = .ok tree) :
    stream.read.outcome = .ok tree :=
  eq_ok_of_mapError_eq_ok ((result_ofStream source lines stream).symm.trans h)

/-- Reading a list of tokens gives a tree just if the tokens before the first end are those
of a derivation.  That derivation is the only one, and the tree is its own. -/
theorem result_ofTokens_of_first_finish (source : String) (lines : List String)
    {tokens : List Token} {n : Nat} (h : tokens.findIdx? Token.isFinish = some n) :
    ((∃ tree, (ofStream source lines (Stream.ofTokens tokens)).result = .ok tree) ↔
      ∃ p : Phrase .sum, p.tokens = tokens.take n) ∧
    ∀ p : Phrase .sum, p.tokens = tokens.take n →
      (ofStream source lines (Stream.ofTokens tokens)).result = .ok p.tree ∧
        ∀ q : Phrase .sum, q.tokens = tokens.take n → q = p := by
  have haccept : ∀ p : Phrase .sum, p.tokens = tokens.take n →
      (ofStream source lines (Stream.ofTokens tokens)).result = .ok p.tree := by
    intro p hp
    obtain ⟨token, after, htokens, htoken⟩ := exists_split_of_findIdx? h
    rw [← hp] at htokens
    rw [result_ofStream, htokens, p.read_tokens htoken]
    rfl
  refine ⟨⟨?_, fun ⟨p, hp⟩ ↦ ⟨p.tree, haccept p hp⟩⟩, fun p hp ↦ ⟨haccept p hp, ?_⟩⟩
  · rintro ⟨tree, htree⟩
    rw [result_ofStream] at htree
    cases hread : (Stream.ofTokens tokens).read.outcome with
    | error fault =>
        rw [hread] at htree
        cases htree
    | ok found =>
        obtain ⟨p, token, after, htokens, htoken, -⟩ := exists_phrase_of_read hread
        have hfirst := findIdx?_isFinish_append p.isFinish_of_mem_tokens htoken after
        rw [← htokens, h] at hfirst
        refine ⟨p, ?_⟩
        rw [Option.some.inj hfirst, htokens, List.take_left]
  · intro q hq
    exact Phrase.tokens_injective (hq.trans hp.symm)

/-- The tokens of `-(1-2)*3`, with one more token after the end. -/
theorem result_ofTokens_product_of_negation :
    let at_ := fun column : Int ↦ ({ line := 1, column } : Location)
    let tokens : List Token :=
      [⟨.mark .minus (some "-"), at_ 1⟩, ⟨.mark .opening (some "("), at_ 2⟩,
        ⟨.number (some 1), at_ 3⟩, ⟨.mark .minus (some "-"), at_ 4⟩,
        ⟨.number (some 2), at_ 5⟩, ⟨.mark .closing (some ")"), at_ 6⟩,
        ⟨.mark .star (some "*"), at_ 7⟩, ⟨.number (some 3), at_ 8⟩,
        ⟨.finish none, at_ 9⟩, ⟨.number (some 4), at_ 10⟩]
    tokens.findIdx? Token.isFinish = some 8 ∧
      (ofStream "<tokens>" [] (Stream.ofTokens tokens)).result =
        .ok (.binary (at_ 7) (some .mul)
          (.negation (at_ 1) (.binary (at_ 4) (some .sub)
            (.literal (at_ 3) (some 1)) (.literal (at_ 5) (some 2))))
          (.literal (at_ 8) (some 3))) := by
  intro at_ tokens
  have hfirst : tokens.findIdx? Token.isFinish = some 8 := rfl
  let difference : Phrase .sum :=
    .add (.term (.factor (.unsigned (.number (at_ 3) (some 1))))) .minus ⟨at_ 4, some "-"⟩
      (.factor (.unsigned (.number (at_ 5) (some 2))))
  let product : Phrase .sum :=
    .term (.multiply
      (.factor (.minus ⟨at_ 1, some "-"⟩
        (.group ⟨at_ 2, some "("⟩ difference ⟨at_ 6, some ")"⟩)))
      .times ⟨at_ 7, some "*"⟩ (.unsigned (.number (at_ 8) (some 3))))
  exact ⟨hfirst, ((result_ofTokens_of_first_finish "<tokens>" [] hfirst).2 product rfl).1⟩

end Compilation

end ArithAsm
