import ArithAsm.Proofs.Assembly.Drafting
import ArithAsm.Proofs.Assembly.WordValue
import ArithAsm.Proofs.Sentence.Acceptance
import ArithAsm.Proofs.Sentence.Extent

/-!
# Accepted sources

What is known of a source text once it is compiled.  Its tokens are those of a derivation up to
the end, and its tree is the tree of that derivation.  The tree has no gaps, and all its
literals are words, because a number beyond them is no token.
-/

namespace ArithAsm

/-- If the token is a number, then it has a value, which is in the range of literals. -/
def Token.InRange (token : Token) : Prop :=
  ∀ value, token.word = .number value → ∃ n : Nat, value = some (n : Int) ∧ n ≤ maxLiteral

theorem mem_of_mem_tokens {stream : Stream} {found : List Token} (h : stream.tokens = .ok found)
    {token : Token} (htoken : token ∈ found) : Arrival.token token ∈ stream := by
  induction stream generalizing found with
  | nil =>
      obtain rfl := Except.ok.inj h
      cases htoken
  | cons arrival rest ih =>
      cases arrival with
      | event event => exact .tail _ (ih h htoken)
      | fault fault => cases h
      | token first =>
          rw [Stream.tokens] at h
          cases hrest : Stream.tokens rest with
          | error fault => rw [hrest] at h; cases h
          | ok later =>
              rw [hrest] at h
              obtain rfl := Except.ok.inj h
              rcases List.mem_cons.mp htoken with rfl | hlater
              · exact .head _
              · exact .tail _ (ih hrest hlater)

theorem inRange_of_numberAt {place : Location} {line : String} {run : List Char} {token : Token}
    (h : numberAt place line run = .token token) : token.InRange := by
  unfold numberAt at h
  split at h
  · cases h
  · next n hn =>
      split at h
      · cases h
      · next hrange =>
          obtain rfl := Arrival.token.inj h
          rintro value ⟨⟩
          exact ⟨n, rfl, Nat.le_of_not_lt hrange⟩

theorem inRange_of_mem_ofSegments {source line : String} {segments : List Segment}
    {column count : Nat} {token : Token}
    (h : Arrival.token token ∈ Stream.ofSegments source line column count segments) :
    token.InRange := by
  induction segments generalizing column count with
  | nil =>
      obtain rfl : token = ⟨.finish none, ⟨source, 1, column⟩⟩ := by
        simpa [Stream.ofSegments] using h
      rintro value ⟨⟩
  | cons segment rest ih =>
      cases segment with
      | blank c => exact ih h
      | mark m =>
          rcases List.mem_cons.mp h with hfirst | hrest
          · obtain rfl := Arrival.token.inj hfirst
            rintro value ⟨⟩
          · exact ih hrest
      | digits run =>
          rw [Stream.ofSegments] at h
          split at h
          · cases List.mem_singleton.mp h
          · rcases List.mem_cons.mp h with hfirst | hrest
            · exact inRange_of_numberAt hfirst.symm
            · exact ih hrest
      | stray c => cases List.mem_singleton.mp h

theorem inRange_of_mem_tokens_ofText {source text : String} {found : List Token}
    (h : (Stream.ofText source text).tokens = .ok found) {token : Token}
    (htoken : token ∈ found) : token.InRange :=
  inRange_of_mem_ofSegments (mem_of_mem_tokens h htoken)

/-- A number in the range of literals can be described. -/
theorem Token.InRange.not_isLong {token : Token} (h : token.InRange) : ¬ token.IsLong := by
  rintro ⟨n, hword, hlong⟩
  obtain ⟨m, hm, hle⟩ := h _ hword
  obtain rfl := Option.some.inj hm
  refine hlong (isShort_of_isWord ⟨?_, ?_⟩)
  · omega
  · rw [maxLiteral] at hle
    omega

theorem mem_of_outcome_refused {tokens : List Token} {fault : SyntaxFault}
    (h : (Stream.ofTokens tokens).read.outcome = .error (.grammatical fault)) :
    fault.found ∈ tokens := by
  obtain ⟨j, hfound, -⟩ := exists_index_of_refused h
  exact List.mem_of_getElem? hfound

/-- The tree of a derivation has no gaps but those of its tokens. -/
theorem Phrase.complete_tree {rank : Rank} (p : Phrase rank)
    (h : ∀ token ∈ p.tokens, token.InRange) : p.tree.Complete ∧ p.tree.WordLiterals := by
  induction p with
  | number place value =>
      obtain ⟨n, rfl, hn⟩ := h _ (.head _) value rfl
      refine ⟨rfl, ?_⟩
      simp only [tree, Expr.WordLiterals, IsWord]
      simp only [maxLiteral] at hn
      omega
  | group opening inner closing ih =>
      rw [tokens, List.forall_mem_cons, List.forall_mem_append] at h
      exact ih h.2.1
  | unsigned operand ih => exact ih h
  | plus sign operand ih => exact ih (List.forall_mem_cons.mp h).2
  | minus sign operand ih => exact ih (List.forall_mem_cons.mp h).2
  | factor first ih => exact ih h
  | multiply left op spelled right ihl ihr =>
      rw [tokens, List.forall_mem_append, List.forall_mem_cons] at h
      obtain ⟨hl, -, hr⟩ := h
      exact ⟨⟨rfl, (ihl hl).1, (ihr hr).1⟩, (ihl hl).2, (ihr hr).2⟩
  | term first ih => exact ih h
  | add left op spelled right ihl ihr =>
      rw [tokens, List.forall_mem_append, List.forall_mem_cons] at h
      obtain ⟨hl, -, hr⟩ := h
      exact ⟨⟨rfl, (ihl hl).1, (ihr hr).1⟩, (ihl hl).2, (ihr hr).2⟩

theorem Logged.result_andThen_of_ok {α β : Type} {first : Logged α} {a : α}
    (h : first.result = .ok a) (next : α → Logged β) :
    (first.andThen next).result = (next a).result := by
  rw [andThen, h]

theorem Logged.result_andThen_of_error {α β : Type} {first : Logged α} {failure : Failure}
    (h : first.result = .error failure) (next : α → Logged β) :
    (first.andThen next).result = .error failure := by
  rw [andThen, h]

theorem Logged.andThen_eq_ok {α β : Type} {first : Logged α} {next : α → Logged β} {b : β}
    (h : (first.andThen next).result = .ok b) :
    ∃ a, first.result = .ok a ∧ (next a).result = .ok b := by
  unfold andThen at h
  cases hfirst : first.result with
  | error failure => simp [hfirst] at h
  | ok a => exact ⟨a, rfl, by simpa [hfirst] using h⟩

/-- A result that passes a check on what it holds is no error. -/
theorem exists_ok_of_map_toOption {ε α β : Type} {result : Except ε α} {f : α → β} {b : β}
    (h : result.toOption.map f = some b) : ∃ a, result = .ok a ∧ f a = b := by
  cases result with
  | error fault => cases h
  | ok a => exact ⟨a, rfl, Option.some.inj h⟩

namespace Compilation

variable {options : CompilerOptions} {source text : String} {compiled : Compiled}

theorem result_compile (options : CompilerOptions) (source text : String) :
    (compile options source text).result = (stages options source text).result := by
  unfold compile
  dsimp only
  split
  · rfl
  · split <;> rfl

theorem collect_eq_ok {found : List Token} (h : (collect source text).result = .ok found) :
    (Stream.ofText source text).tokens = .ok found := by
  obtain ⟨found', htokens, hfound⟩ := Logged.andThen_eq_ok h
  obtain rfl := Except.ok.inj hfound
  exact eq_ok_of_mapError_eq_ok htokens

theorem ofTokens_eq_ok {found : List Token} {tree : Expr}
    (h : (ofTokens source text found).result = .ok tree) :
    ∃ (p : Phrase .sum) (token : Token) (after : List Token),
      found = p.tokens ++ token :: after ∧ token.isFinish = true ∧ p.tree = tree :=
  exists_phrase_of_read (outcome_of_result_ofStream h)

theorem compile_eq_ok (h : (compile options source text).result = .ok compiled) :
    (Stream.ofText source text).tokens = .ok compiled.tokens ∧
    (∃ (p : Phrase .sum) (token : Token) (after : List Token),
      compiled.tokens = p.tokens ++ token :: after ∧ token.isFinish = true ∧
        p.tree = compiled.tree) ∧
    compiled.tree.program { entry := options.entry, remarks := options.remarks } =
      .ok compiled.lines := by
  rw [result_compile] at h
  obtain ⟨found, hfound, h⟩ := Logged.andThen_eq_ok h
  obtain ⟨tree, htree, h⟩ := Logged.andThen_eq_ok h
  obtain ⟨lines, hlines, h⟩ := Logged.andThen_eq_ok h
  obtain rfl := Except.ok.inj h
  refine ⟨collect_eq_ok hfound, ofTokens_eq_ok htree, ?_⟩
  unfold assemble at hlines
  split at hlines
  · cases hlines
  · next found hprogram => rwa [Except.ok.inj hlines] at hprogram

/-- The tree of a compiled text has no gaps, and its literals are words. -/
theorem complete_tree_of_compile (h : (compile options source text).result = .ok compiled) :
    compiled.tree.Complete ∧ compiled.tree.WordLiterals := by
  obtain ⟨htokens, ⟨p, token, after, hfound, -, htree⟩, -⟩ := compile_eq_ok h
  rw [← htree]
  refine p.complete_tree fun t ht ↦ inRange_of_mem_tokens_ofText htokens ?_
  rw [hfound]
  exact List.mem_append_left _ ht

theorem lines_of_compile (h : (compile options source text).result = .ok compiled) :
    compiled.lines = compiled.tree.programLines options.entry options.remarks := by
  obtain ⟨-, -, hlines⟩ := compile_eq_ok h
  obtain ⟨he, hliterals⟩ := complete_tree_of_compile h
  rw [Expr.program_eq_ok rfl he hliterals.short] at hlines
  exact (Except.ok.inj hlines).symm

end Compilation

end ArithAsm
