import ArithAsm.Proofs.Compilation.Accepted
import ArithAsm.Proofs.Sentence.Demand

/-!
# Reading at once and reading ahead

A text may be read while its tokens come, or once all of them are there.  Where every segment is
sound the two readings have one result.  Where one is not, the second reading always fails by
it, and the first one does so unless a token before it is refused.
-/

namespace ArithAsm

namespace Compilation

variable {source text : String}

theorem result_collect (source text : String) :
    (collect source text).result = (tokens source text).result := by
  cases h : (tokens source text).result with
  | error failure => exact Logged.result_andThen_of_error h _
  | ok found => exact Logged.result_andThen_of_ok h _

theorem result_parseCollected_of_ok {found : List Token}
    (h : (tokens source text).result = .ok found) :
    (parseCollected source text).result = (ofTokens source text found).result :=
  Logged.result_andThen_of_ok ((result_collect source text).trans h) _

theorem result_parseCollected_of_error {failure : Failure}
    (h : (tokens source text).result = .error failure) :
    (parseCollected source text).result = .error failure :=
  Logged.result_andThen_of_error ((result_collect source text).trans h) _

/-- The tokens of a text, with the end behind them, have a tree unless one of them is to blame. -/
theorem result_ofTokens_finish {given : List Token} {finish : Token} (h : finish.isFinish = true)
    (hfound : (Stream.ofText source text).tokens = .ok (given ++ [finish])) :
    (∃ tree, (ofTokens source text (given ++ [finish])).result = .ok tree) ∨
      ∃ token d, (ofTokens source text (given ++ [finish])).result =
        .error (.grammatical (some token) d) := by
  rcases outcome_read_finish given h with ⟨tree, htree⟩ | ⟨fault, hfault⟩
  · exact .inl ⟨tree, by rw [ofTokens, result_ofStream, htree]; rfl⟩
  · have hrange := inRange_of_mem_tokens_ofText hfound (mem_of_outcome_refused hfault)
    obtain ⟨d, hd⟩ :=
      SyntaxFault.exists_failure_of_not_isLong hrange.not_isLong (Text.lines text)
    exact .inr ⟨fault.found, d, (result_ofStream_of_refused hfault).trans (congrArg _ hd)⟩

theorem result_parse_of_tokens {found : List Token}
    (h : (Stream.ofText source text).tokens = .ok found) :
    (parse source text).result = (ofTokens source text found).result := by
  rw [parse, ofTokens, result_ofStream, result_ofStream, Stream.read, Stream.read,
    Pending.outcome_read_of_tokens h]

/-- A text without unsound segments is read alike in both ways. -/
theorem result_parse_of_sound (source : String) {segments : List Segment}
    (h : IsSegmentation text.toList segments) (hsound : ∀ s ∈ segments, s.Sound) :
    (parse source text).result = (parseCollected source text).result ∧
      ((∃ tree, (parse source text).result = .ok tree) ∨
        ∃ token d, (parse source text).result = .error (.grammatical (some token) d)) := by
  have htokens := Stream.tokens_ofText_of_sound source h hsound
  have hparse := result_parse_of_tokens htokens
  rw [result_parseCollected_of_ok (result_tokens_of_ok htokens), hparse]
  exact ⟨rfl, result_ofTokens_finish rfl htokens⟩

/-- What a reading makes of a text with an unsound segment, while its tokens come. -/
theorem result_parse_of_fault {given : List Token} {fault : LexFault}
    (hgiven : ∀ token ∈ given, token.isFinish = false)
    (h : Stream.ofText source text = Stream.ofTokens given ++ [.fault fault]) :
    (Viable given ∧ (parse source text).result = .error fault.failure) ∨
      (¬ Viable given ∧ ∃ token ∈ given, ∃ d,
        (parse source text).result = .error (.grammatical (some token) d)) := by
  rcases outcome_read_fault hgiven fault with
    ⟨hviable, hread⟩ | ⟨hviable, expected, token, htoken, hread⟩
  · exact .inl ⟨hviable, by rw [parse, result_ofStream, h, hread]; rfl⟩
  · have harrival : Arrival.token token ∈ Stream.ofText source text := by
      rw [h]
      exact List.mem_append_left _ (List.mem_map_of_mem htoken)
    have hshort : ¬ (SyntaxFault.mk expected token).found.IsLong :=
      (inRange_of_mem_ofSegments harrival).not_isLong
    obtain ⟨d, hd⟩ := SyntaxFault.exists_failure_of_not_isLong hshort (Text.lines text)
    rw [← h] at hread
    exact .inr ⟨hviable, token, htoken, d,
      (result_ofStream_of_refused hread).trans (congrArg _ hd)⟩

end Compilation

theorem Segment.FailsWith.ne_grammatical {place : Location} {bad : Segment} {failure : Failure}
    (h : bad.FailsWith place failure) (token : Option Token) (d : Diagnostic) :
    failure ≠ .grammatical token d := by
  cases h <;> exact nofun

namespace Compilation

/-- Both readings give the same trees.  They have the same result where all segments of the text
are sound.  Otherwise the reading once all tokens are there fails by the first unsound segment,
and the reading while they come either does so too or fails by a token before that segment, the
latter just if no sentence starts with the tokens before it. -/
theorem parse_compared_to_parseCollected (source text : String) :
    (∀ tree, (parse source text).result = .ok tree ↔
      (parseCollected source text).result = .ok tree) ∧
    (∀ found, (tokens source text).result = .ok found →
      (parse source text).result = (parseCollected source text).result ∧
        ((∃ tree, (parse source text).result = .ok tree) ∨
          ∃ token d, (parse source text).result = .error (.grammatical (some token) d))) ∧
    ∀ failure, (tokens source text).result = .error failure →
      (parseCollected source text).result = .error failure ∧
      ∃ before bad, FirstUnsound text.toList before bad ∧
        bad.FailsWith (Segment.placeAfter source (Segment.width before)) failure ∧
        ((parse source text).result = .error failure ∨
          ∃ token d, (parse source text).result = .error (.grammatical (some token) d) ∧
            token.place.column <
              (Segment.placeAfter source (Segment.width before)).column) ∧
        ((∃ token d, (parse source text).result = .error (.grammatical token d)) ↔
          ¬ Viable (Segment.tokensAfter source 0 before)) := by
  rcases sound_or_firstUnsound text.toList with ⟨segments, hsegments, hsound⟩ | ⟨before, bad, h⟩
  · have htokens :=
      result_tokens_of_ok (Stream.tokens_ofText_of_sound source hsegments hsound)
    have hresult := result_parse_of_sound source hsegments hsound
    refine ⟨fun tree ↦ by rw [hresult.1], fun found _ ↦ hresult, fun failure hfailure ↦ ?_⟩
    rw [htokens] at hfailure
    cases hfailure
  · obtain ⟨fault, hstream, hfails⟩ := Stream.ofText_of_firstUnsound source h
    have htokens := result_tokens_of_fault hstream
    have hcollected := result_parseCollected_of_error htokens
    have hparse := result_parse_of_fault Segment.isFinish_of_mem_tokensAfter hstream
    refine ⟨fun tree ↦ ?_, fun found hfound ↦ ?_, fun failure hfailure ↦ ?_⟩
    · rw [hcollected]
      rcases hparse with ⟨-, hparse⟩ | ⟨-, token, -, d, hparse⟩ <;> rw [hparse]
      exact iff_of_false nofun nofun
    · rw [htokens] at hfound
      cases hfound
    · rw [htokens] at hfailure
      obtain rfl := Except.error.inj hfailure
      refine ⟨hcollected, before, bad, h, hfails, ?_, ?_⟩
      · rcases hparse with ⟨-, hparse⟩ | ⟨-, token, htoken, d, hparse⟩
        · exact .inl hparse
        · obtain ⟨after, hsegments, -⟩ := h
          have hform : ∀ s ∈ before, s.WellFormed :=
            fun s hs ↦ hsegments.wellFormed s (List.mem_append_left _ hs)
          have hcolumn := Segment.column_lt_of_mem_tokensAfter hform htoken
          rw [Nat.zero_add] at hcolumn
          exact .inr ⟨token, d, hparse, hcolumn⟩
      · rcases hparse with ⟨hviable, hparse⟩ | ⟨hviable, token, -, d, hparse⟩
        · refine iff_of_false ?_ (not_not_intro hviable)
          rintro ⟨token, d, hgrammatical⟩
          rw [hparse] at hgrammatical
          exact hfails.ne_grammatical token d (Except.error.inj hgrammatical)
        · exact iff_of_true ⟨some token, d, hparse⟩ hviable

/-- The texts `1 2` and `1 2 $`.  In the second one the number `2` is refused before the stray
character is met, though not if all tokens have to be there. -/
theorem parse_compared_to_parseCollected_second_number :
    let at_ := fun column : Int ↦ ({ line := 1, column } : Location)
    let found : List Token :=
      [⟨.number (some 1), at_ 1⟩, ⟨.number (some 2), at_ 3⟩, ⟨.finish none, at_ 4⟩]
    let failure := LexFault.failure (.stray '$' (at_ 5) "1 2 $")
    ((tokens "<input>" "1 2").result = .ok found ∧
      (parse "<input>" "1 2").result = (parseCollected "<input>" "1 2").result) ∧
    (tokens "<input>" "1 2 $").result = .error failure ∧
      (parseCollected "<input>" "1 2 $").result = .error failure ∧
      ∃ before bad, FirstUnsound "1 2 $".toList before bad ∧
        bad.FailsWith (Segment.placeAfter "<input>" (Segment.width before)) failure ∧
        ¬ Viable (Segment.tokensAfter "<input>" 0 before) := by
  intro at_ found failure
  have hfound : (tokens "<input>" "1 2").result = .ok found := rfl
  have hfailure : (tokens "<input>" "1 2 $").result = .error failure := rfl
  obtain ⟨-, hsame, -⟩ := parse_compared_to_parseCollected "<input>" "1 2"
  obtain ⟨-, -, hfails⟩ := parse_compared_to_parseCollected "<input>" "1 2 $"
  obtain ⟨hcollected, before, bad, hfirst, hbad, -, hviable⟩ := hfails failure hfailure
  refine ⟨⟨hfound, (hsame _ hfound).1⟩, hfailure, hcollected, before, bad, hfirst, hbad, ?_⟩
  exact hviable.mp ⟨_, _, rfl⟩

end Compilation

end ArithAsm
