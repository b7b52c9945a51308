import ArithAsm.Proofs.Assembly.Recovery
import ArithAsm.Proofs.Compilation.Failing
import ArithAsm.Proofs.Sentence.Placement
import ArithAsm.Proofs.Source.Spacing

/-!
# Layout and meaning

Where the words of a text stand does not matter to its program.  Token lists with the same words
are read alike, and a program does not depend on the places in its tree.  So texts with the same
words are compiled to the same program or fail for the same reason, and edits of the layout keep
the words.
-/

namespace ArithAsm

namespace Compilation

variable {source source' text text' : String} {given given' : List Token}

theorem words_of_respaced (h : Relation.EqvGen Respaces text.toList text'.toList)
    (hgiven : (tokens source text).result = .ok given)
    (hgiven' : (tokens source' text').result = .ok given') :
    given.map Token.word = given'.map Token.word := by
  rw [Stream.words_of_tokens (eq_ok_of_mapError_eq_ok hgiven),
    Stream.words_of_tokens (eq_ok_of_mapError_eq_ok hgiven'), words_of_eqvGen_respaces h]

/-- The tokens of a text, with the end behind them, never run out. -/
theorem outcome_read_ne_exhausted (h : (Stream.ofText source text).tokens = .ok given) :
    (Stream.ofTokens given).read.outcome ≠ .error .exhausted := by
  obtain ⟨segments, -, -, rfl⟩ := Stream.exists_sound_of_tokens h
  let finish : Token := ⟨.finish none, Segment.placeAfter source text.length⟩
  have hfinish : finish.isFinish = true := rfl
  rcases outcome_read_finish (Segment.tokensAfter source 0 segments) hfinish with
    ⟨tree, hread⟩ | ⟨fault, hread⟩
  · rw [hread]
    exact nofun
  · rw [hread]
    exact nofun

/-- Texts with the same words have the same program, or for both of them a token is to blame and
the message is the same. -/
theorem result_compile_of_words (options : CompilerOptions)
    (hgiven : (tokens source text).result = .ok given)
    (hgiven' : (tokens source' text').result = .ok given')
    (h : given.map Token.word = given'.map Token.word) :
    (∃ compiled compiled', (compile options source text).result = .ok compiled ∧
      (compile options source' text').result = .ok compiled' ∧
      compiled.assembly = compiled'.assembly) ∨
    ∃ blamed blamed' d d', (compile options source text).result = .error (.grammatical blamed d) ∧
      (compile options source' text').result = .error (.grammatical blamed' d') ∧
      d.message = d'.message := by
  have hfound := eq_ok_of_mapError_eq_ok hgiven
  have hfound' := eq_ok_of_mapError_eq_ok hgiven'
  have hneeded := outcome_read_ne_exhausted hfound
  have halike := readAlike_of_words h
  have hresult : (ofTokens source text given).result = _ := result_ofStream source _ _
  have hresult' : (ofTokens source' text' given').result = _ := result_ofStream source' _ _
  generalize (Stream.ofTokens given).read = reading at hneeded halike hresult
  generalize (Stream.ofTokens given').read = reading' at halike hresult'
  cases halike with
  | tree tree tree' rest rest' htrees =>
      refine .inl ⟨_, _, result_compile_of_ofTokens_ok hfound hresult,
        result_compile_of_ofTokens_ok hfound' hresult', ?_⟩
      exact congrArg programText (htrees.programLines_eq options.entry options.remarks)
  | refused j fault fault' hmessage hword hfault _ =>
      have hrange := inRange_of_mem_tokens_ofText hfound (List.mem_of_getElem? hfault)
      rcases SyntaxFault.failure_of_word hmessage hword (Text.lines text) (Text.lines text') with
        ⟨d, d', hd, hd', hsame⟩ | ⟨hlong, -⟩
      · exact .inr ⟨_, _, d, d',
          result_compile_of_ofTokens_error hgiven (hresult.trans (congrArg _ hd)),
          result_compile_of_ofTokens_error hgiven' (hresult'.trans (congrArg _ hd')), hsame⟩
      · exact absurd hlong hrange.not_isLong
  | exhausted => exact absurd rfl hneeded

end Compilation

end ArithAsm
