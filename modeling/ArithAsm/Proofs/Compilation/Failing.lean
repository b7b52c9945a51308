import ArithAsm.Proofs.CommandLine.Answer
import ArithAsm.Proofs.Compilation.Readings

/-!
# How a compilation fails

A text that is no expression fails by a segment or by a token.  The code of a tree that was read
can always be drafted, so nothing else goes wrong, except that a run of more digits than are ever
converted fails without a diagnostic.
-/

namespace ArithAsm

/-- The first unsound segment is a run of more digits than are converted. -/
def Overlong (text : List Char) : Prop :=
  ∃ before run, FirstUnsound text before (.digits run) ∧ 4300 < run.length

theorem isSegmentation_digits {run : List Char} (hne : run ≠ [])
    (hdigits : ∀ c ∈ run, c.isDigit = true) : IsSegmentation run [.digits run] := by
  constructor
  · exact List.append_nil run
  · exact List.forall_mem_singleton.mpr ⟨hne, hdigits⟩
  · exact List.isChain_singleton _

/-- A run of digits on its own is its own first fault, if it is one. -/
theorem firstUnsound_digits {run : List Char} (hne : run ≠ [])
    (hdigits : ∀ c ∈ run, c.isDigit = true) (h : ¬ (Segment.digits run).Sound) :
    FirstUnsound run [] (.digits run) :=
  ⟨[], isSegmentation_digits hne hdigits, List.forall_mem_nil _, h⟩

theorem overlong_of_digits {run : List Char} (hdigits : ∀ c ∈ run, c.isDigit = true)
    (hlong : 4300 < run.length) : Overlong run := by
  have hne : run ≠ [] := List.ne_nil_of_length_pos (Nat.zero_lt_of_lt hlong)
  have hunsound : ¬ (Segment.digits run).Sound := fun h ↦ Nat.not_le.mpr hlong h.1
  exact ⟨[], run, firstUnsound_digits hne hdigits hunsound, hlong⟩

/-- A short text has no such run. -/
theorem not_overlong_of_length_le {text : List Char} (h : text.length ≤ 4300) :
    ¬ Overlong text := by
  rintro ⟨before, run, ⟨after, hsegments, -⟩, hlong⟩
  have hwidth := hsegments.width_eq
  rw [Segment.width_append, Segment.width_cons, Segment.text] at hwidth
  omega

namespace Compilation

variable {options : CompilerOptions} {source text : String}

theorem result_compile_of_tokens_error {failure : Failure}
    (h : (tokens source text).result = .error failure) :
    (compile options source text).result = .error failure := by
  rw [result_compile]
  exact Logged.result_andThen_of_error ((result_collect source text).trans h) _

theorem result_compile_of_ofTokens_error {found : List Token} {failure : Failure}
    (hfound : (tokens source text).result = .ok found)
    (h : (ofTokens source text found).result = .error failure) :
    (compile options source text).result = .error failure := by
  have hcollect := (result_collect source text).trans hfound
  rw [result_compile, stages, Logged.result_andThen_of_ok hcollect]
  exact Logged.result_andThen_of_error h _

theorem complete_of_ofTokens {found : List Token} {tree : Expr}
    (hfound : (Stream.ofText source text).tokens = .ok found)
    (h : (ofTokens source text found).result = .ok tree) : tree.Complete ∧ tree.WordLiterals := by
  obtain ⟨p, token, after, htokens, -, rfl⟩ := ofTokens_eq_ok h
  refine p.complete_tree fun t ht ↦ inRange_of_mem_tokens_ofText hfound ?_
  rw [htokens]
  exact List.mem_append_left _ ht

/-- Code is found for every tree that is read from the tokens of a text. -/
theorem result_compile_of_ofTokens_ok {found : List Token} {tree : Expr}
    (hfound : (Stream.ofText source text).tokens = .ok found)
    (h : (ofTokens source text found).result = .ok tree) :
    (compile options source text).result = .ok
      ⟨source, text, found, tree, tree.programLines options.entry options.remarks⟩ := by
  obtain ⟨hcomplete, hliterals⟩ := complete_of_ofTokens hfound h
  have hcollect := (result_collect source text).trans (result_tokens_of_ok hfound)
  have hassemble : (assemble { entry := options.entry, remarks := options.remarks } tree).result =
      .ok (tree.programLines options.entry options.remarks) := by
    rw [assemble, Expr.program_eq_ok rfl hcomplete hliterals.short]
  rw [result_compile, stages, Logged.result_andThen_of_ok hcollect, Logged.result_andThen_of_ok h,
    Logged.result_andThen_of_ok hassemble]

theorem exists_compiled_of_ofTokens {found : List Token} {tree : Expr}
    (hfound : (Stream.ofText source text).tokens = .ok found)
    (h : (ofTokens source text found).result = .ok tree) :
    ∃ compiled, (compile options source text).result = .ok compiled :=
  ⟨_, result_compile_of_ofTokens_ok hfound h⟩

/-- Whether a text is compiled does not depend on the options. -/
theorem exists_compiled_of_compile {other : CompilerOptions} {accepted : Compiled}
    (h : (compile other source text).result = .ok accepted) (options : CompilerOptions) :
    ∃ compiled, (compile options source text).result = .ok compiled := by
  rw [result_compile] at h
  obtain ⟨found, hfound, h⟩ := Logged.andThen_eq_ok h
  obtain ⟨tree, htree, -⟩ := Logged.andThen_eq_ok h
  exact exists_compiled_of_ofTokens (collect_eq_ok hfound) htree

theorem complete_of_parseCollected {tree : Expr}
    (h : (parseCollected source text).result = .ok tree) : tree.Complete ∧ tree.WordLiterals := by
  obtain ⟨found, hfound, htree⟩ := Logged.andThen_eq_ok h
  exact complete_of_ofTokens (collect_eq_ok hfound) htree

theorem result_compile_of_sound (options : CompilerOptions) (source : String)
    {segments : List Segment} (h : IsSegmentation text.toList segments)
    (hsound : ∀ s ∈ segments, s.Sound) :
    (∃ compiled, (compile options source text).result = .ok compiled) ∨
      ∃ token d, (compile options source text).result = .error (.grammatical (some token) d) := by
  have hfound := Stream.tokens_ofText_of_sound source h hsound
  let finish : Token := ⟨.finish none, Segment.placeAfter source text.length⟩
  have hfinish : finish.isFinish = true := rfl
  rcases result_ofTokens_finish hfinish hfound with
    ⟨tree, htree⟩ | ⟨token, d, hfault⟩
  · exact .inl (exists_compiled_of_ofTokens hfound htree)
  · exact .inr ⟨token, d, result_compile_of_ofTokens_error (result_tokens_of_ok hfound) hfault⟩

theorem result_compile_of_firstUnsound (options : CompilerOptions) (source : String)
    {before : List Segment} {bad : Segment} (h : FirstUnsound text.toList before bad) :
    ∃ failure, (compile options source text).result = .error failure ∧
      bad.FailsWith (Segment.placeAfter source (Segment.width before)) failure := by
  obtain ⟨fault, hstream, hfails⟩ := Stream.ofText_of_firstUnsound source h
  exact ⟨fault.failure, result_compile_of_tokens_error (result_tokens_of_fault hstream), hfails⟩

theorem result_compile_of_not_overlong (h : ¬ Overlong text.toList) :
    (∃ compiled, (compile options source text).result = .ok compiled) ∨
      (∃ shown d, (compile options source text).result = .error (.lexical shown d)) ∨
      ∃ token d, (compile options source text).result = .error (.grammatical (some token) d) := by
  rcases sound_or_firstUnsound text.toList with ⟨segments, hsegments, hsound⟩ | ⟨before, bad, hbad⟩
  · rcases result_compile_of_sound options source hsegments hsound with hok | hfault
    · exact .inl hok
    · exact .inr (.inr hfault)
  · obtain ⟨failure, hresult, hfails⟩ := result_compile_of_firstUnsound options source hbad
    cases hfails with
    | stray c d _ => exact .inr (.inl ⟨_, d, hresult⟩)
    | tooLarge run d _ _ _ => exact .inr (.inl ⟨_, d, hresult⟩)
    | tooLong run message hlong => exact absurd ⟨before, run, hbad, hlong⟩ h

theorem badValue_of_overlong (h : Overlong text.toList) :
    ∃ message, (compile options source text).result = .error (.badValue message) := by
  obtain ⟨before, run, hrun, hlong⟩ := h
  obtain ⟨failure, hresult, hfails⟩ := result_compile_of_firstUnsound options source hrun
  cases hfails with
  | tooLarge run d hlength _ _ => exact absurd hlong (Nat.not_lt.mpr hlength)
  | tooLong run message _ => exact ⟨message, hresult⟩

/-- A run of digits on its own is a program unless it is too long or its value too large. -/
theorem exists_compiled_of_digits (hne : text.toList ≠ [])
    (hdigits : ∀ c ∈ text.toList, c.isDigit = true) (hlength : text.length ≤ 4300)
    (hvalue : runValue text.toList ≤ 2 ^ 63 - 1) :
    ∃ compiled, (compile options source text).result = .ok compiled := by
  have hsegments := isSegmentation_digits hne hdigits
  have hsound : ∀ s ∈ [Segment.digits text.toList], s.Sound := by
    refine List.forall_mem_singleton.mpr ⟨?_, hvalue⟩
    rwa [String.length_toList]
  exact exists_compiled_of_ofTokens (Stream.tokens_ofText_of_sound source hsegments hsound) rfl

/-- A compilation that fails is the fault of a segment or of a token, except where the first
unsound segment is a run of more digits than are converted.  So such a run is the only reason why
the command does not exit as for a program or for a text that is none. -/
theorem result_compile_or_overlong (options : CompilerOptions) (source text : String) :
    (¬ Overlong text.toList →
      (∃ compiled, (compile options source text).result = .ok compiled) ∨
      (∃ shown d, (compile options source text).result = .error (.lexical shown d)) ∨
      ∃ token d, (compile options source text).result = .error (.grammatical (some token) d)) ∧
    (Overlong text.toList →
      ∃ message, (compile options source text).result = .error (.badValue message)) ∧
    (∀ before run, FirstUnsound text.toList before (.digits run) → run.length ≤ 4300 →
      2 ^ 63 - 1 < runValue run ∧
        ∃ d, (compile options source text).result = .error (.lexical (String.ofList run) d)) ∧
    (text.toList ≠ [] → (∀ c ∈ text.toList, c.isDigit = true) → text.length ≤ 4300 →
      runValue text.toList ≤ 2 ^ 63 - 1 →
      ∃ compiled, (compile options source text).result = .ok compiled) ∧
    ∀ world, let code := (CommandLine.respond ["--", text] world).1.exitCode
      (¬ Overlong text.toList → code = .success ∨ code = .buildError) ∧
        (Overlong text.toList → code = .internalError) := by
  refine ⟨result_compile_of_not_overlong, badValue_of_overlong, ?_, ?_, ?_⟩
  · intro before run h hlength
    obtain ⟨failure, hresult, hfails⟩ := result_compile_of_firstUnsound options source h
    cases hfails with
    | tooLarge run d _ hvalue _ => exact ⟨hvalue, d, hresult⟩
    | tooLong run message hlong => exact absurd hlength (Nat.not_le.mpr hlong)
  · exact exists_compiled_of_digits
  · intro world code
    have hcode := CommandLine.exitCode_respond_separator text world
    change code = _ at hcode
    rw [hcode]
    constructor
    · intro h
      rcases result_compile_of_not_overlong h with
        ⟨compiled, hresult⟩ | ⟨shown, d, hresult⟩ | ⟨token, d, hresult⟩
      · exact .inl (by rw [hresult]; rfl)
      · exact .inr (by rw [hresult]; rfl)
      · exact .inr (by rw [hresult]; rfl)
    · intro h
      obtain ⟨message, hresult⟩ := badValue_of_overlong h
      rw [hresult]
      rfl

/-- Runs of 4301 nines, of the first number that is too large, and of two leading zeros. -/
theorem result_compile_or_overlong_runs :
    let nines := String.ofList (List.replicate 4301 '9')
    (∃ message, (compile {} "<input>" nines).result = .error (.badValue message)) ∧
      (∀ world, (CommandLine.respond ["--", nines] world).1.exitCode = .internalError) ∧
      (∃ d, (compile {} "<input>" "9223372036854775808").result =
        .error (.lexical "9223372036854775808" d)) ∧
      (∃ compiled, (compile {} "<input>" "007").result = .ok compiled) ∧
      ∀ world, (CommandLine.respond ["--", "007"] world).1.exitCode = .success ∨
        (CommandLine.respond ["--", "007"] world).1.exitCode = .buildError := by
  intro nines
  have hoverlong : Overlong nines.toList := by
    rw [String.toList_ofList]
    refine overlong_of_digits (fun c hc ↦ ?_) ?_
    · rw [List.eq_of_mem_replicate hc]
      rfl
    · rw [List.length_replicate]
      decide
  have hlarge : FirstUnsound "9223372036854775808".toList []
      (.digits "9223372036854775808".toList) :=
    firstUnsound_digits (by decide) (List.all_eq_true.mp rfl) (by decide)
  obtain ⟨-, hnines, -, -, hcode⟩ := result_compile_or_overlong {} "<input>" nines
  obtain ⟨-, -, hlexical, -⟩ := result_compile_or_overlong {} "<input>" "9223372036854775808"
  obtain ⟨-, -, -, hcompiled, hexit⟩ := result_compile_or_overlong {} "<input>" "007"
  refine ⟨hnines hoverlong, fun world ↦ (hcode world).2 hoverlong,
    (hlexical [] _ hlarge (by decide)).2, ?_, ?_⟩
  · exact hcompiled (by decide) (List.all_eq_true.mp rfl) (by decide) (by decide)
  · exact fun world ↦ (hexit world).1 (not_overlong_of_length_le (by decide))

end Compilation

end ArithAsm
