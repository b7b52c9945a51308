import ArithAsm.Proofs.Compilation.Failing
import ArithAsm.Proofs.Source.Reached
import Mathlib.Data.List.TakeWhile

/-!
# Where diagnostics point

A text that is no expression fails by something that arrives from it, a token or a fault.  Its
diagnostic has the place of that arrival and shows the first line of the text, with a caret below
the character where the segment to blame starts.
-/

namespace ArithAsm

/-! ## What is to blame -/

/-- A failure that comes from an arrival of a stream, or from there being no more of them. -/
inductive Stream.Blames (lines : List String) (stream : Stream) : Failure → Prop where
  | fault (fault : LexFault) (h : .fault fault ∈ stream) : Blames lines stream fault.failure
  | token (fault : SyntaxFault) (h : .token fault.found ∈ stream) :
      Blames lines stream (fault.failure lines)
  | exhausted : Blames lines stream .exhausted

theorem Stream.Blames.mono {lines : List String} {stream other : Stream} {failure : Failure}
    (h : stream.Blames lines failure) (hsub : stream ⊆ other) : other.Blames lines failure := by
  cases h with
  | fault fault h => exact .fault fault (hsub h)
  | token fault h => exact .token fault (hsub h)
  | exhausted => exact .exhausted

theorem Pending.blames_of_read {lines : List String} {stream : Stream} {state : Pending}
    {fault : ReadFault} (h : (state.read stream).outcome = .error fault) :
    stream.Blames lines (fault.failure lines) := by
  induction stream generalizing state with
  | nil =>
      obtain rfl := Except.error.inj h
      exact .exhausted
  | cons arrival rest ih =>
      cases arrival with
      | event event => exact (ih h).mono (List.subset_cons_self _ _)
      | fault found =>
          obtain rfl := Except.error.inj h
          exact .fault found List.mem_cons_self
      | token token =>
          rw [Pending.read] at h
          cases hstep : state.step token with
          | go next =>
              rw [hstep] at h
              exact (ih h).mono (List.subset_cons_self _ _)
          | complete tree =>
              rw [hstep] at h
              cases h
          | refuse expected =>
              rw [hstep] at h
              obtain rfl := Except.error.inj h
              exact .token ⟨expected, token⟩ List.mem_cons_self

theorem Stream.fault_mem_of_tokens {stream : Stream} {fault : LexFault}
    (h : stream.tokens = .error fault) : .fault fault ∈ stream := by
  induction stream with
  | nil => cases h
  | cons arrival rest ih =>
      cases arrival with
      | event event => exact .tail _ (ih h)
      | fault found =>
          obtain rfl := Except.error.inj h
          exact .head _
      | token token =>
          rw [Stream.tokens] at h
          cases hrest : Stream.tokens rest with
          | ok later =>
              rw [hrest] at h
              cases h
          | error found =>
              rw [hrest] at h
              obtain rfl := Except.error.inj h
              exact .tail _ (ih hrest)

namespace Compilation

variable {options : CompilerOptions} {source text : String} {failure : Failure}

theorem blames_of_result_ofStream {lines : List String} {stream : Stream}
    (h : (ofStream source lines stream).result = .error failure) :
    stream.Blames lines failure := by
  rw [result_ofStream] at h
  obtain ⟨fault, hread, rfl⟩ := exists_of_mapError_eq_error h
  exact Pending.blames_of_read hread

theorem blames_of_result_compile (h : (compile options source text).result = .error failure) :
    (Stream.ofText source text).Blames (Text.lines text) failure := by
  cases htokens : (Stream.ofText source text).tokens with
  | error fault =>
      have hresult : (tokens source text).result = .error fault.failure :=
        congrArg (Except.mapError _) htokens
      rw [result_compile_of_tokens_error hresult] at h
      obtain rfl := Except.error.inj h
      exact .fault fault (Stream.fault_mem_of_tokens htokens)
  | ok found =>
      have hsub : Stream.ofTokens found ⊆ Stream.ofText source text := by
        intro arrival harrival
        obtain ⟨token, htoken, rfl⟩ := List.mem_map.mp harrival
        exact mem_of_mem_tokens htokens htoken
      cases hread : (ofTokens source text found).result with
      | error other =>
          rw [result_compile_of_ofTokens_error (result_tokens_of_ok htokens) hread] at h
          obtain rfl := Except.error.inj h
          exact (blames_of_result_ofStream hread).mono hsub
      | ok tree =>
          rw [result_compile_of_ofTokens_ok htokens hread] at h
          cases h

end Compilation

/-! ## The lines that are shown -/

theorem sourceLine_of_numberAt {place : Location} {line shown : String} {run : List Char}
    {fault : LexFault} {d : Diagnostic} (h : numberAt place line run = .fault fault)
    (hfailure : fault.failure = .lexical shown d) :
    d.sourceLine = some line ∧ d.hint ≠ some "" := by
  unfold numberAt at h
  split at h
  · next found hfound =>
      obtain rfl := Arrival.fault.inj h
      unfold readDigits at hfound
      split at hfound
      · obtain rfl := Except.error.inj hfound
        cases hfailure
      · cases hfound
  · next n hn =>
      split at h
      · obtain rfl := Arrival.fault.inj h
        obtain ⟨-, rfl⟩ := Failure.lexical.inj hfailure
        refine ⟨rfl, fun hempty ↦ ?_⟩
        have hhint : s!"literals must not exceed {maxLiteral}" ≠ "" := by decide
        exact hhint (Option.some.inj hempty)
      · cases h

theorem Stream.sourceLine_of_fault_mem {source line : String} {segments : List Segment}
    {column count : Nat} {fault : LexFault}
    (h : .fault fault ∈ ofSegments source line column count segments) {shown : String}
    {d : Diagnostic} (hfailure : fault.failure = .lexical shown d) :
    d.sourceLine = some line ∧ d.hint ≠ some "" := by
  induction segments generalizing column count with
  | nil => simp [ofSegments] at h
  | cons s rest ih =>
      cases s with
      | blank c => exact ih h
      | mark m =>
          rcases List.mem_cons.mp h with heq | hrest
          · cases heq
          · exact ih hrest
      | stray c =>
          obtain rfl := Arrival.fault.inj (List.mem_singleton.mp h)
          obtain ⟨-, rfl⟩ := Failure.lexical.inj hfailure
          have hhint : alphabetHint ≠ "" := by decide
          exact ⟨rfl, fun hempty ↦ hhint (Option.some.inj hempty)⟩
      | digits run =>
          rw [ofSegments] at h
          cases hnumber : numberAt ⟨source, 1, column⟩ line run with
          | event event =>
              rw [hnumber] at h
              rcases List.mem_cons.mp h with heq | hrest
              · cases heq
              · exact ih hrest
          | token token =>
              rw [hnumber] at h
              rcases List.mem_cons.mp h with heq | hrest
              · cases heq
              · exact ih hrest
          | fault found =>
              rw [hnumber] at h
              obtain rfl := Arrival.fault.inj (List.mem_singleton.mp h)
              exact sourceLine_of_numberAt hnumber hfailure

theorem SyntaxFault.hint_ne_empty (fault : SyntaxFault) : fault.hint ≠ some "" := by
  obtain ⟨expected, found⟩ := fault
  cases expected with
  | operand =>
      unfold hint
      split
      · decide
      · decide
      · exact nofun
      · cases ‹Expected.operand = _›
      · cases ‹Expected.operand = _›
  | closing opening =>
      have hlead : toString "add ')' to close '(' at column " ≠ "" := by decide
      exact fun hempty ↦ hlead (String.append_eq_empty_iff.mp (Option.some.inj hempty)).1
  | finish => simp [hint]

/-- The first line of a text, where any line end counts. -/
theorem lineAt_lines {text : String} (h : text ≠ "") :
    lineAt (Text.lines text) 1 =
      some (String.ofList (text.toList.takeWhile fun c ↦ !Text.isLineEnd c)) := by
  have hne : text.toList ≠ [] := mt String.toList_eq_nil_iff.mp h
  obtain ⟨more, hmore⟩ := Text.exists_splitLines_eq_cons hne
  rw [Text.lines, hmore]
  rfl

/-! ## Layout -/

namespace Diagnostic

variable {d : Diagnostic} {source text : String} {column : Nat}

/-- The diagnostic has a column on the first line of a text.  It is laid out with that line and a
caret below the column, except for the empty text, which has no line. -/
structure PointsAt (d : Diagnostic) (source text : String) (column : Nat) : Prop where
  place_eq : d.place = some ⟨source, 1, column⟩
  column_pos : 1 ≤ column
  column_le : column ≤ text.length + 1
  of_empty : text = "" → d.sourceLine = none ∧
    d.render = s!"{source}:1:{column}: error: {d.message}" ++ d.hint.elim "" ("\nhint: " ++ ·)
  of_ne_empty : text ≠ "" → ∃ line, d.sourceLine = some line ∧ line.toList <+: text.toList ∧
    column - 1 ≤ line.length ∧
    d.render = s!"{source}:1:{column}: error: {d.message}" ++ "\n    " ++ line ++ "\n" ++
      String.ofList (List.replicate (3 + column) ' ') ++ "^" ++ d.hint.elim "" ("\nhint: " ++ ·)

theorem headline_of_place (h : d.place = some ⟨source, 1, column⟩) :
    d.headline = s!"{source}:1:{column}: error: {d.message}" := by
  have hone : toString ":1:" = ":" ++ ("1" ++ ":") := by decide
  have hline : toString (1 : Int) = "1" := by decide
  have hcolumn : toString (column : Int) = toString column := rfl
  have hsame : ∀ text : String, toString text = text := fun _ ↦ rfl
  simp only [headline, h, Location.text, hone, hline, hcolumn, hsame, String.append_assoc]

theorem join_advice (h : d.hint ≠ some "") :
    String.join (d.advice.map ("\n" ++ ·)) = d.hint.elim "" ("\nhint: " ++ ·) := by
  cases hhint : d.hint with
  | none => rw [advice, hhint]; rfl
  | some hint =>
      have hempty : ¬ hint.isEmpty = true := by
        rw [String.isEmpty_iff]
        rintro rfl
        exact h hhint
      have hlabel : "\nhint: " = "\n" ++ "hint: " := by decide
      simp only [advice, hhint, if_neg hempty, List.map_cons, List.map_nil, String.join_cons,
        String.join_nil, String.append_empty, Option.elim_some]
      rw [hlabel, String.append_assoc]

theorem render_of_hint (h : d.hint ≠ some "") :
    d.render = d.headline ++ String.join (d.context.map ("\n" ++ ·)) ++
      d.hint.elim "" ("\nhint: " ++ ·) := by
  rw [render, List.cons_append, intercalate_newline_cons, List.map_append, String.join_append,
    join_advice h, String.append_assoc]

theorem context_of_line {line : String} (hplace : d.place = some ⟨source, 1, column⟩)
    (hcolumn : 1 ≤ column) (hline : d.sourceLine = some line) :
    d.context = ["    " ++ line, String.ofList (List.replicate (3 + column) ' ') ++ "^"] := by
  have hpositive : (column : Int) > 0 := by omega
  have hcaret : ((3 + (column : Int))).toNat = 3 + column := by omega
  simp only [context, hplace, hline, if_pos hpositive, hcaret, String.ofList_append]

theorem render_of_line {line : String} (hplace : d.place = some ⟨source, 1, column⟩)
    (hcolumn : 1 ≤ column) (hline : d.sourceLine = some line) (hhint : d.hint ≠ some "") :
    d.render = s!"{source}:1:{column}: error: {d.message}" ++ "\n    " ++ line ++ "\n" ++
      String.ofList (List.replicate (3 + column) ' ') ++ "^" ++
        d.hint.elim "" ("\nhint: " ++ ·) := by
  have hindent : "\n    " = "\n" ++ "    " := by decide
  rw [render_of_hint hhint, context_of_line hplace hcolumn hline, headline_of_place hplace,
    hindent]
  simp only [List.map_cons, List.map_nil, String.join_cons, String.join_nil, String.append_assoc,
    String.append_empty]

theorem render_of_no_line (hplace : d.place = some ⟨source, 1, column⟩)
    (hline : d.sourceLine = none) (hhint : d.hint ≠ some "") :
    d.render = s!"{source}:1:{column}: error: {d.message}" ++
      d.hint.elim "" ("\nhint: " ++ ·) := by
  have hcontext : d.context = [] := by rw [context, hline]
  rw [render_of_hint hhint, hcontext, headline_of_place hplace]
  exact congrArg (· ++ _) String.append_empty

/-- A diagnostic at a segment that is met, with the line on which it starts. -/
theorem pointsAt_of_reached {before : List Segment} {s : Segment}
    (h : Reached text.toList before s) {p : Char → Bool}
    (hp : ∀ c, Text.isLineEnd c = false → p c = true)
    (hplace : d.place = some (Segment.placeAfter source (Segment.width before)))
    (hline : d.sourceLine = some (String.ofList (text.toList.takeWhile p)))
    (hhint : d.hint ≠ some "") : d.PointsAt source text (Segment.width before + 1) := by
  have hcolumn : 1 ≤ Segment.width before + 1 := Nat.le_add_left _ _
  refine ⟨hplace, hcolumn, ?_, ?_, fun _ ↦ ⟨_, hline, ?_, ?_, ?_⟩⟩
  · have hlength := h.width_add_length_le
    rw [String.length_toList] at hlength
    omega
  · rintro rfl
    exact absurd rfl h.ne_nil
  · rw [String.toList_ofList]
    exact List.takeWhile_prefix p
  · rw [Nat.add_sub_cancel, String.length_ofList]
    exact h.width_le_length_line hp
  · exact render_of_line hplace hcolumn hline hhint

/-- A diagnostic at the end of a text of one line. -/
theorem pointsAt_end (hsingle : Text.IsSingle text.toList)
    (hplace : d.place = some (Segment.placeAfter source text.length))
    (hline : d.sourceLine = lineAt (Text.lines text) 1) (hhint : d.hint ≠ some "") :
    d.PointsAt source text (text.length + 1) ∧ (text ≠ "" → d.sourceLine = some text) := by
  have hcolumn : 1 ≤ text.length + 1 := Nat.le_add_left _ _
  have hwhole : text ≠ "" → d.sourceLine = some text := by
    intro hne
    have hall : text.toList.takeWhile (fun c ↦ !Text.isLineEnd c) = text.toList := by
      refine List.takeWhile_eq_self_iff.mpr fun c hc ↦ ?_
      rw [Text.isSingle_iff.mp hsingle c hc]
      rfl
    rw [hline, lineAt_lines hne, hall, String.ofList_toList]
  refine ⟨⟨hplace, hcolumn, le_rfl, ?_, fun hne ↦ ?_⟩, hwhole⟩
  · rintro rfl
    have hnone : d.sourceLine = none := hline.trans rfl
    exact ⟨hnone, render_of_no_line hplace hnone hhint⟩
  · exact ⟨text, hwhole hne, List.prefix_rfl, le_rfl,
      render_of_line hplace hcolumn (hwhole hne) hhint⟩

end Diagnostic

/-- A segment starts at a column of a text.  It ends on the given line, unless it is a line feed,
which comes right behind that line. -/
structure Segment.StandsAt (s : Segment) (text : String) (column : Nat) (line : String) : Prop where
  reached : ∃ before, Reached text.toList before s ∧ column = Segment.width before + 1
  starts : s.text <+: text.toList.drop (column - 1)
  within : s.text ≠ ['\n'] → column - 1 + s.text.length ≤ line.length
  behind : s.text = ['\n'] → column = line.length + 1

theorem Reached.standsAt {text : String} {before : List Segment} {s : Segment}
    (h : Reached text.toList before s) {p : Char → Bool}
    (hp : ∀ c, Text.isLineEnd c = false → p c = true) (hfeed : p '\n' = false)
    (hs : s.text ≠ ['\n'] → ∀ c ∈ s.text, p c = true) :
    s.StandsAt text (Segment.width before + 1) (String.ofList (text.toList.takeWhile p)) := by
  refine ⟨⟨before, h, rfl⟩, ?_, fun hne ↦ ?_, fun heq ↦ ?_⟩
  · rw [Nat.add_sub_cancel]
    exact h.text_isPrefix_drop
  · rw [Nat.add_sub_cancel, String.length_ofList]
    exact h.width_add_length_le_line hp (hs hne)
  · rw [String.length_ofList, h.line_eq_before hp heq hfeed, Segment.width]

namespace Compilation

variable {source text : String} {fault : LexFault} {shown : String} {d : Diagnostic}

/-- The line shown for a fault stops at a line feed only. -/
theorem pointsAt_of_fault (h : .fault fault ∈ Stream.ofText source text)
    (hfailure : fault.failure = .lexical shown d) :
    ∃ (column : Nat) (bad : Segment) (line : String),
      d.PointsAt source text column ∧ d.sourceLine = some line ∧
      bad.StandsAt text column line ∧ bad.text = shown.toList := by
  let p : Char → Bool := fun c ↦ decide (c ≠ '\n')
  have hfeed : p '\n' = false := by decide
  have hp : ∀ c, Text.isLineEnd c = false → p c = true := by
    intro c hc
    refine decide_eq_true ?_
    rintro rfl
    cases hc
  obtain ⟨hline, hhint⟩ := Stream.sourceLine_of_fault_mem h hfailure
  obtain ⟨before, bad, hreached, hfails⟩ := Stream.reached_of_fault_mem_ofText h
  rw [hfailure] at hfails
  cases hfails with
  | stray c d hplace =>
      refine ⟨_, .stray c, _, Diagnostic.pointsAt_of_reached hreached hp hplace hline hhint, hline,
        hreached.standsAt hp hfeed fun hne ↦ ?_, ?_⟩
      · refine List.forall_mem_singleton.mpr (decide_eq_true ?_)
        rintro rfl
        exact hne rfl
      · rw [Char.toString_eq_singleton, String.toList_singleton]
        rfl
  | tooLarge run d hlength hvalue hplace =>
      refine ⟨_, .digits run, _, Diagnostic.pointsAt_of_reached hreached hp hplace hline hhint,
        hline, hreached.standsAt hp hfeed fun _ c hc ↦ ?_, String.toList_ofList.symm⟩
      exact hp c (isLineEnd_of_isDigit (hreached.wellFormed.2 c hc))

theorem diagnostic_of_syntaxFault {fault : SyntaxFault} {lines : List String}
    {blamed : Option Token} (h : fault.failure lines = .grammatical blamed d) :
    blamed = some fault.found ∧ d.place = some fault.found.place ∧
      d.sourceLine = lineAt lines fault.found.place.line ∧ d.hint ≠ some "" := by
  obtain ⟨rfl, found, -, rfl⟩ := SyntaxFault.failure_eq_grammatical_iff.mp h
  exact ⟨rfl, rfl, rfl, fault.hint_ne_empty⟩

/-- The line shown for a token stops at any line end. -/
theorem pointsAt_of_token {fault : SyntaxFault} {blamed : Option Token}
    (h : .token fault.found ∈ Stream.ofText source text)
    (hfailure : fault.failure (Text.lines text) = .grammatical blamed d) :
    ∃ token column, blamed = some token ∧ d.PointsAt source text column ∧
      (token.isFinish = true → column = text.length + 1 ∧ (text ≠ "" → d.sourceLine = some text)) ∧
      (token.isFinish = false → ∃ (s : Segment) (line : String), d.sourceLine = some line ∧
        s.StandsAt text column line ∧ s.word? = some token.word) := by
  let p : Char → Bool := fun c ↦ !Text.isLineEnd c
  have hp : ∀ c, Text.isLineEnd c = false → p c = true := by
    intro c hc
    rw [Bool.not_eq_true', hc]
  obtain ⟨rfl, hplace, hline, hhint⟩ := diagnostic_of_syntaxFault hfailure
  refine ⟨fault.found, ?_⟩
  generalize fault.found = token at h hplace hline ⊢
  rcases Stream.reached_of_token_mem_ofText h with
    ⟨before, s, hreached, hsound, hs⟩ | ⟨rfl, hsingle⟩
  · have hfinish : token.isFinish = false := by
      have hmem : token ∈ Segment.tokensAfter source (Segment.width before) [s] :=
        List.mem_append_left _ (Option.mem_toList.mpr hs)
      exact Segment.isFinish_of_mem_tokensAfter token hmem
    obtain ⟨word, hword, rfl⟩ := Option.map_eq_some_iff.mp hs
    have hfirst : d.sourceLine = some (String.ofList (text.toList.takeWhile p)) :=
      hline.trans (lineAt_lines (mt String.toList_eq_nil_iff.mpr hreached.ne_nil))
    have hsingle : Text.IsSingle s.text :=
      Segment.isSingle_text hreached.wellFormed hsound.ne_stray
    have hon : ∀ c ∈ s.text, p c = true := fun c hc ↦ hp c (Text.isSingle_iff.mp hsingle c hc)
    refine ⟨Segment.width before + 1, rfl,
      Diagnostic.pointsAt_of_reached hreached hp hplace hfirst hhint, ?_, fun _ ↦ ?_⟩
    · rw [hfinish]
      exact nofun
    · exact ⟨s, _, hfirst, hreached.standsAt hp rfl fun _ ↦ hon, hword⟩
  · obtain ⟨hpoints, hwhole⟩ := Diagnostic.pointsAt_end hsingle hplace hline hhint
    exact ⟨text.length + 1, rfl, hpoints, fun _ ↦ ⟨rfl, hwhole⟩, nofun⟩

/-- Diagnostics point at the text to blame, whether tokens are read as they come or all of them
are collected first.  The place of a failure is on the first line, which is shown, and the text
that is no token, or the token that does not fit, starts at its column. -/
theorem diagnostic_pointsAt (options : CompilerOptions) (source text : String) (failure : Failure)
    (h : (parse source text).result = .error failure ∨
      (compile options source text).result = .error failure) :
    (∀ shown d, failure = .lexical shown d →
      ∃ (column : Nat) (bad : Segment) (line : String),
        d.PointsAt source text column ∧ d.sourceLine = some line ∧
        bad.StandsAt text column line ∧ bad.text = shown.toList) ∧
    ∀ blamed d, failure = .grammatical blamed d →
      ∃ token column, blamed = some token ∧ d.PointsAt source text column ∧
        (token.isFinish = true →
          column = text.length + 1 ∧ (text ≠ "" → d.sourceLine = some text)) ∧
        (token.isFinish = false → ∃ (s : Segment) (line : String), d.sourceLine = some line ∧
          s.StandsAt text column line ∧ s.word? = some token.word) := by
  have hblames : (Stream.ofText source text).Blames (Text.lines text) failure :=
    h.elim blames_of_result_ofStream blames_of_result_compile
  cases hblames with
  | fault fault hfault =>
      refine ⟨fun shown d heq ↦ pointsAt_of_fault hfault heq, fun blamed d heq ↦ ?_⟩
      cases fault <;> cases heq
  | token fault htoken =>
      exact ⟨fun shown d heq ↦ absurd heq fault.failure_ne_lexical,
        fun blamed d heq ↦ pointsAt_of_token htoken heq⟩
  | exhausted =>
      constructor
      · rintro shown d ⟨⟩
      · rintro blamed d ⟨⟩

/-- The texts `1+` with a line feed behind it, `(1 2` with a carriage return behind it that is not
met, and nothing. -/
theorem diagnostic_pointsAt_line_ends :
    (∃ (d : Diagnostic) (bad : Segment), (parse "<input>" "1+\n").result = .error (.lexical "\n" d) ∧
      d.PointsAt "<input>" "1+\n" 3 ∧ d.sourceLine = some "1+" ∧
      bad.text = ['\n'] ∧ bad.StandsAt "1+\n" 3 "1+") ∧
    (∃ (d : Diagnostic) (s : Segment), (parse "<input>" "(1 2\r").result =
        .error (.grammatical (some ⟨.number (some 2), ⟨"<input>", 1, 4⟩⟩) d) ∧
      d.PointsAt "<input>" "(1 2\r" 4 ∧ d.sourceLine = some "(1 2" ∧
      s.StandsAt "(1 2\r" 4 "(1 2" ∧ s.word? = some (.number (some 2))) ∧
    ∃ d, (compile {} "<input>" "").result =
        .error (.grammatical (some ⟨.finish none, ⟨"<input>", 1, 1⟩⟩) d) ∧
      d.PointsAt "<input>" "" 1 := by
  refine ⟨?_, ?_, ?_⟩
  · have hresult : (parse "<input>" "1+\n").result =
        .error (LexFault.failure (.stray '\n' ⟨"<input>", 1, 3⟩ "1+")) := rfl
    obtain ⟨hlexical, -⟩ := diagnostic_pointsAt {} _ _ _ (.inl hresult)
    obtain ⟨column, bad, line, hpoints, hline, hstands, hbad⟩ := hlexical _ _ rfl
    obtain rfl : "1+" = line := Option.some.inj hline
    obtain rfl : column = 3 := hstands.behind hbad
    exact ⟨_, bad, hresult, hpoints, rfl, hbad, hstands⟩
  · have hresult : (parse "<input>" "(1 2\r").result = .error (SyntaxFault.failure ["(1 2"]
        ⟨.closing ⟨"<input>", 1, 1⟩, ⟨.number (some 2), ⟨"<input>", 1, 4⟩⟩⟩) := rfl
    obtain ⟨-, hgrammatical⟩ := diagnostic_pointsAt {} _ _ _ (.inl hresult)
    obtain ⟨token, column, htoken, hpoints, -, hsegment⟩ := hgrammatical _ _ rfl
    obtain rfl := Option.some.inj htoken
    obtain ⟨s, line, hline, hstands, hword⟩ := hsegment rfl
    obtain rfl : "(1 2" = line := Option.some.inj hline
    have hcolumn : (4 : Int) = column :=
      congrArg Location.column (Option.some.inj hpoints.place_eq)
    obtain rfl : column = 4 := by omega
    exact ⟨_, s, hresult, hpoints, rfl, hstands, hword⟩
  · have hresult : (compile {} "<input>" "").result = .error (SyntaxFault.failure []
        ⟨.operand, ⟨.finish none, ⟨"<input>", 1, 1⟩⟩⟩) := rfl
    obtain ⟨-, hgrammatical⟩ := diagnostic_pointsAt {} _ _ _ (.inr hresult)
    obtain ⟨token, column, htoken, hpoints, hend, -⟩ := hgrammatical _ _ rfl
    obtain rfl := Option.some.inj htoken
    obtain ⟨rfl, -⟩ := hend rfl
    exact ⟨_, hresult, hpoints⟩

end Compilation

end ArithAsm
