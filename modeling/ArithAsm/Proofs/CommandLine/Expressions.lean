import ArithAsm.Proofs.CommandLine.Arguments
import ArithAsm.Proofs.CommandLine.Printed
import ArithAsm.Proofs.Text.Lines

/-!
# Expressions on the command line

An expression comes through the command line as it is, and what is printed for it is what the
compilation gives.  A text that is compiled has no letters, so it is taken for no switch, even if it
starts with a minus; behind a separator any text is an expression.
-/

namespace ArithAsm

open Text

namespace Compilation

variable {source text : String}

theorem isAlpha_of_isDigit {c : Char} (h : c.isDigit = true) : c.isAlpha = false := by
  have hdigit : c.toNat ≤ 57 := (Char.isDigit_iff_toNat.mp h).2
  refine Bool.eq_false_iff.mpr fun halpha ↦ ?_
  rcases (Bool.or_eq_true _ _).mp halpha with hupper | hlower
  · have hupper : 65 ≤ c.toNat := (of_decide_eq_true hupper).1
    omega
  · have hlower : 97 ≤ c.toNat := of_decide_eq_true ((Bool.and_eq_true _ _).mp hlower).1
    omega

/-- Digits, blanks and marks are all that a text with tokens consists of. -/
theorem isAlpha_eq_false_of_tokens {found : List Token}
    (h : (Stream.ofText source text).tokens = .ok found) : ∀ c ∈ text.toList, c.isAlpha = false := by
  obtain ⟨segments, hsegments, hsound, -⟩ := Stream.exists_sound_of_tokens h
  intro c hc
  rw [← hsegments.flatMap_text] at hc
  obtain ⟨s, hs, hc⟩ := List.mem_flatMap.mp hc
  have hform := hsegments.wellFormed s hs
  cases s with
  | blank b =>
      obtain rfl := List.mem_singleton.mp hc
      rcases hform with rfl | rfl <;> decide
  | mark m =>
      obtain rfl := List.mem_singleton.mp hc
      cases m <;> decide
  | digits run => exact isAlpha_of_isDigit (hform.2 c hc)
  | stray b => exact (hsound _ hs).elim

end Compilation

/-- Whether a failure is that of a text which is no expression. -/
def Failure.IsSyntactic : Failure → Prop
  | lexical .. => True
  | grammatical .. => True
  | _ => False

theorem Failure.exitCode_of_isSyntactic {failure : Failure} (h : failure.IsSyntactic) :
    failure.exitCode = .buildError := by
  cases failure with
  | lexical text d => rfl
  | grammatical token d => rfl
  | _ => exact h.elim

namespace CommandLine

/-- An answer that is nothing but a text. -/
def Response.printing (text : String) : Response :=
  { exitCode := .success, output := text }

/-- What the result of a compilation, and how it is to be printed, says about an answer: a result is
printed and nothing else is, and for a text that is no expression nothing is printed. -/
def Delivers {α : Type} (result : Except Failure α) (printed : α → Option String)
    (answer : Response) : Prop :=
  match result with
  | .ok a => ∃ text, printed a = some text ∧ answer = .printing text
  | .error failure => failure.IsSyntactic → answer.exitCode = .buildError ∧ answer.output = ""

/-- The answer to a request whose product is made from the result of a compilation. -/
theorem Request.delivers {α : Type} {request : Request} {logged : Logged α}
    {next : α → Logged String} {printed : α → Option String} (hrun : request.run = false)
    (houtput : request.output = none) (hverbose : request.verbose = false)
    (hproduct : request.product = logged.andThen next)
    (hnext : ∀ a, logged.result = .ok a →
      ∃ text, printed a = some text ∧ (next a).result = .ok text ∧ Unescaped text)
    (world : World) : Delivers logged.result printed (request.respond world).1 := by
  rw [request.respond_of_shown hrun houtput hverbose, hproduct]
  cases hlogged : logged.result with
  | ok a =>
      obtain ⟨text, hprinted, htext, hunescaped⟩ := hnext a hlogged
      rw [Logged.result_andThen_of_ok hlogged, htext]
      refine ⟨text, hprinted, ?_⟩
      dsimp only
      rw [hunescaped.dropSequences_eq]
      rfl
  | error failure =>
      rw [Logged.result_andThen_of_error hlogged]
      exact fun h ↦ ⟨Failure.exitCode_of_isSyntactic h, rfl⟩

/-- What settings, a mode if one is chosen besides, and an expression are read as. -/
def argumentsOf (settings : List Setting) (chosen : Option String) (expression : String) :
    Arguments where
  switches := settings.map Setting.switch ++ (chosen.map fun spelling ↦ (Switch.mode, spelling)).toList
  rest := [expression]

/-- The request that settings make of an expression. -/
def requestFor (settings : List Setting) (mode : Mode) (expression : String) : Request where
  expression
  mode
  remarks := (optionsOf settings).remarks
  entry := (optionsOf settings).entry

/-- Tokens as they are listed, each on a line of its own. -/
def tokenLines (tokens : List Token) : String :=
  String.join (tokens.map (·.display ++ "\n"))

section

variable {settings : List Setting} {mode : Mode} {expression : String}

theorem unescaped_entry (h : ∀ name, Setting.entry name ∈ settings → Unescaped name) :
    Unescaped (optionsOf settings).entry := by
  have hfold : ∀ start : CompilerOptions, Unescaped start.entry →
      Unescaped (settings.foldl Setting.applyTo start).entry := by
    induction settings with
    | nil => exact fun start hstart ↦ hstart
    | cons setting more ih =>
        intro start hstart
        refine ih (fun name hname ↦ h name (.tail _ hname)) (setting.applyTo start) ?_
        cases setting with
        | entry name => exact h name (.head _)
        | comments => exact hstart
        | program => exact hstart
  exact hfold {} (by decide)

theorem respond_of_read {texts : List String} {chosen : Option String}
    (hread : Arguments.read texts = .ok (argumentsOf settings chosen expression))
    (hmode : modeOf (argumentsOf settings chosen expression) = .ok mode) (world : World) :
    respond texts world = (requestFor settings mode expression).respond world := by
  have hplain : ∀ given ∈ (argumentsOf settings chosen expression).switches,
      given.1.isPlain = true := by
    refine List.forall_mem_append.mpr ⟨?_, ?_⟩
    · exact List.forall_mem_map.mpr fun setting _ ↦ setting.isPlain_switch
    · cases chosen with
      | none => exact List.forall_mem_nil _
      | some spelling => exact List.forall_mem_singleton.mpr rfl
  have hremarks : (argumentsOf settings chosen expression).has .comments =
      (optionsOf settings).remarks := by
    rw [optionsOf, remarks_foldl_applyTo]
    cases chosen <;> simp [argumentsOf, Arguments.has]
  have hentry : ((argumentsOf settings chosen expression).last? .entry).getD "main" =
      (optionsOf settings).entry := by
    rw [optionsOf, entry_foldl_applyTo]
    cases chosen with
    | none => simp [argumentsOf, Arguments.last?]
    | some spelling =>
        have hother : (Switch.entry == Switch.mode) = false := rfl
        simp [argumentsOf, Arguments.last?, List.lookup_cons, hother]
  have hintent := @ofArguments_of_read world.workspace _ _ _ _ hread rfl hplain hmode
  rw [hremarks, hentry] at hintent
  exact respond_of_process hintent

theorem argumentsOf_none :
    argumentsOf settings none expression =
      { switches := settings.map Setting.switch, rest := [expression] } := by
  simp [argumentsOf]

/-- Without a letter, an expression may stand in front of the settings and behind them. -/
theorem respond_of_no_letter (hletters : ∀ c ∈ expression.toList, c.isAlpha = false)
    (hseparator : expression ≠ "--") (world : World) :
    let before := settings.flatMap Setting.arguments
    let request := requestFor settings .x86 expression
    respond (before ++ [expression]) world = request.respond world ∧
      respond (expression :: before) world = request.respond world := by
  intro before request
  have hmode : modeOf (argumentsOf settings none expression) = .ok .x86 := by
    rw [argumentsOf_none, modeOf, Arguments.last?]
    rcases lookup_mode_settings settings with h | h
    · rw [h]
    · rw [h]
      rfl
  constructor
  · refine respond_of_read ?_ hmode world
    rw [Arguments.read, Arguments.readFrom_settings,
      Arguments.readFrom_of_no_letter hletters hseparator, argumentsOf_none]
    rfl
  · refine respond_of_read ?_ hmode world
    have hsettings := Arguments.readFrom_settings settings { rest := [expression] } []
    rw [List.append_nil] at hsettings
    rw [Arguments.read, Arguments.readFrom_of_no_letter hletters hseparator, argumentsOf_none]
    exact hsettings

/-- Behind a separator any text is an expression. -/
theorem respond_of_separator {spelling : String} (hmode : spelling.toLower = mode.name)
    (world : World) :
    respond (settings.flatMap Setting.arguments ++ ["--mode", spelling, "--", expression]) world =
      (requestFor settings mode expression).respond world := by
  have hread : Arguments.read
      (settings.flatMap Setting.arguments ++ ["--mode", spelling, "--", expression]) =
        .ok (argumentsOf settings (some spelling) expression) := by
    have hlong : Argument.ofText "--mode" = .long .mode none := rfl
    have hend : Argument.ofText "--" = .separator := rfl
    rw [Arguments.read, Arguments.readFrom_settings, Arguments.readFrom, hlong]
    dsimp only
    rw [if_pos (by decide), Arguments.readFrom, hend]
    rfl
  refine respond_of_read hread ?_ world
  simp [modeOf, Arguments.last?, argumentsOf, Mode.ofText?_of_toLower hmode]

theorem delivers_token (world : World) :
    Delivers (Compilation.tokens Request.sourceName expression).result (some ∘ tokenLines)
      ((requestFor settings .token expression).respond world).1 := by
  rw [← Compilation.result_collect]
  refine Request.delivers rfl rfl rfl rfl (fun tokens htokens ↦ ?_) world
  have hlines : "\n".intercalate (tokens.map Token.display) ++ "\n" = tokenLines tokens := by
    have hne : tokens ≠ [] := by
      obtain ⟨segments, -, -, rfl⟩ :=
        Stream.exists_sound_of_tokens (Compilation.collect_eq_ok htokens)
      exact List.append_ne_nil_of_right_ne_nil _ (List.cons_ne_nil _ _)
    rw [intercalate_append_newline (List.map_eq_nil_iff.not.mpr hne), List.map_map]
    rfl
  refine ⟨_, rfl, congrArg Except.ok hlines, ?_⟩
  rw [← hlines]
  refine (unescaped_intercalate (by decide) ?_).append (by decide)
  exact List.forall_mem_map.mpr fun token _ ↦ token.unescaped_display

/-- The answer with a drawing of a tree, which every tree that was read has. -/
theorem delivers_drawing {draw : Expr → Except TextFault String}
    (hdraw : ∀ {tree : Expr}, tree.Labelled → ∃ text, draw tree = .ok text ∧ Unescaped text)
    (hproduct : (requestFor settings mode expression).product =
      (Compilation.parseCollected Request.sourceName expression).andThen
        fun tree ↦ Request.shown tree draw) (world : World) :
    Delivers (Compilation.parseCollected Request.sourceName expression).result
      (fun tree ↦ (draw tree).toOption.map (· ++ "\n"))
      ((requestFor settings mode expression).respond world).1 := by
  refine Request.delivers rfl rfl rfl hproduct (fun tree htree ↦ ?_) world
  obtain ⟨hcomplete, hliterals⟩ := Compilation.complete_of_parseCollected htree
  obtain ⟨text, htext, hunescaped⟩ := hdraw (hcomplete.labelled hliterals.short)
  refine ⟨text ++ "\n", ?_, ?_, hunescaped.append (by decide)⟩
  · rw [htext]
    rfl
  · rw [Request.shown, htext]

theorem delivers_program (hentry : Unescaped (optionsOf settings).entry) (world : World) :
    Delivers (Compilation.compile (optionsOf settings) Request.sourceName expression).result
      (fun compiled ↦ some compiled.assembly)
      ((requestFor settings .x86 expression).respond world).1 :=
  Request.delivers rfl rfl rfl rfl (fun _ hcompiled ↦
    ⟨_, rfl, rfl, Compilation.unescaped_assembly hcompiled hentry⟩) world

end

/-- A separator is no expression itself. -/
theorem exitCode_separator :
    exitCodeOf (Compilation.compile {} Request.sourceName "--").result = .buildError := by
  decide +kernel

/-- A text that is compiled may stand before the settings and behind them, and its program is all
that is printed.  Behind a separator any text may stand, and what is printed for it is its result
in the mode asked for. -/
theorem respond_delivers (settings : List Setting)
    (hentry : ∀ name, Setting.entry name ∈ settings → Unescaped name) (world : World) :
    let options := optionsOf settings
    let before := settings.flatMap Setting.arguments
    (∀ text other accepted,
      (Compilation.compile other Request.sourceName text).result = .ok accepted →
      ∃ compiled, (Compilation.compile options Request.sourceName text).result = .ok compiled ∧
        (respond (before ++ [text]) world).1 = .printing compiled.assembly ∧
        (respond (text :: before) world).1 = .printing compiled.assembly) ∧
    ∀ text spelling,
      let answer := (respond (before ++ ["--mode", spelling, "--", text]) world).1
      (spelling.toLower = "token" →
        Delivers (Compilation.tokens Request.sourceName text).result (some ∘ tokenLines) answer) ∧
      (spelling.toLower = "ast" →
        Delivers (Compilation.parseCollected Request.sourceName text).result
          (fun tree ↦ tree.outline.toOption.map (· ++ "\n")) answer) ∧
      (spelling.toLower = "dot" →
        Delivers (Compilation.parseCollected Request.sourceName text).result
          (fun tree ↦ tree.diagram.toOption.map (· ++ "\n")) answer) ∧
      (spelling.toLower = "x86" →
        Delivers (Compilation.compile options Request.sourceName text).result
          (fun compiled ↦ some compiled.assembly) answer) := by
  intro options before
  have hoptions : Unescaped options.entry := unescaped_entry hentry
  refine ⟨fun text other accepted haccepted ↦ ?_, fun text spelling ↦ ?_⟩
  · have hseparator : text ≠ "--" := by
      rintro rfl
      obtain ⟨_, hcompiled⟩ := Compilation.exists_compiled_of_compile haccepted {}
      have hcode := exitCode_separator
      rw [hcompiled] at hcode
      cases hcode
    have hletters : ∀ c ∈ text.toList, c.isAlpha = false :=
      Compilation.isAlpha_eq_false_of_tokens (Compilation.compile_eq_ok haccepted).1
    obtain ⟨compiled, hcompiled⟩ := Compilation.exists_compiled_of_compile haccepted options
    have hprints : ((requestFor settings .x86 text).respond world).1 =
        .printing compiled.assembly := by
      have hdelivers := @delivers_program settings text hoptions world
      rw [hcompiled] at hdelivers
      obtain ⟨_, hassembly, hanswer⟩ := hdelivers
      rwa [Option.some.inj hassembly]
    obtain ⟨hbehind, hfront⟩ := respond_of_no_letter hletters hseparator world
    exact ⟨compiled, hcompiled, hbehind ▸ hprints, hfront ▸ hprints⟩
  · refine ⟨fun hmode ↦ ?_, fun hmode ↦ ?_, fun hmode ↦ ?_, fun hmode ↦ ?_⟩
    · rw [@respond_of_separator settings .token _ _ hmode]
      exact delivers_token world
    · rw [@respond_of_separator settings .ast _ _ hmode]
      exact delivers_drawing Outline.exists_unescaped rfl world
    · rw [@respond_of_separator settings .dot _ _ hmode]
      exact delivers_drawing Diagram.exists_unescaped rfl world
    · rw [@respond_of_separator settings .x86 _ _ hmode]
      exact delivers_program hoptions world

/-- An expression with a sign in front of its settings, and one behind a separator. -/
theorem respond_delivers_signed :
    let settings := [Setting.comments, .entry "start"]
    let world : World := { temporary := { anchor := .root, parts := ["tmp", "scratch"] } }
    (∀ name, Setting.entry name ∈ settings → Unescaped name) ∧
    (∃ compiled,
      (Compilation.compile (optionsOf settings) Request.sourceName "-5+3").result = .ok compiled ∧
      (respond ["-5+3", "--comments", "--entry=start"] world).1 = .printing compiled.assembly) ∧
    (respond ["--comments", "--entry=start", "--mode", "AST", "--", "-1"] world).1 =
      .printing "UnaryMinus\n  Literal(1)\n" := by
  intro settings world
  have hentry : ∀ name, Setting.entry name ∈ settings → Unescaped name := by
    intro name hname
    obtain rfl : name = "start" := by simpa [settings] using hname
    decide
  obtain ⟨hprograms, hmodes⟩ := respond_delivers settings hentry world
  have haccepted : ∃ accepted,
      (Compilation.compile {} Request.sourceName "-5+3").result = .ok accepted := by
    have hok : (Compilation.compile {} Request.sourceName "-5+3").result.isOk = true := by
      decide +kernel
    cases h : (Compilation.compile {} Request.sourceName "-5+3").result with
    | ok accepted => exact ⟨accepted, rfl⟩
    | error failure =>
        rw [h] at hok
        cases hok
  have htree : (Compilation.parseCollected Request.sourceName "-1").result =
      .ok (.negation ⟨Request.sourceName, 1, 1⟩ (.literal ⟨Request.sourceName, 1, 2⟩ (some 1))) := by
    decide +kernel
  refine ⟨hentry, ?_, ?_⟩
  · obtain ⟨accepted, haccepted⟩ := haccepted
    obtain ⟨compiled, hcompiled, -, hfront⟩ := hprograms "-5+3" {} accepted haccepted
    exact ⟨compiled, hcompiled, hfront⟩
  · have hdelivers := (hmodes "-1" "AST").2.1 (by decide +kernel)
    rw [htree] at hdelivers
    obtain ⟨text, htext, hanswer⟩ := hdelivers
    have hdrawn : text = "UnaryMinus\n  Literal(1)\n" :=
      (Option.some.inj htext).symm.trans (by decide +kernel)
    exact hdrawn ▸ hanswer

end CommandLine

end ArithAsm
