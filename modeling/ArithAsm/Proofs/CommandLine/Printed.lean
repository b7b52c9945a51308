import ArithAsm.Proofs.Assembly.Listing
import ArithAsm.Proofs.CommandLine.Answer
import ArithAsm.Proofs.Compilation.Failing
import ArithAsm.Proofs.Expr.Drawing

/-!
# What is printed

Everything that is printed for an expression is free of escapes, provided that the name of the entry
is.  So it is printed as it is, and as nothing on the way is a warning, nothing else is shown.
-/

namespace ArithAsm

open Text

/-! ## Texts -/

theorem Token.unescaped_display (token : Token) : Unescaped token.display := by
  have hopen : IsPlain "Token(" := by decide
  have hcomma : IsPlain ", " := by decide
  have hcolon : IsPlain ":" := by decide
  have hclose : IsPlain ")" := by decide
  have hclass : IsPlain token.className := by
    unfold className
    split
    · decide
    · rename_i mark _ _
      cases mark <;> decide
    · decide
  have hframe : ∀ value, IsPlain value → IsPlain
      s!"Token({token.className}, {value}{token.place.line}:{token.place.column})" :=
    fun value hvalue ↦ (((((hopen.append hclass).append hcomma).append hvalue).append
      (isPlain_toString_int _)).append hcolon).append (isPlain_toString_int _) |>.append hclose
  unfold display
  split
  · exact (hframe _ ((isPlain_toString_int _).append hcomma)).unescaped
  · exact (hframe "" (by decide)).unescaped

theorem unescaped_of_mem_code {code : List Instruction} (h : ∀ i ∈ code, i.IsEmitted) :
    ∀ line ∈ code.map Line.code, Unescaped line.text := by
  intro line hline
  obtain ⟨i, hi, rfl⟩ := List.mem_map.mp hline
  exact (h i hi).isPlain.unescaped

theorem unescaped_remark {text : String} (h : Unescaped text) :
    Unescaped (Line.remark text).text := by
  have hsharp : Unescaped "  # " := by decide
  exact hsharp.append h

theorem Expr.unescaped_of_mem_remarkLines {e : Expr} {remarks : Bool} :
    ∀ line ∈ e.remarkLines remarks, Unescaped line.text := by
  unfold remarkLines
  split
  · exact List.forall_mem_singleton.mpr (unescaped_remark e.isPlain_label.unescaped)
  · exact List.forall_mem_nil _

theorem Expr.unescaped_of_mem_listing {e : Expr} {remarks : Bool} :
    ∀ line ∈ e.listing remarks, Unescaped line.text := by
  induction e with
  | literal place value =>
      rcases value with _ | n
      · exact List.forall_mem_nil _
      · rw [listing, List.forall_mem_append]
        exact ⟨unescaped_of_mem_remarkLines, unescaped_of_mem_code (numberCode_isEmitted n)⟩
  | negation place operand ih =>
      rw [listing, List.forall_mem_append, List.forall_mem_append]
      exact ⟨⟨ih, unescaped_of_mem_remarkLines⟩, unescaped_of_mem_code negationCode_isEmitted⟩
  | binary place op left right ihl ihr =>
      rcases op with _ | op
      · exact List.forall_mem_nil _
      · rw [listing, List.forall_mem_append, List.forall_mem_append, List.forall_mem_append]
        exact ⟨⟨⟨ihl, ihr⟩, unescaped_of_mem_remarkLines⟩,
          unescaped_of_mem_code (operationCode_isEmitted op)⟩
  | blank place => exact List.forall_mem_nil _
  | missing => exact List.forall_mem_nil _

theorem unescaped_of_mem_closingLines {remarks : Bool} :
    ∀ line ∈ closingLines remarks, Unescaped line.text := by
  cases remarks <;> decide

theorem Expr.unescaped_programText {e : Expr} {entry : String} {remarks : Bool}
    (hentry : Unescaped entry) : Unescaped (programText (e.programLines entry remarks)) := by
  have hvisible : Unescaped ".globl " := by decide
  have hcolon : Unescaped ":" := by decide
  have hopening : ∀ line ∈ [Line.notationChoice, .visible entry, .label entry],
      Unescaped line.text := by
    rw [List.forall_mem_cons, List.forall_mem_cons, List.forall_mem_singleton]
    exact ⟨by decide, hvisible.append hentry, hentry.append hcolon⟩
  refine (unescaped_intercalate (by decide) ?_).append (by decide)
  rw [List.forall_mem_map, programLines, List.forall_mem_append, List.forall_mem_append]
  exact ⟨⟨hopening, unescaped_of_mem_listing⟩, unescaped_of_mem_closingLines⟩

theorem Compilation.unescaped_assembly {options : CompilerOptions} {source text : String}
    {compiled : Compiled}
    (h : (compile options source text).result = .ok compiled) (hentry : Unescaped options.entry) :
    Unescaped compiled.assembly := by
  rw [Compiled.assembly, lines_of_compile h]
  exact Expr.unescaped_programText hentry

/-! ## Events -/

/-- Nothing is reported that asks for attention. -/
def Logged.Quiet {α : Type} (logged : Logged α) : Prop :=
  ∀ event ∈ logged.events, event.severity = .debug

theorem Logged.Quiet.andThen {α β : Type} {first : Logged α} {next : α → Logged β}
    (hf : first.Quiet) (hn : ∀ a, (next a).Quiet) : (first.andThen next).Quiet := by
  unfold Logged.andThen
  split
  · exact hf
  · exact List.forall_mem_append.mpr ⟨hf, hn _⟩

def Stream.Quiet (stream : Stream) : Prop :=
  ∀ event, .event event ∈ stream → event.severity = .debug

theorem Stream.Quiet.events {stream : Stream} (h : stream.Quiet) :
    ∀ event ∈ stream.events, event.severity = .debug := by
  induction stream with
  | nil => exact List.forall_mem_nil _
  | cons arrival rest ih =>
      have hrest : ∀ event ∈ Stream.events rest, event.severity = .debug :=
        ih fun event hevent ↦ h event (.tail _ hevent)
      cases arrival with
      | event event => exact List.forall_mem_cons.mpr ⟨h event (.head _), hrest⟩
      | token token => exact hrest
      | fault fault => exact List.forall_mem_nil _

theorem Pending.quiet_read {stream : Stream} (h : stream.Quiet) (state : Pending) :
    ∀ event ∈ (state.read stream).events, event.severity = .debug := by
  induction stream generalizing state with
  | nil => exact List.forall_mem_nil _
  | cons arrival rest ih =>
      have hrest : Stream.Quiet rest := fun event hevent ↦ h event (.tail _ hevent)
      cases arrival with
      | event event =>
          exact List.forall_mem_cons.mpr ⟨h event (.head _), ih hrest state⟩
      | fault fault => exact List.forall_mem_nil _
      | token token =>
          unfold read
          split
          · exact ih hrest _
          · exact List.forall_mem_nil _
          · exact List.forall_mem_nil _

theorem numberAt_ne_event {place : Location} {line : String} {run : List Char} {event : Event} :
    numberAt place line run ≠ .event event := by
  unfold numberAt
  split
  · nofun
  · split <;> nofun

theorem quiet_ofSegments {source line : String} {segments : List Segment} {column count : Nat} :
    (Stream.ofSegments source line column count segments).Quiet := by
  induction segments generalizing column count with
  | nil =>
      intro event hevent
      obtain rfl : event = .tokenized source count := by simpa [Stream.ofSegments] using hevent
      rfl
  | cons segment rest ih =>
      intro event hevent
      cases segment with
      | blank c => exact ih event hevent
      | mark m => exact ih event (by simpa [Stream.ofSegments] using hevent)
      | digits run =>
          rw [Stream.ofSegments] at hevent
          split at hevent
          · cases List.mem_singleton.mp hevent
          · rcases List.mem_cons.mp hevent with hnumber | hevent
            · exact (numberAt_ne_event hnumber.symm).elim
            · exact ih event hevent
      | stray c => cases List.mem_singleton.mp hevent

namespace Compilation

theorem quiet_tokens (source text : String) : (tokens source text).Quiet :=
  quiet_ofSegments.events

theorem quiet_collect (source text : String) : (collect source text).Quiet :=
  (quiet_tokens source text).andThen fun _ ↦ List.forall_mem_singleton.mpr rfl

theorem quiet_ofTokens (source text : String) (found : List Token) :
    (ofTokens source text found).Quiet := by
  have hstream : (Stream.ofTokens found).Quiet := by
    intro event hevent
    obtain ⟨token, -, htoken⟩ := List.mem_map.mp hevent
    cases htoken
  have hread := Pending.start.quiet_read hstream
  unfold Logged.Quiet ofTokens ofStream Stream.parse
  dsimp only
  split
  · exact List.forall_mem_append.mpr ⟨hread, List.forall_mem_singleton.mpr rfl⟩
  · exact hread

theorem quiet_parseCollected (source text : String) : (parseCollected source text).Quiet :=
  (quiet_collect source text).andThen fun found ↦ quiet_ofTokens source text found

theorem quiet_assemble (style : DraftStyle) (tree : Expr) : (assemble style tree).Quiet := by
  unfold assemble
  split
  · exact List.forall_mem_nil _
  · exact List.forall_mem_singleton.mpr rfl

theorem quiet_compile (options : CompilerOptions) (source text : String) :
    (compile options source text).Quiet := by
  have hstages : (stages options source text).Quiet :=
    (quiet_collect source text).andThen fun found ↦
      (quiet_ofTokens source text found).andThen fun tree ↦
        (quiet_assemble _ tree).andThen fun _ ↦ List.forall_mem_nil _
  unfold compile
  dsimp only
  split
  · exact hstages
  · split
    · exact List.forall_mem_append.mpr ⟨hstages, List.forall_mem_singleton.mpr rfl⟩
    · exact hstages

end Compilation

namespace CommandLine.Request

theorem quiet_shown (tree : Expr) (draw : Expr → Except TextFault String) :
    (shown tree draw).Quiet := by
  unfold shown
  split <;> exact List.forall_mem_nil _

theorem quiet_product (request : Request) : request.product.Quiet := by
  unfold product
  cases request.mode with
  | token => exact (Compilation.quiet_collect _ _).andThen fun _ ↦ List.forall_mem_nil _
  | ast => exact (Compilation.quiet_parseCollected _ _).andThen fun tree ↦ quiet_shown tree _
  | dot => exact (Compilation.quiet_parseCollected _ _).andThen fun tree ↦ quiet_shown tree _
  | x86 => exact (Compilation.quiet_compile _ _ _).andThen fun _ ↦ List.forall_mem_nil _

theorem shownEvents_of_quiet {events : List Event} (h : ∀ event ∈ events, event.severity = .debug) :
    shownEvents false events = "" := by
  have hnone : events.filter (·.severity = .warning) = [] := by
    refine List.filter_eq_nil_iff.mpr fun event hevent hwarning ↦ ?_
    rw [h event hevent] at hwarning
    cases hwarning
  unfold shownEvents
  rw [hnone]
  rfl

variable {request : Request}

/-- The answer to a request that neither runs nor stores a program. -/
theorem respond_of_shown (hrun : request.run = false) (houtput : request.output = none)
    (hverbose : request.verbose = false) (world : World) :
    (request.respond world).1 = match request.product.result with
      | .ok text => { exitCode := .success, output := Text.dropSequences text }
      | .error failure => {
          exitCode := failure.exitCode
          errors := failure.report false (world.trace failure) } := by
  have hevents : shownEvents request.verbose
      ((world.noting request.product.events).events.drop world.events.length) = "" := by
    rw [World.noting, List.drop_left, hverbose]
    exact shownEvents_of_quiet request.quiet_product
  rw [respond, perform_of_shown hrun houtput, Attempt.run_bind, Deed.run_ofLogged]
  cases request.product.result with
  | ok text => exact congrArg (fun errors ↦ Response.mk _ _ errors) hevents
  | error failure =>
      dsimp only
      rw [hevents, hverbose, String.empty_append]

end CommandLine.Request

end ArithAsm
