import ArithAsm.CommandLine.Request
import ArithAsm.Compilation
import Mathlib.Data.List.Basic

/-!
# Expressions among switches

How arguments are read that say how an expression is to be compiled: an argument without letters is
the expression, even if it starts with a minus, and so is whatever follows a separator.
-/

namespace ArithAsm.CommandLine

/-! ## Arguments without letters -/

theorem Letters.read_of_unknown {letters : List Char}
    (h : ∀ c ∈ letters, Switch.ofLetter? c = none) : Letters.read letters = { unknown := letters } := by
  induction letters with
  | nil => rfl
  | cons c rest ih =>
      rw [List.forall_mem_cons] at h
      rw [Letters.read, h.1, ih h.2]

theorem Switch.ofLetter?_eq_none {c : Char} (h : c.isAlpha = false) : ofLetter? c = none := by
  unfold ofLetter?
  split
  · cases h
  · cases h
  · rfl

theorem Switch.ofName?_eq_none {text : String} (h : ∀ c ∈ text.toList, c.isAlpha = false) :
    ofName? text = none := by
  have hany : ∀ s : Switch, s.name.toList.any Char.isAlpha = true := by
    intro s
    cases s <;> rfl
  refine List.find?_eq_none.mpr fun s _ hname ↦ ?_
  obtain ⟨c, hc, hletter⟩ := List.any_eq_true.mp (hany s)
  rw [of_decide_eq_true hname] at hc
  rw [h c hc] at hletter
  cases hletter

theorem toList_splitEquals (text : List Char) :
    (splitEquals text).1.toList = text.takeWhile (· ≠ '=') := by
  unfold splitEquals
  split <;> exact String.toList_ofList

theorem Argument.ofText_of_no_letter {text : String} (hletters : ∀ c ∈ text.toList, c.isAlpha = false)
    (hseparator : text ≠ "--") :
    ofText text = .plain ∨
      ∃ letters, letters ≠ [] ∧ text = String.ofList ('-' :: letters) ∧
        ofText text = .short { unknown := letters } := by
  unfold ofText
  split
  · rename_i htext
    have hmarks : "--".toList = ['-', '-'] := by decide
    exact (hseparator (String.toList_inj.mp (htext.trans hmarks.symm))).elim
  · rename_i letter letters hlong htext
    -- Names of switches have letters, also in front of an equals sign.
    have hname : Switch.ofName? (splitEquals text.toList).1 = none := by
      refine Switch.ofName?_eq_none fun c hc ↦ hletters c ?_
      rw [toList_splitEquals] at hc
      exact (List.takeWhile_sublist _).subset hc
    rw [htext, List.forall_mem_cons] at hletters
    dsimp only
    rw [hname]
    by_cases hhyphen : letter = '-'
    · exact .inl (if_pos hhyphen)
    · refine .inr ⟨letter :: letters, List.cons_ne_nil _ _, ?_, ?_⟩
      · rw [← htext, String.ofList_toList]
      · dsimp only
        rw [if_neg hhyphen, Letters.read_of_unknown fun c hc ↦
          Switch.ofLetter?_eq_none (hletters.2 c hc)]
  · exact .inl rfl

/-- An argument without letters is left as it is. -/
theorem Arguments.readFrom_of_no_letter {text : String}
    (hletters : ∀ c ∈ text.toList, c.isAlpha = false) (hseparator : text ≠ "--") (done : Arguments)
    (rest : List String) : readFrom done (text :: rest) = readFrom (done.leave [text]) rest := by
  rw [readFrom]
  rcases Argument.ofText_of_no_letter hletters hseparator with h | ⟨letters, hne, htext, h⟩
  · rw [h]
  · rw [h]
    have hempty : letters.isEmpty = false := List.isEmpty_eq_false_iff.mpr hne
    simp [addLetters, hempty, htext]

/-! ## Settings -/

/-- An option that says how an expression is to be compiled. -/
inductive Setting where
  | comments
  | entry (name : String)
  /-- The mode that gives a program. -/
  | program

namespace Setting

def arguments : Setting → List String
  | comments => ["--comments"]
  | entry name => ["--entry=" ++ name]
  | program => ["--mode", "x86"]

def switch : Setting → Switch × String
  | comments => (.comments, "")
  | entry name => (.entry, name)
  | program => (.mode, "x86")

end Setting

theorem Argument.ofText_entry (name : String) :
    ofText ("--entry=" ++ name) = .long .entry (some name) := by
  have hentry : "--entry=".toList = ['-', '-', 'e', 'n', 't', 'r', 'y', '='] := by decide
  have hsplit : splitEquals ("--entry=" ++ name).toList = ("--entry", some name) := by
    rw [String.toList_append, hentry]
    simp [splitEquals]
  have hname : Switch.ofName? "--entry" = some .entry := rfl
  unfold ofText
  rw [hsplit]
  dsimp only
  rw [hname]
  rw [String.toList_append, hentry]
  rfl

theorem Arguments.readFrom_setting (setting : Setting) (done : Arguments) (rest : List String) :
    readFrom done (setting.arguments ++ rest) =
      readFrom { done with switches := done.switches ++ [setting.switch] } rest := by
  cases setting with
  | comments =>
      have hcomments : Argument.ofText "--comments" = .long .comments none := rfl
      change readFrom done ("--comments" :: rest) = _
      rw [readFrom, hcomments]
      rfl
  | entry name =>
      change readFrom done (("--entry=" ++ name) :: rest) = _
      rw [readFrom, Argument.ofText_entry]
      rfl
  | program =>
      have hmode : Argument.ofText "--mode" = .long .mode none := rfl
      change readFrom done ("--mode" :: "x86" :: rest) = _
      rw [readFrom, hmode]
      rfl

theorem Arguments.readFrom_settings (settings : List Setting) (done : Arguments)
    (rest : List String) :
    readFrom done (settings.flatMap Setting.arguments ++ rest) =
      readFrom { done with switches := done.switches ++ settings.map Setting.switch } rest := by
  induction settings generalizing done with
  | nil => simp
  | cons setting more ih =>
      rw [List.flatMap_cons, List.append_assoc, readFrom_setting, ih]
      simp

/-- What settings make of the options that an expression is compiled with. -/
def Setting.applyTo (options : CompilerOptions) : Setting → CompilerOptions
  | comments => { options with remarks := true }
  | entry name => { options with entry := name }
  | program => options

def optionsOf (settings : List Setting) : CompilerOptions :=
  settings.foldl Setting.applyTo {}

theorem entry_foldl_applyTo (settings : List Setting) (start : CompilerOptions) :
    (settings.foldl Setting.applyTo start).entry =
      ((settings.map Setting.switch).reverse.lookup .entry).getD start.entry := by
  induction settings generalizing start with
  | nil => rfl
  | cons setting more ih =>
      have hfirst : (setting.applyTo start).entry =
          ([setting.switch].lookup .entry).getD start.entry := by
        cases setting <;> rfl
      rw [List.foldl_cons, ih, List.map_cons, List.reverse_cons, List.lookup_append,
        Option.getD_or, hfirst]

theorem remarks_foldl_applyTo (settings : List Setting) (start : CompilerOptions) :
    (settings.foldl Setting.applyTo start).remarks =
      (start.remarks || (settings.map Setting.switch).any fun given ↦ given.1 = .comments) := by
  induction settings generalizing start with
  | nil => exact (Bool.or_false _).symm
  | cons setting more ih =>
      rw [List.foldl_cons, ih, List.map_cons, List.any_cons, ← Bool.or_assoc]
      cases setting <;> simp [Setting.applyTo, Setting.switch]

/-- Settings do not choose any other mode than the one for programs. -/
theorem lookup_mode_settings (settings : List Setting) :
    (settings.map Setting.switch).reverse.lookup .mode = none ∨
      (settings.map Setting.switch).reverse.lookup .mode = some "x86" := by
  induction settings with
  | nil => exact .inl rfl
  | cons setting more ih =>
      rw [List.map_cons, List.reverse_cons, List.lookup_append]
      rcases ih with h | h
      · rw [h]
        cases setting with
        | program => exact .inr rfl
        | _ => exact .inl rfl
      · rw [h]
        exact .inr rfl

namespace Mode

theorem foldCase_eq {c : Char} (h : c.toLower.toNat < 128) : foldCase c = [c.toLower] := by
  have hbeyond : ∀ other : Char, 128 ≤ other.toLower.toNat → c ≠ other := by
    rintro other hother rfl
    omega
  unfold foldCase
  rw [if_neg (hbeyond _ (by decide)), if_neg (hbeyond _ (by decide))]
  simp [hbeyond '\ufb05' (by decide), hbeyond '\ufb06' (by decide)]

/-- The name of a mode may be written in any case of letters. -/
theorem ofText?_of_toLower {spelling : String} {mode : Mode} (h : spelling.toLower = mode.name) :
    ofText? spelling = some mode := by
  have hascii : mode.name.toList.all (·.toNat < 128) = true := by
    cases mode <;> rfl
  have hlower : spelling.toList.map Char.toLower = mode.name.toList := by
    rw [← h]
    exact String.toList_map.symm
  have hfold : spelling.toList.flatMap foldCase = mode.name.toList := by
    rw [← hlower, List.map_eq_flatMap]
    refine List.flatMap_congr fun c hc ↦ foldCase_eq ?_
    have hmem : c.toLower ∈ mode.name.toList := by
      rw [← hlower]
      exact List.mem_map_of_mem hc
    exact of_decide_eq_true (List.all_eq_true.mp hascii _ hmem)
  unfold ofText?
  rw [hfold, String.ofList_toList]
  cases mode <;> rfl

end Mode

/-! ## Requests -/

/-- Switches that only say how an expression is to be processed. -/
def Switch.isPlain : Switch → Bool
  | mode => true
  | comments => true
  | entry => true
  | _ => false

theorem Setting.isPlain_switch (setting : Setting) : setting.switch.1.isPlain = true := by
  cases setting <;> rfl

section

variable {workspace : Workspace} {arguments : Arguments} {mode : Mode} {expression : String}

theorem Arguments.has_eq_false {s : Switch} (hs : s.isPlain = false)
    (h : ∀ given ∈ arguments.switches, given.1.isPlain = true) : arguments.has s = false := by
  refine List.any_eq_false.mpr fun given hgiven hsame ↦ ?_
  rw [← of_decide_eq_true hsame, h given hgiven] at hs
  cases hs

theorem Arguments.last?_eq_none {s : Switch} (hs : s.isPlain = false)
    (h : ∀ given ∈ arguments.switches, given.1.isPlain = true) : arguments.last? s = none := by
  refine List.lookup_eq_none_iff.mpr fun given hgiven ↦ ?_
  have hplain := h given (List.mem_reverse.mp hgiven)
  refine bne_iff_ne.mpr fun hsame ↦ ?_
  rw [← hsame, hs] at hplain
  cases hplain

theorem check_eq_ok (h : ∀ given ∈ arguments.switches, given.1.isPlain = true)
    (hmode : modeOf arguments = .ok mode) (s : Switch) : check workspace arguments s = .ok () := by
  have houtput : arguments.last? .output = none := Arguments.last?_eq_none rfl h
  cases s with
  | mode => rw [check, hmode]; rfl
  | output => rw [check, outputOf, houtput]; rfl
  | _ => rfl

theorem ofArguments_of_read {texts : List String} (hread : Arguments.read texts = .ok arguments)
    (hrest : arguments.rest = [expression])
    (h : ∀ given ∈ arguments.switches, given.1.isPlain = true)
    (hmode : modeOf arguments = .ok mode) :
    Intent.ofArguments workspace texts = .ok (.process {
      expression, mode
      remarks := arguments.has .comments
      entry := (arguments.last? .entry).getD "main" }) := by
  have heager : arguments.order.find? Switch.isEager = none := by
    refine List.find?_eq_none.mpr fun s hs heager ↦ ?_
    obtain ⟨given, hgiven, rfl⟩ := List.mem_map.mp (List.mem_eraseDups.mp hs)
    have hplain := h given hgiven
    cases hswitch : given.1 <;> rw [hswitch] at heager hplain <;> cases heager <;> cases hplain
  have hchecks : ∀ order : List Switch, order.forM (check workspace arguments) = .ok () := by
    intro order
    induction order with
    | nil => rfl
    | cons s rest ih =>
        have hcheck : check workspace arguments s = .ok () := check_eq_ok h hmode s
        change (check workspace arguments s >>= fun _ ↦ rest.forM (check workspace arguments)) = _
        rw [hcheck]
        exact ih
  have hexpression : expressionOf arguments = .ok expression := by
    rw [expressionOf, hrest]
  have houtput : outputOf workspace arguments = .ok none := by
    rw [outputOf, Arguments.last?_eq_none rfl h]
  have hrun : arguments.has .run = false := Arguments.has_eq_false rfl h
  have hverbose : arguments.has .verbose = false := Arguments.has_eq_false rfl h
  have hrequest : requestOf workspace arguments = .ok {
      expression, mode
      remarks := arguments.has .comments
      entry := (arguments.last? .entry).getD "main" } := by
    unfold requestOf
    rw [hchecks, hexpression, hmode, houtput, hrun, hverbose]
    rfl
  unfold Intent.ofArguments
  rw [hread]
  dsimp only [bind, Except.bind]
  rw [heager, hrequest]
  rfl

end

end ArithAsm.CommandLine
