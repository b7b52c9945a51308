import ArithAsm.Proofs.Sentence.Viability

/-!
# Refused tokens

A token is refused at the first place where no sentence can go on with it.  What the
diagnostic says can be told from the tokens before that place alone: whether the last of them
calls for an operand, and which parentheses they leave open.
-/

namespace ArithAsm

namespace Token

/-- An operand has to follow: the token is an operator, a sign or an opening parenthesis. -/
def callsForOperand (token : Token) : Bool :=
  match token.word with
  | .mark .closing _ => false
  | .mark _ _ => true
  | _ => false

def endsOperand (token : Token) : Bool :=
  match token.word with
  | .number _ => true
  | .mark .closing _ => true
  | _ => false

theorem callsForOperand_of_endsOperand {token : Token} (h : token.endsOperand = true) :
    token.callsForOperand = false := by
  obtain ⟨word, place⟩ := token
  cases word with
  | number value => rfl
  | mark m spelling => cases m <;> simp_all [endsOperand, callsForOperand]
  | finish spelling => rfl

/-- The parentheses open after a token, from the innermost to the outermost. -/
def track (openings : List Token) (token : Token) : List Token :=
  match token.word with
  | .mark .opening _ => token :: openings
  | .mark .closing _ => openings.tail
  | _ => openings

end Token

/-- The opening parentheses that tokens leave open, from the innermost to the outermost. -/
def unclosed (tokens : List Token) : List Token :=
  tokens.foldl Token.track []

/-- After the tokens an operand has to come. -/
def OperandNext (tokens : List Token) : Prop :=
  tokens = [] ∨ ∃ front last, tokens = front ++ [last] ∧ last.callsForOperand = true

def Opens (text lead : String) : Prop :=
  lead.toList <+: text.toList

/-! ## Parentheses -/

/-- The tokens leave the parentheses open that were open before them. -/
def Neutral (tokens : List Token) : Prop :=
  ∀ openings, tokens.foldl Token.track openings = openings

namespace Neutral

theorem nil : Neutral [] := fun _ ↦ rfl

theorem append {first second : List Token} (hf : Neutral first) (hs : Neutral second) :
    Neutral (first ++ second) := by
  intro openings
  rw [List.foldl_append, hf, hs]

theorem sumOp (op : SumOp) (at_ : Spelled) : Neutral [at_.token op.mark] := by
  cases op <;> exact fun _ ↦ rfl

theorem productOp (op : ProductOp) (at_ : Spelled) : Neutral [at_.token op.mark] := by
  cases op <;> exact fun _ ↦ rfl

theorem phrase {rank : Rank} (p : Phrase rank) : Neutral p.tokens := by
  induction p with
  | number place value => exact fun _ ↦ rfl
  | group opening inner closing ih =>
      intro openings
      rw [Phrase.tokens, List.foldl_cons, List.foldl_append, ih]
      rfl
  | unsigned operand ih => exact ih
  | plus sign operand ih => exact ih
  | minus sign operand ih => exact ih
  | factor first ih => exact ih
  | multiply left op at_ right ihl ihr => exact ihl.append ((productOp op at_).append ihr)
  | term first ih => exact ih
  | add left op at_ right ihl ihr => exact ihl.append ((sumOp op at_).append ihr)

theorem level (level : OpenLevel) : Neutral level.tokens := by
  apply append
  · cases level.sum with
    | none => exact nil
    | some s => exact (phrase s.left).append (sumOp s.op s.at_)
  · cases level.product with
    | none => exact nil
    | some p => exact (phrase p.left).append (productOp p.op p.at_)

theorem sign (sign : Option SpelledSign) : Neutral (SpelledSign.tokens sign) := by
  rcases sign with _ | _ | _ <;> exact fun _ ↦ rfl

end Neutral

theorem unclosed_append_neutral {tokens rest : List Token} (h : Neutral rest) :
    unclosed (tokens ++ rest) = unclosed tokens := by
  rw [unclosed, List.foldl_append, h]
  rfl

/-- The groups of an unfinished derivation are its unclosed parentheses. -/
theorem OpenGroup.unclosed_tokens (groups : List OpenGroup) :
    unclosed (OpenGroup.tokens groups) = groups.map fun g ↦ g.opening.token .opening := by
  induction groups with
  | nil => rfl
  | cons g outer ih =>
      have hinner : unclosed (OpenGroup.tokens outer ++ g.around.tokens ++
          SpelledSign.tokens g.sign) = unclosed (OpenGroup.tokens outer) := by
        rw [unclosed_append_neutral (.sign g.sign), unclosed_append_neutral (.level g.around)]
      rw [OpenGroup.tokens, unclosed, List.foldl_append]
      change [g.opening.token .opening].foldl Token.track (unclosed _) = _
      rw [hinner, ih]
      rfl

/-! ## The last token -/

theorem not_operandNext_of_endsOperand {front : List Token} {last : Token}
    (h : last.endsOperand = true) : ¬ OperandNext (front ++ [last]) := by
  rintro (hnil | ⟨front', last', heq, hcalls⟩)
  · simp at hnil
  · obtain ⟨-, hlast⟩ := List.append_inj' heq rfl
    obtain rfl := List.singleton_inj.mp hlast
    rw [Token.callsForOperand_of_endsOperand h] at hcalls
    cases hcalls

/-- A phrase ends with a number or a closing parenthesis. -/
theorem Phrase.exists_last {rank : Rank} (p : Phrase rank) :
    ∃ front last, p.tokens = front ++ [last] ∧ last.endsOperand = true := by
  induction p with
  | number place value => exact ⟨[], _, rfl, rfl⟩
  | group opening inner closing ih =>
      exact ⟨opening.token .opening :: inner.tokens, _, rfl, rfl⟩
  | unsigned operand ih => exact ih
  | plus sign operand ih =>
      obtain ⟨front, last, heq, hlast⟩ := ih
      exact ⟨sign.token .plus :: front, last, congrArg _ heq, hlast⟩
  | minus sign operand ih =>
      obtain ⟨front, last, heq, hlast⟩ := ih
      exact ⟨sign.token .minus :: front, last, congrArg _ heq, hlast⟩
  | factor first ih => exact ih
  | multiply left op at_ right ihl ihr =>
      obtain ⟨front, last, heq, hlast⟩ := ihr
      exact ⟨left.tokens ++ at_.token op.mark :: front, last, by simp [tokens, heq], hlast⟩
  | term first ih => exact ih
  | add left op at_ right ihl ihr =>
      obtain ⟨front, last, heq, hlast⟩ := ihr
      exact ⟨left.tokens ++ at_.token op.mark :: front, last, by simp [tokens, heq], hlast⟩

namespace Unfinished

theorem unclosed_tokens_operator (x : Phrase .signed) (level : OpenLevel)
    (groups : List OpenGroup) :
    unclosed (operator x level groups).tokens =
      groups.map fun g ↦ g.opening.token .opening := by
  rw [tokens, unclosed_append_neutral (.phrase x), unclosed_append_neutral (.level level),
    OpenGroup.unclosed_tokens]

/-- Before an operand without a sign stands an operator, an opening parenthesis or nothing. -/
theorem operandNext_unsigned (level : OpenLevel) (groups : List OpenGroup) :
    OperandNext (operand none level groups).tokens := by
  obtain ⟨sum, product⟩ := level
  cases product with
  | some p =>
      right
      refine ⟨OpenGroup.tokens groups ++ OpenSum.tokens sum ++ p.left.tokens,
        p.at_.token p.op.mark, ?_, ?_⟩
      · simp [tokens, OpenLevel.tokens, OpenProduct.tokens, SpelledSign.tokens]
      · cases p.op <;> rfl
  | none =>
      cases sum with
      | some s =>
          right
          refine ⟨OpenGroup.tokens groups ++ s.left.tokens, s.at_.token s.op.mark, ?_, ?_⟩
          · simp [tokens, OpenLevel.tokens, OpenSum.tokens, OpenProduct.tokens,
              SpelledSign.tokens]
          · cases s.op <;> rfl
      | none =>
          cases groups with
          | nil => exact .inl rfl
          | cons g outer =>
              right
              refine ⟨OpenGroup.tokens outer ++ g.around.tokens ++ SpelledSign.tokens g.sign,
                g.opening.token .opening, ?_, rfl⟩
              simp [tokens, OpenGroup.tokens, OpenLevel.tokens, OpenSum.tokens,
                OpenProduct.tokens, SpelledSign.tokens]

theorem exists_sign (sign : SpelledSign) (level : OpenLevel) (groups : List OpenGroup) :
    ∃ front last, (operand (some sign) level groups).tokens = front ++ [last] ∧
      last.isSign = true ∧ last.callsForOperand = true ∧ OperandNext front := by
  have hfront := operandNext_unsigned level groups
  rw [tokens, SpelledSign.tokens, List.append_nil] at hfront
  cases sign with
  | plus s => exact ⟨_, s.token .plus, rfl, rfl, rfl, hfront⟩
  | minus s => exact ⟨_, s.token .minus, rfl, rfl, rfl, hfront⟩

theorem operandNext_operand (sign : Option SpelledSign) (level : OpenLevel)
    (groups : List OpenGroup) : OperandNext (operand sign level groups).tokens := by
  cases sign with
  | none => exact operandNext_unsigned level groups
  | some sign =>
      obtain ⟨front, last, heq, -, hcalls, -⟩ := exists_sign sign level groups
      exact .inr ⟨front, last, heq, hcalls⟩

theorem exists_last_operator (x : Phrase .signed) (level : OpenLevel)
    (groups : List OpenGroup) :
    ∃ front last, (operator x level groups).tokens = front ++ [last] ∧
      last.endsOperand = true := by
  obtain ⟨front, last, heq, hlast⟩ := x.exists_last
  exact ⟨OpenGroup.tokens groups ++ level.tokens ++ front, last,
    by rw [tokens, heq, List.append_assoc _ front], hlast⟩

end Unfinished

/-! ## The diagnostic -/

/-- A number that is too long for the token to be described. -/
def Token.IsLong (token : Token) : Prop :=
  ∃ n, token.word = .number (some n) ∧ ¬ IsShort n

theorem Token.describe?_eq_none_iff {token : Token} : token.describe? = none ↔ token.IsLong := by
  obtain ⟨word, place⟩ := token
  unfold describe? IsLong
  cases word with
  | number value =>
      cases value with
      | none => simp
      | some n => simp [Constant.of?_eq_none_iff]
  | mark m spelling => simp
  | finish spelling => simp

namespace SyntaxFault

theorem opens_message (fault : SyntaxFault) (found lead : String) :
    Opens (fault.message found) lead ↔
      lead.toList <+: fault.complaint.toList ++ (", found '" ++ found ++ "'").toList := by
  simp [Opens, message, toString]

theorem opens_message_operand_iff (fault : SyntaxFault) (found : String) :
    Opens (fault.message found) "expected expression" ↔ fault.expected = .operand := by
  rw [opens_message, complaint]
  cases fault.expected <;> simp

theorem opens_message_closing_iff (fault : SyntaxFault) (found : String) :
    Opens (fault.message found) "unmatched parenthesis" ↔
      ∃ opening, fault.expected = .closing opening := by
  rw [opens_message, complaint]
  cases fault.expected <;> simp

theorem opens_message_finish_iff (fault : SyntaxFault) (found : String) :
    Opens (fault.message found) "unexpected trailing input" ↔ fault.expected = .finish := by
  rw [opens_message, complaint]
  cases fault.expected <;> simp

/-- A token that can be described is what the failure is about. -/
theorem failure_eq_grammatical_iff {fault : SyntaxFault} {lines : List String}
    {blamed : Option Token} {d : Diagnostic} :
    fault.failure lines = .grammatical blamed d ↔
      blamed = some fault.found ∧ ∃ found, fault.found.describe? = some found ∧
        d = ⟨fault.message found, some fault.found.place, fault.hint,
          lineAt lines fault.found.place.line⟩ := by
  unfold failure
  cases fault.found.describe? with
  | none => exact iff_of_false nofun nofun
  | some found =>
      constructor
      · rintro ⟨⟩
        exact ⟨rfl, found, rfl, rfl⟩
      · rintro ⟨rfl, _, ⟨⟩, rfl⟩
        rfl

theorem failure_of_isLong {fault : SyntaxFault} (h : fault.found.IsLong) (lines : List String) :
    fault.failure lines = .tooLong := by
  unfold failure
  rw [Token.describe?_eq_none_iff.mpr h]

/-- A refused token is to blame, unless it is too long for a diagnostic. -/
theorem exists_failure_of_not_isLong {fault : SyntaxFault} (h : ¬ fault.found.IsLong)
    (lines : List String) : ∃ d, fault.failure lines = .grammatical (some fault.found) d := by
  rw [← Token.describe?_eq_none_iff] at h
  obtain ⟨found, hfound⟩ := Option.ne_none_iff_exists'.mp h
  exact ⟨_, failure_eq_grammatical_iff.mpr ⟨rfl, found, hfound, rfl⟩⟩

theorem failure_ne_lexical (fault : SyntaxFault) {lines : List String} {shown : String}
    {d : Diagnostic} : fault.failure lines ≠ .lexical shown d := by
  unfold failure
  split <;> exact nofun

theorem failure_ne_exhausted (fault : SyntaxFault) (lines : List String) :
    fault.failure lines ≠ .exhausted := by
  unfold failure
  split <;> exact nofun

theorem hint_opens_iff (fault : SyntaxFault) :
    (∃ hint, fault.hint = some hint ∧ Opens hint "only one sign") ↔
      fault.expected = .operand ∧ fault.found.isSign = true := by
  obtain ⟨expected, word, place⟩ := fault
  cases expected with
  | operand =>
    cases word with
    | number value => simp [hint, Token.isSign]
    | mark m spelling => cases m <;> simp [hint, Token.isSign, Opens]
    | finish spelling => simp [hint, Token.isSign]
  | closing opening => simp [hint, Opens, toString]
  | finish => simp [hint, Opens]

end SyntaxFault

/-- What is known of a refused token and its diagnostic from the tokens before it. -/
structure RefusedAfter (before : List Token) (found : Token) (d : Diagnostic) : Prop where
  /-- Up to here a sentence may still follow, and with this token none can. -/
  viable : Viable before
  not_viable : ¬ Viable (before ++ [found])
  expression_iff : Opens d.message "expected expression" ↔ OperandNext before
  /-- Where no operand has to come, one has just ended. -/
  operand_ended : ¬ OperandNext before →
    ∃ front last, before = front ++ [last] ∧ last.endsOperand = true
  parenthesis_iff : Opens d.message "unmatched parenthesis" ↔
    ¬ OperandNext before ∧ unclosed before ≠ []
  parenthesis_hint : ¬ OperandNext before → ∀ opening outer, unclosed before = opening :: outer →
    d.hint = some s!"add ')' to close '(' at column {opening.place.column}"
  trailing_iff : Opens d.message "unexpected trailing input" ↔
    ¬ OperandNext before ∧ unclosed before = []
  sign_iff : (∃ hint, d.hint = some hint ∧ Opens hint "only one sign") ↔
    Opens d.message "expected expression" ∧ found.isSign = true
  /-- The sign that is one too many follows a sign where an operand had to come. -/
  sign_before : (∃ hint, d.hint = some hint ∧ Opens hint "only one sign") →
    ∃ front last, before = front ++ [last] ∧ last.isSign = true ∧ OperandNext front

namespace Unfinished

theorem refusedAfter {before : List Token} {s : Unfinished} {found : Token}
    {expected : Expected} (hrun : start.run before = some s)
    (hstep : s.step found = .refuse expected) (words : String) (place : Option Location)
    (sourceLine : Option String) :
    RefusedAfter before found
      ⟨(SyntaxFault.mk expected found).message words, place,
        (SyntaxFault.mk expected found).hint, sourceLine⟩ := by
  have htokens : s.tokens = before := tokens_run hrun
  have hexpression := SyntaxFault.opens_message_operand_iff ⟨expected, found⟩ words
  have hparenthesis := SyntaxFault.opens_message_closing_iff ⟨expected, found⟩ words
  have htrailing := SyntaxFault.opens_message_finish_iff ⟨expected, found⟩ words
  have hsign := SyntaxFault.hint_opens_iff ⟨expected, found⟩
  rcases step_eq_refuse hstep with
    ⟨sign, level, groups, rfl, rfl, hsigned⟩ | ⟨x, level, groups, rfl, rfl⟩
  · have hnext : OperandNext before := htokens ▸ operandNext_operand sign level groups
    refine ⟨viable_of_run hrun, not_viable_of_refused hrun hstep, ?_, ?_, ?_, ?_, ?_, ?_, ?_⟩
    · exact hexpression.trans (iff_of_true rfl hnext)
    · exact fun h ↦ absurd hnext h
    · exact hparenthesis.trans (by simp [hnext])
    · exact fun h ↦ absurd hnext h
    · exact htrailing.trans (by simp [hnext])
    · rw [hsign, hexpression]
    · intro hhint
      obtain ⟨sign, rfl⟩ := Option.isSome_iff_exists.mp (hsigned (hsign.mp hhint).2)
      obtain ⟨front, last, heq, hlast, -, hfront⟩ := exists_sign sign level groups
      exact ⟨front, last, htokens ▸ heq, hlast, hfront⟩
  · obtain ⟨front, last, heq, hlast⟩ := exists_last_operator x level groups
    rw [htokens] at heq
    have hnext : ¬ OperandNext before := heq ▸ not_operandNext_of_endsOperand hlast
    have hunclosed := unclosed_tokens_operator x level groups
    rw [htokens] at hunclosed
    refine ⟨viable_of_run hrun, not_viable_of_refused hrun hstep, ?_, ?_, ?_, ?_, ?_, ?_, ?_⟩
    · exact hexpression.trans
        (iff_of_false (by cases groups <;> simp [Pending.expectedAfter]) hnext)
    · exact fun _ ↦ ⟨front, last, heq, hlast⟩
    · rw [hparenthesis, hunclosed]
      cases groups <;> simp [Pending.expectedAfter, hnext]
    · intro _ opening outer hopen
      rw [hunclosed] at hopen
      cases groups with
      | nil => cases hopen
      | cons g rest =>
          obtain ⟨rfl, -⟩ := List.cons.inj hopen
          rfl
    · rw [htrailing, hunclosed]
      cases groups <;> simp [Pending.expectedAfter, hnext]
    · rw [hsign, hexpression]
    · intro hhint
      cases groups <;> cases (hsign.mp hhint).1

end Unfinished

theorem Stream.rest_parse (source : String) (stream : Stream) :
    (stream.parse source).rest = stream.read.rest := by
  unfold Stream.parse
  cases h : stream.read.outcome <;> simp [h]

namespace Compilation

/-- A list of tokens without a tree, for which a token is to blame, is read up to that token
and no further.  The token is the first with which no sentence can go on, and the diagnostic
tells what the tokens before it asked for. -/
theorem refusedAfter_of_result_ofTokens (source : String) (lines : List String)
    {tokens : List Token} {blamed : Option Token} {d : Diagnostic}
    (h : (ofStream source lines (Stream.ofTokens tokens)).result =
      .error (.grammatical blamed d)) :
    ∃ before found after, tokens = before ++ found :: after ∧ blamed = some found ∧
      ((Stream.ofTokens tokens).parse source).rest = Stream.ofTokens after ∧
      RefusedAfter before found d := by
  rw [result_ofStream] at h
  rw [Stream.rest_parse]
  have hends : Unfinished.start.Ends tokens (Stream.ofTokens tokens).read :=
    Unfinished.start.ends_read tokens
  generalize (Stream.ofTokens tokens).read = reading at h hends ⊢
  cases hends with
  | exhausted last hrun => cases h
  | complete before after token last sentence htokens hrun hstep => cases h
  | refused before after found last expected htokens hrun hstep =>
      obtain ⟨rfl, words, -, rfl⟩ :=
        SyntaxFault.failure_eq_grammatical_iff.mp (Except.error.inj h)
      exact ⟨before, found, after, htokens, rfl, rfl, Unfinished.refusedAfter hrun hstep _ _ _⟩

/-- The tokens of `(1 2`: the second number is refused inside an open parenthesis. -/
theorem refusedAfter_second_number :
    let at_ := fun column : Int ↦ ({ line := 1, column } : Location)
    let tokens : List Token :=
      [⟨.mark .opening (some "("), at_ 1⟩, ⟨.number (some 1), at_ 2⟩,
        ⟨.number (some 2), at_ 4⟩, ⟨.finish none, at_ 5⟩]
    let found : Token := ⟨.number (some 2), at_ 4⟩
    let d : Diagnostic :=
      { message := "unmatched parenthesis, found '2'"
        place := some (at_ 4)
        hint := some "add ')' to close '(' at column 1"
        sourceLine := some "(1 2" }
    (ofStream "<tokens>" ["(1 2"] (Stream.ofTokens tokens)).result =
        .error (.grammatical (some found) d) ∧
      ∃ before found' after, tokens = before ++ found' :: after ∧ some found = some found' ∧
        ((Stream.ofTokens tokens).parse "<tokens>").rest = Stream.ofTokens after ∧
        RefusedAfter before found' d := by
  intro at_ tokens found d
  have h : (ofStream "<tokens>" ["(1 2"] (Stream.ofTokens tokens)).result =
      .error (.grammatical (some found) d) := by rfl
  exact ⟨h, refusedAfter_of_result_ofTokens "<tokens>" ["(1 2"] h⟩

end Compilation

end ArithAsm
