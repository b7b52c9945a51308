import ArithAsm.Proofs.Compilation.Layout
import ArithAsm.Proofs.Compilation.RoundTrip
import ArithAsm.Proofs.Source.Concatenation

/-!
# Texts put together

A text has a tree just if its tokens are those of a derivation.  A derivation may be moved to
another place and put in parentheses there, and derivations in parentheses may be joined by an
operator.  So texts with trees make up larger texts with trees, in which the smaller trees are
found again, only further on.
-/

namespace ArithAsm

/-! ## Derivations elsewhere -/

theorem Expr.mapPlace_mapPlace (f g : Location → Location) (e : Expr) :
    (e.mapPlace f).mapPlace g = e.mapPlace fun place ↦ g (f place) := by
  induction e <;> simp_all [mapPlace]

namespace Phrase

variable {rank : Rank} (f : Location → Location)

def mapPlace {rank : Rank} : Phrase rank → Phrase rank
  | number place value => number (f place) value
  | group opening inner closing =>
      group { opening with place := f opening.place } inner.mapPlace
        { closing with place := f closing.place }
  | unsigned operand => unsigned operand.mapPlace
  | plus sign operand => plus { sign with place := f sign.place } operand.mapPlace
  | minus sign operand => minus { sign with place := f sign.place } operand.mapPlace
  | factor first => factor first.mapPlace
  | multiply left op at_ right =>
      multiply left.mapPlace op { at_ with place := f at_.place } right.mapPlace
  | term first => term first.mapPlace
  | add left op at_ right => add left.mapPlace op { at_ with place := f at_.place } right.mapPlace

@[simp] theorem tokens_mapPlace (p : Phrase rank) :
    (p.mapPlace f).tokens = p.tokens.map (Token.mapPlace f) := by
  induction p <;> simp_all [mapPlace, tokens, Spelled.token, Token.mapPlace]

@[simp] theorem tree_mapPlace (p : Phrase rank) :
    (p.mapPlace f).tree = p.tree.mapPlace f := by
  induction p <;> simp_all [mapPlace, tree, Expr.mapPlace]

end Phrase

/-! ## Tokens around a mark -/

@[simp] theorem Segment.mapPlace_token_spelledAfter (source : String) (start count : Nat)
    (m : Mark) : ((spelledAfter source start m).token m).mapPlace (.shift count) =
      (spelledAfter source (start + count) m).token m := by
  simp [Token.mapPlace, Spelled.token, spelledAfter, placeAfter_add]

namespace HasTokens

variable {source : String} {first second : List Char} {given given' : List Token}

theorem nil (source : String) : HasTokens source [] [] :=
  ⟨[], .nil, List.forall_mem_nil _, rfl⟩

/-- No run of digits spans a mark. -/
theorem append_mark (hf : HasTokens source first given) (hs : HasTokens source second given')
    (m : Mark) :
    HasTokens source (first ++ m.char :: second)
      (given ++ (Segment.spelledAfter source first.length m).token m ::
        given'.map (Token.mapPlace (.shift (first.length + 1)))) := by
  obtain ⟨before, hbefore, hsound, rfl⟩ := hf
  obtain ⟨after, hafter, hsound', rfl⟩ := hs
  refine ⟨before ++ .mark m :: after, hbefore.append_mark hafter m, ?_, ?_⟩
  · exact List.forall_mem_append.mpr ⟨hsound, List.forall_mem_cons.mpr ⟨trivial, hsound'⟩⟩
  · rw [Segment.tokensAfter_append, Segment.tokensAfter_mark, hbefore.width_eq, Nat.zero_add,
      ← Segment.tokensAfter_add, Nat.zero_add]

theorem cons_mark (h : HasTokens source second given') (m : Mark) :
    HasTokens source (m.char :: second)
      ((Segment.spelledAfter source 0 m).token m :: given'.map (Token.mapPlace (.shift 1))) :=
  (nil source).append_mark h m

end HasTokens

namespace Phrase

/-- The phrase behind an opening parenthesis, and the closing one behind its text. -/
def enclose (source : String) (width : Nat) (p : Phrase .sum) : Phrase .operand :=
  .group (Segment.spelledAfter source 0 .opening) (p.mapPlace (.shift 1))
    (Segment.spelledAfter source (width + 1) .closing)

theorem hasTokens_enclose {source : String} {text : List Char} {p : Phrase .sum}
    (h : HasTokens source text p.tokens) :
    HasTokens source (parenthesised text) (p.enclose source text.length).tokens := by
  have hgroup : HasTokens source (parenthesised text) _ :=
    (h.append_mark (.nil source) .closing).cons_mark .opening
  rw [enclose, tokens, tokens_mapPlace]
  simpa using hgroup

theorem tree_enclose (source : String) (width : Nat) (p : Phrase .sum) :
    (p.enclose source width).tree = p.tree.mapPlace (.shift 1) := by
  rw [enclose, tree, tree_mapPlace]

theorem tree_enclose_shift (source : String) (width count : Nat) (p : Phrase .sum) :
    ((p.enclose source width).mapPlace (.shift count)).tree =
      p.tree.mapPlace (.shift (1 + count)) := by
  rw [tree_mapPlace, tree_enclose, Expr.mapPlace_mapPlace]
  simp

theorem hasTokens_mark_enclose {source : String} {text : List Char} {p : Phrase .sum}
    (h : HasTokens source text p.tokens) (m : Mark) :
    HasTokens source (m.char :: parenthesised text)
      ((Segment.spelledAfter source 0 m).token m ::
        ((p.enclose source text.length).mapPlace (.shift 1)).tokens) := by
  rw [tokens_mapPlace]
  exact (p.hasTokens_enclose h).cons_mark m

end Phrase

/-! ## Operations -/

namespace Op

def mark : Op → Mark
  | add => .plus
  | sub => .minus
  | mul => .star
  | div => .slash

theorem char_mark (op : Op) : op.mark.char = op.char := by
  cases op <;> rfl

/-- Operands may be joined by any operator. -/
theorem exists_phrase (op : Op) (left right : Phrase .operand) (at_ : Spelled) :
    ∃ p : Phrase .sum, p.tokens = left.tokens ++ at_.token op.mark :: right.tokens ∧
      p.tree = .binary at_.place (some op) left.tree right.tree := by
  cases op with
  | add =>
      exact ⟨.add (.term (.factor (.unsigned left))) .plus at_ (.factor (.unsigned right)),
        rfl, rfl⟩
  | sub =>
      exact ⟨.add (.term (.factor (.unsigned left))) .minus at_ (.factor (.unsigned right)),
        rfl, rfl⟩
  | mul =>
      exact ⟨.term (.multiply (.factor (.unsigned left)) .times at_ (.unsigned right)), rfl, rfl⟩
  | div =>
      exact ⟨.term (.multiply (.factor (.unsigned left)) .divide at_ (.unsigned right)), rfl, rfl⟩

end Op

namespace Compilation

variable {source text : String} {tree : Expr}

theorem exists_tokens_of_parse (h : (parse source text).result = .ok tree) :
    ∃ found, (Stream.ofText source text).tokens = .ok found := by
  rcases sound_or_firstUnsound text.toList with ⟨segments, hsegments, hsound⟩ | ⟨before, bad, hbad⟩
  · exact ⟨_, Stream.tokens_ofText_of_sound source hsegments hsound⟩
  · obtain ⟨fault, hstream, -⟩ := Stream.ofText_of_firstUnsound source hbad
    rcases result_parse_of_fault Segment.isFinish_of_mem_tokensAfter hstream with
      ⟨-, hparse⟩ | ⟨-, token, -, d, hparse⟩ <;> cases hparse.symm.trans h

/-- A text has a tree just if its tokens are those of a derivation, which is one of the tree. -/
theorem result_parse_eq_ok_iff :
    (parse source text).result = .ok tree ↔
      ∃ p : Phrase .sum, HasTokens source text.toList p.tokens ∧ p.tree = tree := by
  constructor
  · intro h
    obtain ⟨found, hfound⟩ := exists_tokens_of_parse h
    rw [result_parse_of_tokens hfound] at h
    obtain ⟨given, hgiven, rfl⟩ := Stream.tokens_ofText_eq_ok_iff.mp hfound
    obtain ⟨p, token, after, htokens, htoken, rfl⟩ := ofTokens_eq_ok h
    -- Both lists have their first end where the derivation is over.
    have hfirst := findIdx?_isFinish_append p.isFinish_of_mem_tokens htoken after
    rw [← htokens, findIdx?_isFinish_append hgiven.isFinish_of_mem rfl] at hfirst
    obtain ⟨rfl, -⟩ := List.append_inj htokens (Option.some.inj hfirst)
    exact ⟨p, hgiven, rfl⟩
  · rintro ⟨p, hp, rfl⟩
    have hfound := Stream.tokens_ofText_eq_ok_iff.mpr ⟨_, hp, rfl⟩
    rw [result_parse_of_tokens hfound, ofTokens, result_ofStream, p.read_tokens rfl]
    rfl

/-- What is compiled is the tree that is read. -/
theorem exists_compiled_of_parse (h : (parse source text).result = .ok tree)
    (options : CompilerOptions) :
    ∃ compiled, (compile options source text).result = .ok compiled ∧
      compiled.lines = tree.programLines options.entry options.remarks := by
  obtain ⟨found, hfound⟩ := exists_tokens_of_parse h
  rw [result_parse_of_tokens hfound] at h
  exact ⟨_, result_compile_of_ofTokens_ok hfound h, rfl⟩

theorem result_parse_of_phrase (p : Phrase .sum) {characters : List Char}
    (h : HasTokens source characters p.tokens) (htext : text.toList = characters) :
    (parse source text).result = .ok p.tree :=
  result_parse_eq_ok_iff.mpr ⟨p, htext ▸ h, rfl⟩

/-! ## Larger texts

Every text of a tree is put in parentheses first, which moves its tree by one column.  What then
stands before the opening parenthesis moves it further. -/

theorem parse_enclosed (h : (parse source text).result = .ok tree) :
    (parse source ("(" ++ text ++ ")")).result = .ok (tree.mapPlace (.shift 1)) := by
  obtain ⟨p, hp, rfl⟩ := result_parse_eq_ok_iff.mp h
  let group := p.enclose source text.toList.length
  have hgroup : HasTokens source (parenthesised text.toList) group.tokens := p.hasTokens_enclose hp
  rw [← p.tree_enclose source text.toList.length]
  apply result_parse_of_phrase (.term (.factor (.unsigned group))) hgroup
  simp [parenthesised]

theorem parse_plus_enclosed (h : (parse source text).result = .ok tree) :
    (parse source ("+(" ++ text ++ ")")).result = .ok (tree.mapPlace (.shift 2)) := by
  obtain ⟨p, hp, rfl⟩ := result_parse_eq_ok_iff.mp h
  let group := (p.enclose source text.toList.length).mapPlace (.shift 1)
  have htree : group.tree = p.tree.mapPlace (.shift 2) := p.tree_enclose_shift source _ 1
  rw [← htree]
  apply result_parse_of_phrase (.term (.factor (.plus (Segment.spelledAfter source 0 .plus) group)))
    (p.hasTokens_mark_enclose hp .plus)
  simp [parenthesised, Mark.char]

theorem parse_minus_enclosed (h : (parse source text).result = .ok tree) :
    (parse source ("-(" ++ text ++ ")")).result =
      .ok (.negation ⟨source, 1, 1⟩ (tree.mapPlace (.shift 2))) := by
  obtain ⟨p, hp, rfl⟩ := result_parse_eq_ok_iff.mp h
  let group := (p.enclose source text.toList.length).mapPlace (.shift 1)
  have htree : group.tree = p.tree.mapPlace (.shift 2) := p.tree_enclose_shift source _ 1
  rw [← htree]
  apply result_parse_of_phrase
    (.term (.factor (.minus (Segment.spelledAfter source 0 .minus) group)))
    (p.hasTokens_mark_enclose hp .minus)
  simp [parenthesised, Mark.char]

theorem parse_operation {first second : String} {left right : Expr}
    (hl : (parse source first).result = .ok left) (hr : (parse source second).result = .ok right)
    (op : Op) :
    (parse source ("(" ++ first ++ ")" ++ op.char.toString ++ "(" ++ second ++ ")")).result =
      .ok (.binary ⟨source, 1, first.length + 3⟩ (some op) (left.mapPlace (.shift 1))
        (right.mapPlace (.shift (first.length + 4)))) := by
  obtain ⟨p, hp, rfl⟩ := result_parse_eq_ok_iff.mp hl
  obtain ⟨q, hq, rfl⟩ := result_parse_eq_ok_iff.mp hr
  have hlength : (parenthesised first.toList).length = first.length + 2 := by
    simp [parenthesised, String.length_toList]
  have hwhole := (p.hasTokens_enclose hp).append_mark (q.hasTokens_enclose hq) op.mark
  rw [← Phrase.tokens_mapPlace, hlength] at hwhole
  obtain ⟨r, hr, htree⟩ := op.exists_phrase (p.enclose source first.toList.length)
    ((q.enclose source second.toList.length).mapPlace (.shift (first.length + 3)))
    (Segment.spelledAfter source (first.length + 2) op.mark)
  have hplace : Segment.placeAfter source (first.length + 2) = ⟨source, 1, first.length + 3⟩ := by
    simp [Segment.placeAfter]
    omega
  rw [← hr] at hwhole
  rw [Phrase.tree_enclose, Phrase.tree_enclose_shift, Nat.add_comm 1, Segment.spelledAfter,
    hplace] at htree
  rw [← htree]
  apply result_parse_of_phrase r hwhole
  simp [parenthesised, op.char_mark]

/-- Texts with trees make up larger texts.  In parentheses a text has its tree one column further
on, behind a sign one more, and with an operator between two texts in parentheses their trees are
the operands.  Parentheses and a plus sign do not change the program. -/
theorem parse_composed {first second : String} {left right : Expr}
    (hl : (parse source first).result = .ok left) (hr : (parse source second).result = .ok right) :
    (∀ op : Op,
      (parse source ("(" ++ first ++ ")" ++ op.char.toString ++ "(" ++ second ++ ")")).result =
        .ok (.binary ⟨source, 1, first.length + 3⟩ (some op) (left.mapPlace (.shift 1))
          (right.mapPlace (.shift (first.length + 4))))) ∧
    (parse source ("-(" ++ first ++ ")")).result =
      .ok (.negation ⟨source, 1, 1⟩ (left.mapPlace (.shift 2))) ∧
    (parse source ("(" ++ first ++ ")")).result = .ok (left.mapPlace (.shift 1)) ∧
    (parse source ("+(" ++ first ++ ")")).result = .ok (left.mapPlace (.shift 2)) ∧
    ∀ options : CompilerOptions, ∃ plain enclosed signed,
      (compile options source first).result = .ok plain ∧
      (compile options source ("(" ++ first ++ ")")).result = .ok enclosed ∧
      (compile options source ("+(" ++ first ++ ")")).result = .ok signed ∧
      enclosed.assembly = plain.assembly ∧ signed.assembly = plain.assembly := by
  have henclosed := parse_enclosed hl
  have hsigned := parse_plus_enclosed hl
  refine ⟨parse_operation hl hr, parse_minus_enclosed hl, henclosed, hsigned, ?_⟩
  intro options
  obtain ⟨plain, hplain, hlines⟩ := exists_compiled_of_parse hl options
  obtain ⟨enclosed, hcompiled, hlines'⟩ := exists_compiled_of_parse henclosed options
  obtain ⟨signed, hcompiled', hlines''⟩ := exists_compiled_of_parse hsigned options
  refine ⟨plain, enclosed, signed, hplain, hcompiled, hcompiled', ?_, ?_⟩
  · rw [Compiled.assembly, Compiled.assembly, hlines, hlines', Expr.programLines_mapPlace]
  · rw [Compiled.assembly, Compiled.assembly, hlines, hlines'', Expr.programLines_mapPlace]

/-- The texts ` 1-2` and `7`, and the text `( 1-2)*(7)` made of them. -/
theorem parse_composed_product :
    let at_ := fun column : Int ↦ ({ line := 1, column } : Location)
    let difference := fun column : Int ↦ Expr.binary (at_ (column + 1)) (some .sub)
      (.literal (at_ column) (some 1)) (.literal (at_ (column + 2)) (some 2))
    (parse "<input>" " 1-2").result = .ok (difference 2) ∧
      (parse "<input>" "7").result = .ok (.literal (at_ 1) (some 7)) ∧
      (parse "<input>" "( 1-2)*(7)").result =
        .ok (.binary (at_ 7) (some .mul) (difference 3) (.literal (at_ 9) (some 7))) ∧
      (parse "<input>" "-( 1-2)").result = .ok (.negation (at_ 1) (difference 4)) ∧
      ∃ plain enclosed, (compile { remarks := true } "<input>" " 1-2").result = .ok plain ∧
        (compile { remarks := true } "<input>" "( 1-2)").result = .ok enclosed ∧
        enclosed.assembly = plain.assembly := by
  intro at_ difference
  have hl : (parse "<input>" " 1-2").result = .ok (difference 2) := rfl
  have hr : (parse "<input>" "7").result = .ok (.literal (at_ 1) (some 7)) := rfl
  obtain ⟨hoperation, hminus, -, -, hprograms⟩ := parse_composed hl hr
  obtain ⟨plain, enclosed, -, hplain, henclosed, -, hsame, -⟩ := hprograms { remarks := true }
  exact ⟨hl, hr, hoperation .mul, hminus, plain, enclosed, hplain, henclosed, hsame⟩

end Compilation

end ArithAsm
