import ArithAsm.Proofs.Sentence.Acceptance
import ArithAsm.Proofs.Source.Tokenization
import Mathlib.Data.List.Infix
import Mathlib.Data.List.MinMax

/-!
# Nesting of parentheses

The most parentheses that are open at once along a text.  A sentence that is read from the text
has no more than these open at once, since the tokens before a moment of its reading are those of
a text that the whole one starts with.
-/

namespace ArithAsm

/-! ## Texts -/

namespace Text

/-- The opening parentheses of a text less the closing ones. -/
def openings (text : List Char) : Int :=
  text.count '(' - text.count ')'

/-- The greatest number of parentheses that are open at once, anywhere along a text. -/
def nesting (text : List Char) : Nat :=
  (text.inits.map fun before ↦ (openings before).toNat).foldr max 0

theorem openings_append (first second : List Char) :
    openings (first ++ second) = openings first + openings second := by
  simp only [openings, List.count_append]
  omega

theorem openings_eq_zero {text : List Char} (hopening : '(' ∉ text) (hclosing : ')' ∉ text) :
    openings text = 0 := by
  rw [openings, List.count_eq_zero_of_not_mem hopening, List.count_eq_zero_of_not_mem hclosing]
  rfl

theorem openings_le_nesting {before text : List Char} (h : before <+: text) :
    openings before ≤ nesting text := by
  have hmem : (openings before).toNat ∈ text.inits.map fun before ↦ (openings before).toNat :=
    List.mem_map.mpr ⟨before, (List.mem_inits _ _).mpr h, rfl⟩
  have hle : (openings before).toNat ≤ nesting text := List.le_max_of_le' 0 hmem le_rfl
  omega

end Text

/-! ## Tokens -/

/-- By how many a token changes the number of open parentheses. -/
def Token.opens (token : Token) : Int :=
  match token.word with
  | .mark .opening _ => 1
  | .mark .closing _ => -1
  | _ => 0

def openingsOf (tokens : List Token) : Int :=
  (tokens.map Token.opens).sum

theorem openingsOf_cons (token : Token) (tokens : List Token) :
    openingsOf (token :: tokens) = token.opens + openingsOf tokens := by
  simp [openingsOf]

theorem openingsOf_append (first second : List Token) :
    openingsOf (first ++ second) = openingsOf first + openingsOf second := by
  simp [openingsOf]

theorem Token.opens_sumOp (op : SumOp) (at_ : Spelled) : (at_.token op.mark).opens = 0 := by
  cases op <;> rfl

theorem Token.opens_productOp (op : ProductOp) (at_ : Spelled) :
    (at_.token op.mark).opens = 0 := by
  cases op <;> rfl

/-- At some moment along the tokens this many parentheses are open. -/
def Reaches (tokens : List Token) (n : Nat) : Prop :=
  ∃ before, before <+: tokens ∧ openingsOf before = n

namespace Reaches

variable {tokens first second : List Token} {token : Token} {n k : Nat}

theorem append_right (h : Reaches first n) (second : List Token) : Reaches (first ++ second) n := by
  obtain ⟨before, hbefore, hopenings⟩ := h
  exact ⟨before, hbefore.trans (List.prefix_append _ _), hopenings⟩

theorem append_left (h : Reaches second n) (hfirst : openingsOf first = 0) :
    Reaches (first ++ second) n := by
  obtain ⟨before, hbefore, hopenings⟩ := h
  refine ⟨first ++ before, (List.prefix_append_right_inj first).mpr hbefore, ?_⟩
  rw [openingsOf_append, hfirst, hopenings, Int.zero_add]

theorem cons (h : Reaches tokens n) (htoken : token.opens = 0) : Reaches (token :: tokens) n := by
  have hfirst : openingsOf [token] = 0 := by rw [openingsOf_cons, htoken]; rfl
  exact h.append_left hfirst

/-- The first part leaves no parenthesis open, so each part reaches in the whole what it reaches
alone. -/
theorem chain (hf : Reaches first n) (hfirst : openingsOf first = 0) (htoken : token.opens = 0)
    (hs : Reaches second k) : Reaches (first ++ token :: second) (max n k) := by
  rcases Nat.le_total k n with hle | hle
  · rw [Nat.max_eq_left hle]
    exact hf.append_right _
  · rw [Nat.max_eq_right hle]
    exact (hs.cons htoken).append_left hfirst

end Reaches

namespace Phrase

variable {rank : Rank}

theorem openingsOf_tokens (p : Phrase rank) : openingsOf p.tokens = 0 := by
  induction p with
  | number place value => rfl
  | group opening inner closing ih =>
      rw [tokens, openingsOf_cons, openingsOf_append, ih]
      rfl
  | unsigned operand ih => exact ih
  | plus sign operand ih =>
      rw [tokens, openingsOf_cons, ih]
      rfl
  | minus sign operand ih =>
      rw [tokens, openingsOf_cons, ih]
      rfl
  | factor first ih => exact ih
  | multiply left op at_ right ihl ihr =>
      rw [tokens, openingsOf_append, openingsOf_cons, Token.opens_productOp, ihl, ihr]
      rfl
  | term first ih => exact ih
  | add left op at_ right ihl ihr =>
      rw [tokens, openingsOf_append, openingsOf_cons, Token.opens_sumOp, ihl, ihr]
      rfl

/-- The nesting of a phrase is reached at some moment of its tokens. -/
theorem reaches_nesting (p : Phrase rank) : Reaches p.tokens p.nesting := by
  induction p with
  | number place value => exact ⟨[], List.nil_prefix, rfl⟩
  | group opening inner closing ih =>
      obtain ⟨before, hbefore, hopenings⟩ := ih
      refine ⟨opening.token .opening :: before, ?_, ?_⟩
      · exact List.cons_prefix_cons.mpr ⟨rfl, hbefore.trans (List.prefix_append _ _)⟩
      · rw [openingsOf_cons, hopenings, nesting]
        exact Int.add_comm 1 _
  | unsigned operand ih => exact ih
  | plus sign operand ih => exact ih.cons rfl
  | minus sign operand ih => exact ih.cons rfl
  | factor first ih => exact ih
  | multiply left op at_ right ihl ihr =>
      exact ihl.chain left.openingsOf_tokens (Token.opens_productOp op at_) ihr
  | term first ih => exact ih
  | add left op at_ right ihl ihr =>
      exact ihl.chain left.openingsOf_tokens (Token.opens_sumOp op at_) ihr

end Phrase

/-! ## Tokens of a text -/

namespace Segment

theorem openingsOf_tokenAfter? {s : Segment} (hform : s.WellFormed) (hsound : s.Sound)
    (source : String) (start : Nat) :
    openingsOf (s.tokenAfter? source start).toList = Text.openings s.text := by
  cases s with
  | blank c => rcases hform with rfl | rfl <;> rfl
  | mark m => cases m <;> rfl
  | digits run =>
      -- No digit is a parenthesis.
      have hopening : '(' ∉ run := fun hmem ↦ Bool.false_ne_true (hform.2 _ hmem)
      have hclosing : ')' ∉ run := fun hmem ↦ Bool.false_ne_true (hform.2 _ hmem)
      exact (Text.openings_eq_zero hopening hclosing).symm
  | stray c => exact hsound.elim

theorem openingsOf_tokensAfter {segments : List Segment} (hform : ∀ s ∈ segments, s.WellFormed)
    (hsound : ∀ s ∈ segments, s.Sound) (source : String) (start : Nat) :
    openingsOf (tokensAfter source start segments) = Text.openings (segments.flatMap text) := by
  induction segments generalizing start with
  | nil => rfl
  | cons s rest ih =>
      obtain ⟨hs, hrest⟩ := List.forall_mem_cons.mp hform
      obtain ⟨hssound, hrestsound⟩ := List.forall_mem_cons.mp hsound
      rw [tokensAfter, openingsOf_append, openingsOf_tokenAfter? hs hssound, ih hrest hrestsound,
        List.flatMap_cons, Text.openings_append]

/-- The first tokens of segments are the tokens of the first segments. -/
theorem exists_prefix_of_tokensAfter {source : String} {segments : List Segment} {start : Nat}
    {given : List Token} (h : given <+: tokensAfter source start segments) :
    ∃ before, before <+: segments ∧ tokensAfter source start before = given := by
  induction segments generalizing start given with
  | nil => exact ⟨[], List.nil_prefix, (List.prefix_nil.mp h).symm⟩
  | cons s rest ih =>
      rw [tokensAfter] at h
      cases htoken : s.tokenAfter? source start with
      | none =>
          rw [htoken] at h
          obtain ⟨before, hbefore, rfl⟩ := ih h
          refine ⟨s :: before, List.cons_prefix_cons.mpr ⟨rfl, hbefore⟩, ?_⟩
          rw [tokensAfter, htoken]
          rfl
      | some token =>
          rw [htoken] at h
          rcases List.prefix_cons_iff.mp h with rfl | ⟨given, rfl, hgiven⟩
          · exact ⟨[], List.nil_prefix, rfl⟩
          · obtain ⟨before, hbefore, rfl⟩ := ih hgiven
            refine ⟨s :: before, List.cons_prefix_cons.mpr ⟨rfl, hbefore⟩, ?_⟩
            rw [tokensAfter, htoken]
            rfl

end Segment

theorem IsSegmentation.openingsOf_le_nesting {text : List Char} {segments : List Segment}
    (h : IsSegmentation text segments) (hsound : ∀ s ∈ segments, s.Sound) {source : String}
    {given : List Token} (hgiven : given <+: Segment.tokensAfter source 0 segments) :
    openingsOf given ≤ Text.nesting text := by
  obtain ⟨before, hbefore, rfl⟩ := Segment.exists_prefix_of_tokensAfter hgiven
  have hsubset : before ⊆ segments := hbefore.subset
  rw [Segment.openingsOf_tokensAfter (fun s hs ↦ h.wellFormed s (hsubset hs))
    (fun s hs ↦ hsound s (hsubset hs))]
  refine Text.openings_le_nesting ?_
  obtain ⟨after, rfl⟩ := hbefore
  rw [← h.flatMap_text, List.flatMap_append]
  exact List.prefix_append _ _

/-- A sentence read from a text is nested no deeper than the text. -/
theorem Phrase.nesting_le_of_tokens {source text : String} {rank : Rank} {p : Phrase rank}
    {token : Token} {after : List Token}
    (h : (Stream.ofText source text).tokens = .ok (p.tokens ++ token :: after)) :
    p.nesting ≤ Text.nesting text.toList := by
  obtain ⟨segments, hsegments, hsound, heq⟩ := Stream.exists_sound_of_tokens h
  obtain ⟨before, hbefore, hopenings⟩ := p.reaches_nesting
  have hgiven : before <+: Segment.tokensAfter source 0 segments ++
      [⟨.finish none, Segment.placeAfter source text.length⟩] := by
    rw [← heq]
    exact hbefore.trans (List.prefix_append _ _)
  rcases List.prefix_concat_iff.mp hgiven with hwhole | hgiven
  · -- The end is no token of a phrase.
    have hmem := hbefore.subset (hwhole ▸ List.mem_append_right _ List.mem_cons_self)
    cases p.isFinish_of_mem_tokens _ hmem
  · have hle := hsegments.openingsOf_le_nesting hsound hgiven
    omega

end ArithAsm
