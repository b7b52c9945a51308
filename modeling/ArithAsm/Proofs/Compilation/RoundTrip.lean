import ArithAsm.Expr.Places
import ArithAsm.Expr.Source
import ArithAsm.Proofs.Assembly.Listing
import ArithAsm.Proofs.Compilation.Failing

/-!
# Written trees

A tree is written by the levels of the grammar, with parentheses only where the grammar needs
them.  Its text has one segmentation, and wherever the text stands the tokens of that segmentation
have a derivation of the rank they were written for.  So the tree is read back from its text.
-/

namespace ArithAsm

/-- The tree can be written: it has no gaps, and its literals are literals of the language. -/
def Expr.Writable : Expr → Prop
  | .literal _ value => ∃ n : Nat, value = some (n : Int) ∧ n ≤ 2 ^ 63 - 1
  | .negation _ operand => operand.Writable
  | .binary _ op left right => op.isSome ∧ left.Writable ∧ right.Writable
  | .blank _ => False
  | .missing => False

namespace Segment

/-- The mark as a token list has it, where its segment comes after `start` characters. -/
def spelledAfter (source : String) (start : Nat) (m : Mark) : Spelled :=
  ⟨placeAfter source start, some m.char.toString⟩

theorem tokensAfter_mark (source : String) (start : Nat) (m : Mark) (rest : List Segment) :
    tokensAfter source start (.mark m :: rest) =
      (spelledAfter source start m).token m :: tokensAfter source (start + 1) rest := rfl

end Segment

/-- The text, wherever it stands, is that of a phrase of the given rank for the tree. -/
structure Spells (rank : Rank) (text : List Char) (e : Expr) (segments : List Segment) :
    Prop where
  segmentation : IsSegmentation text segments
  sound : ∀ s ∈ segments, s.Sound
  phrase : ∀ source start, ∃ p : Phrase rank,
    p.tokens = Segment.tokensAfter source start segments ∧ p.tree.Alike e

namespace Spells

variable {text text' : List Char} {e left right : Expr} {segments segments' : List Segment}

theorem number {n : Nat} (h : n ≤ 2 ^ 63 - 1) (place : Location) :
    Spells .operand n.repr.toList (.literal place (some n)) [.digits n.repr.toList] := by
  obtain ⟨hne, hdigits⟩ := Segment.wellFormed_repr n
  constructor
  · exact isSegmentation_digits hne hdigits
  · exact List.forall_mem_singleton.mpr (Segment.sound_repr h)
  · intro source start
    refine ⟨.number (Segment.placeAfter source start) (some n), ?_, Expr.Alike.literal _ _ _⟩
    change _ = [(⟨.number (some (runValue n.repr.toList : Int)), _⟩ : Token)]
    rw [runValue_repr]
    rfl

/-- Parentheses make an operand of any sum. -/
theorem group (h : Spells .sum text e segments) :
    Spells .operand (parenthesised text) e
      (.mark .opening :: (segments ++ [.mark .closing])) := by
  constructor
  · exact IsSegmentation.nil.append_mark (h.segmentation.append_mark .nil .closing) .opening
  · refine List.forall_mem_cons.mpr ⟨trivial, List.forall_mem_append.mpr ⟨h.sound, ?_⟩⟩
    exact List.forall_mem_singleton.mpr trivial
  · intro source start
    obtain ⟨p, hp, htree⟩ := h.phrase source (start + 1)
    refine ⟨.group (Segment.spelledAfter source start .opening) p
      (Segment.spelledAfter source (start + 1 + Segment.width segments) .closing), ?_, ?_⟩
    · rw [Phrase.tokens, hp, Segment.tokensAfter_mark, Segment.tokensAfter_append]
      rfl
    · rwa [Phrase.tree]

theorem minus (h : Spells .operand text e segments) (place : Location) :
    Spells .signed ('-' :: text) (.negation place e) (.mark .minus :: segments) := by
  constructor
  · exact IsSegmentation.nil.append_mark h.segmentation .minus
  · exact List.forall_mem_cons.mpr ⟨trivial, h.sound⟩
  · intro source start
    obtain ⟨p, hp, htree⟩ := h.phrase source (start + 1)
    refine ⟨.minus (Segment.spelledAfter source start .minus) p, ?_, ?_⟩
    · rw [Phrase.tokens, hp, Segment.tokensAfter_mark]
    · rw [Phrase.tree]
      exact htree.negation _ _

/-- A phrase that adds neither tokens nor nodes to a tighter one. -/
theorem embed {rank rank' : Rank} (wrap : Phrase rank → Phrase rank')
    (htokens : ∀ p, (wrap p).tokens = p.tokens) (htree : ∀ p, (wrap p).tree = p.tree)
    (h : Spells rank text e segments) : Spells rank' text e segments := by
  refine ⟨h.segmentation, h.sound, fun source start ↦ ?_⟩
  obtain ⟨p, hp, halike⟩ := h.phrase source start
  exact ⟨wrap p, (htokens p).trans hp, (htree p).symm ▸ halike⟩

/-- Two phrases with an operator between them. -/
theorem join {rankl rankr rank : Rank} {m : Mark} {op : Op}
    (combine : Phrase rankl → Spelled → Phrase rankr → Phrase rank)
    (htokens : ∀ p at_ q, (combine p at_ q).tokens = p.tokens ++ at_.token m :: q.tokens)
    (htree : ∀ p at_ q, (combine p at_ q).tree = .binary at_.place (some op) p.tree q.tree)
    (hl : Spells rankl text left segments) (hr : Spells rankr text' right segments')
    (place : Location) :
    Spells rank (text ++ m.char :: text') (.binary place (some op) left right)
      (segments ++ .mark m :: segments') := by
  constructor
  · exact hl.segmentation.append_mark hr.segmentation m
  · refine List.forall_mem_append.mpr ⟨hl.sound, ?_⟩
    exact List.forall_mem_cons.mpr ⟨trivial, hr.sound⟩
  · intro source start
    obtain ⟨p, hp, hleft⟩ := hl.phrase source start
    obtain ⟨q, hq, hright⟩ := hr.phrase source (start + Segment.width segments + 1)
    refine ⟨combine p (Segment.spelledAfter source (start + Segment.width segments) m) q, ?_, ?_⟩
    · rw [htokens, hp, hq, Segment.tokensAfter_append, Segment.tokensAfter_mark]
    · rw [htree]
      exact hleft.binary hright _ _ _

theorem add (op : SumOp) (hl : Spells .sum text left segments)
    (hr : Spells .product text' right segments') (place : Location) :
    Spells .sum (text ++ op.op.char :: text') (.binary place (some op.op) left right)
      (segments ++ .mark op.mark :: segments') := by
  have hchar : op.op.char = op.mark.char := by cases op <;> rfl
  rw [hchar]
  exact hl.join (.add · op) (fun _ _ _ ↦ by rw [Phrase.tokens]) (fun _ _ _ ↦ by rw [Phrase.tree])
    hr place

theorem multiply (op : ProductOp) (hl : Spells .product text left segments)
    (hr : Spells .signed text' right segments') (place : Location) :
    Spells .product (text ++ op.op.char :: text') (.binary place (some op.op) left right)
      (segments ++ .mark op.mark :: segments') := by
  have hchar : op.op.char = op.mark.char := by cases op <;> rfl
  rw [hchar]
  exact hl.join (.multiply · op) (fun _ _ _ ↦ by rw [Phrase.tokens])
    (fun _ _ _ ↦ by rw [Phrase.tree]) hr place

end Spells

namespace Expr

/-- The text of a tree at a rank is that of a phrase of this rank for the tree. -/
def SpelledAt (rank : Rank) (e : Expr) : Prop :=
  ∃ segments, Spells rank (e.sourceAt rank) e segments

namespace SpelledAt

variable {e : Expr}

theorem sum_of_product (hne : e.rank ≠ .sum) (h : e.SpelledAt .product) : e.SpelledAt .sum := by
  obtain ⟨segments, h⟩ := h
  rw [SpelledAt, sourceAt_sum_of_ne hne]
  exact ⟨segments, h.embed .term (fun _ ↦ rfl) fun _ ↦ rfl⟩

theorem product_of_signed (hne : e.rank ≠ .product) (h : e.SpelledAt .signed) :
    e.SpelledAt .product := by
  obtain ⟨segments, h⟩ := h
  rw [SpelledAt, sourceAt_product_of_ne hne]
  exact ⟨segments, h.embed .factor (fun _ ↦ rfl) fun _ ↦ rfl⟩

theorem signed_of_operand (hne : e.rank ≠ .signed) (h : e.SpelledAt .operand) :
    e.SpelledAt .signed := by
  obtain ⟨segments, h⟩ := h
  rw [SpelledAt, sourceAt_signed_of_ne hne]
  exact ⟨segments, h.embed .unsigned (fun _ ↦ rfl) fun _ ↦ rfl⟩

theorem operand_of_sum (hne : e.rank ≠ .operand) (h : e.SpelledAt .sum) :
    e.SpelledAt .operand := by
  obtain ⟨segments, h⟩ := h
  rw [SpelledAt, sourceAt_operand_of_ne hne]
  exact ⟨_, h.group⟩

/-- From its own rank a tree is carried once around the four ranks. -/
theorem of_rank {own : Rank} (h : e.SpelledAt own) (hown : e.rank = own) (rank : Rank) :
    e.SpelledAt rank := by
  subst hown
  -- Each rank is reached from the next tighter one, and the tightest from the loosest by
  -- parentheses; the step into the own rank is the only one that is not needed.
  have hproduct : e.SpelledAt .signed → e.SpelledAt .product := fun hs ↦ by
    by_cases hrank : e.rank = .product
    · exact hrank ▸ h
    · exact product_of_signed hrank hs
  have hsum : e.SpelledAt .product → e.SpelledAt .sum := fun hp ↦ by
    by_cases hrank : e.rank = .sum
    · exact hrank ▸ h
    · exact sum_of_product hrank hp
  have hoperand : e.SpelledAt .sum → e.SpelledAt .operand := fun hs ↦ by
    by_cases hrank : e.rank = .operand
    · exact hrank ▸ h
    · exact operand_of_sum hrank hs
  have hsigned : e.SpelledAt .operand → e.SpelledAt .signed := fun ho ↦ by
    by_cases hrank : e.rank = .signed
    · exact hrank ▸ h
    · exact signed_of_operand hrank ho
  generalize e.rank = own at h
  cases own <;> cases rank <;> tauto

end SpelledAt

theorem spelledAt {e : Expr} (he : e.Writable) (rank : Rank) : e.SpelledAt rank := by
  -- A node needs its parts at other ranks than its own, so the induction is for all of them.
  induction e generalizing rank with
  | literal place value =>
      obtain ⟨n, rfl, hn⟩ := he
      have hown : (literal place (some (n : Int))).SpelledAt .operand := by
        rw [SpelledAt, sourceAt_operand_literal]
        exact ⟨_, Spells.number hn place⟩
      exact hown.of_rank rfl rank
  | negation place operand ih =>
      obtain ⟨segments, h⟩ := ih he .operand
      have hown : (negation place operand).SpelledAt .signed := by
        rw [SpelledAt, sourceAt_signed_negation]
        exact ⟨_, h.minus place⟩
      exact hown.of_rank rfl rank
  | binary place op left right ihl ihr =>
      obtain ⟨hop, hl, hr⟩ := he
      obtain ⟨op, rfl⟩ := Option.isSome_iff_exists.mp hop
      have hsum : ∀ o : SumOp, (binary place (some o.op) left right).SpelledAt .sum := by
        intro o
        obtain ⟨_, hleft⟩ := ihl hl .sum
        obtain ⟨_, hright⟩ := ihr hr .product
        rw [SpelledAt, sourceAt_sum_binary]
        exact ⟨_, hleft.add o hright place⟩
      have hproduct : ∀ o : ProductOp,
          (binary place (some o.op) left right).SpelledAt .product := by
        intro o
        obtain ⟨_, hleft⟩ := ihl hl .product
        obtain ⟨_, hright⟩ := ihr hr .signed
        rw [SpelledAt, sourceAt_product_binary]
        exact ⟨_, hleft.multiply o hright place⟩
      cases op with
      | add => exact (hsum .plus).of_rank rfl rank
      | sub => exact (hsum .minus).of_rank rfl rank
      | mul => exact (hproduct .times).of_rank rfl rank
      | div => exact (hproduct .divide).of_rank rfl rank
  | blank place => exact he.elim
  | missing => exact he.elim

end Expr

namespace Compilation

/-- Every tree that can be written is read back from its text, up to the places of its nodes. -/
theorem parse_source_alike (name : String) {e : Expr} (he : e.Writable) :
    ∃ tree, (parse name (String.ofList (e.sourceAt .sum))).result = .ok tree ∧ tree.Alike e := by
  obtain ⟨segments, h⟩ := Expr.spelledAt he .sum
  obtain ⟨p, hp, htree⟩ := h.phrase name 0
  have hsegments : IsSegmentation (String.ofList (e.sourceAt .sum)).toList segments := by
    rw [String.toList_ofList]
    exact h.segmentation
  have htokens := Stream.tokens_ofText_of_sound name hsegments h.sound
  refine ⟨p.tree, ?_, htree⟩
  rw [result_parse_of_tokens htokens, ofTokens, result_ofStream, ← hp, p.read_tokens rfl]
  rfl

/-- The tree of `-(1-2)*3-(4-5)`, and one with a sign behind a division. -/
theorem parse_source_alike_nested :
    let lit := fun n : Int ↦ Expr.literal default (some n)
    let bin := fun op l r ↦ Expr.binary default (some op) l r
    let first := bin .sub (bin .mul (.negation default (bin .sub (lit 1) (lit 2))) (lit 3))
      (bin .sub (lit 4) (lit 5))
    let second := bin .sub (bin .sub (lit 1) (lit 2))
      (bin .div (lit 3) (.negation default (.negation default (lit 4))))
    (first.Writable ∧ String.ofList (first.sourceAt .sum) = "-(1-2)*3-(4-5)" ∧
      ∃ tree, (parse "<input>" "-(1-2)*3-(4-5)").result = .ok tree ∧ tree.Alike first) ∧
    (second.Writable ∧ String.ofList (second.sourceAt .sum) = "1-2-3/-(-4)" ∧
      ∃ tree, (parse "<input>" "1-2-3/-(-4)").result = .ok tree ∧ tree.Alike second) := by
  intro lit bin first second
  have hlit : ∀ n : Nat, n ≤ 5 → (lit n).Writable := fun n hn ↦ ⟨n, rfl, by omega⟩
  have hfirst : first.Writable :=
    ⟨rfl, ⟨rfl, ⟨rfl, hlit 1 (by decide), hlit 2 (by decide)⟩, hlit 3 (by decide)⟩,
      ⟨rfl, hlit 4 (by decide), hlit 5 (by decide)⟩⟩
  have hsecond : second.Writable :=
    ⟨rfl, ⟨rfl, hlit 1 (by decide), hlit 2 (by decide)⟩,
      ⟨rfl, hlit 3 (by decide), hlit 4 (by decide)⟩⟩
  have htext : String.ofList (first.sourceAt .sum) = "-(1-2)*3-(4-5)" := by decide
  have htext' : String.ofList (second.sourceAt .sum) = "1-2-3/-(-4)" := by decide
  refine ⟨⟨hfirst, htext, ?_⟩, hsecond, htext', ?_⟩
  · exact htext ▸ parse_source_alike "<input>" hfirst
  · exact htext' ▸ parse_source_alike "<input>" hsecond

end Compilation

end ArithAsm
