import ArithAsm.Proofs.Source.Tokenization
import Mathlib.Logic.Relation

/-!
# Spacing

The layout of a text may be edited by blanks and leading zeros.  As long as no run of digits is
joined to another one or split, the words of the text stay the same.
-/

namespace ArithAsm

/-- One edit of the layout: a blank between characters that are not both digits, or a zero in
front of a run of digits. -/
inductive Respaces : List Char → List Char → Prop where
  | blank (front back : List Char) (c : Char) (hc : c = ' ' ∨ c = '\t')
      (hapart : front.getLast?.any Char.isDigit = true → back.head?.any Char.isDigit = false) :
      Respaces (front ++ back) (front ++ c :: back)
  | zero (front back : List Char) (hfront : front.getLast?.any Char.isDigit = false)
      (hback : back.head?.any Char.isDigit = true) :
      Respaces (front ++ back) (front ++ '0' :: back)

theorem runValue_zero_cons (run : List Char) : runValue ('0' :: run) = runValue run := by
  rw [← digitsValue_eq_runValue, ← digitsValue_eq_runValue]
  rfl

namespace Segment

def words (segments : List Segment) : List Word :=
  segments.filterMap word?

theorem words_append (first second : List Segment) :
    words (first ++ second) = words first ++ words second :=
  List.filterMap_append

theorem words_cons_of_words {segments segments' : List Segment}
    (h : words segments = words segments') (s : Segment) :
    words (s :: segments) = words (s :: segments') := by
  have hsingle : ∀ rest, words (s :: rest) = words [s] ++ words rest := words_append [s]
  rw [hsingle segments, hsingle segments', h]

theorem words_tokensAfter (source : String) (segments : List Segment) (start : Nat) :
    (tokensAfter source start segments).map Token.word = words segments := by
  induction segments generalizing start with
  | nil => rfl
  | cons s rest ih =>
      have hfirst : (s.tokenAfter? source start).toList.map Token.word = words [s] := by
        rw [tokenAfter?, words, List.filterMap_cons]
        cases s.word? <;> rfl
      rw [tokensAfter, List.map_append, ih, hfirst, ← words_append, List.singleton_append]

/-- A character joins a run only if it is a digit. -/
theorem cons_of_apart {c : Char} {segments : List Segment}
    (h : c.isDigit = true → ∀ run, segments.head? ≠ some (.digits run)) :
    cons c segments = ofChar c :: segments := by
  cases hc : c.isDigit with
  | false => exact cons_of_not_isDigit hc segments
  | true =>
      cases segments with
      | nil => rfl
      | cons s rest =>
          cases s with
          | digits run => exact absurd rfl (h hc run)
          | _ => rfl

theorem exists_digits_of_cons {c : Char} (hc : c.isDigit = true) (segments : List Segment) :
    ∃ run rest, cons c segments = .digits run :: rest := by
  by_cases hrun : ∃ run, segments.head? = some (.digits run)
  · obtain ⟨run, hrun⟩ := hrun
    obtain ⟨rest, rfl⟩ := List.head?_eq_some_iff.mp hrun
    exact ⟨c :: run, rest, cons_digits hc run rest⟩
  · refine ⟨[c], segments, ?_⟩
    rw [cons_of_apart fun _ run hfirst ↦ hrun ⟨run, hfirst⟩, ofChar_of_isDigit hc]

/-- The segments of a text start with a run just if the text starts with a digit. -/
theorem head?_ofText_ne_digits {text : List Char} (h : text.head?.any Char.isDigit = false)
    (run : List Char) : (ofText text).head? ≠ some (.digits run) := by
  cases text with
  | nil => exact nofun
  | cons c text =>
      have hc : c.isDigit = false := h
      rw [ofText_cons, cons_of_not_isDigit hc, List.head?_cons]
      intro hfirst
      have hdigit := (ofChar_eq_digits (Option.some.inj hfirst)).1
      rw [hc] at hdigit
      cases hdigit

/-- What is put in front of one segment ends in one segment, whatever comes behind. -/
theorem exists_first_of_foldr_cons (front : List Char) (s : Segment) {rest rest' : List Segment}
    (h : words rest = words rest') :
    ∃ first later later', front.foldr cons (s :: rest) = first :: later ∧
      front.foldr cons (s :: rest') = first :: later' ∧ words later = words later' := by
  induction front with
  | nil => exact ⟨s, rest, rest', rfl, rfl, h⟩
  | cons c front ih =>
      obtain ⟨first, later, later', heq, heq', hwords⟩ := ih
      rw [List.foldr_cons, List.foldr_cons, heq, heq']
      by_cases hjoin : c.isDigit = true ∧ ∃ run, first = .digits run
      · obtain ⟨hc, run, rfl⟩ := hjoin
        exact ⟨_, later, later', cons_digits hc run later, cons_digits hc run later', hwords⟩
      · have hapart : ∀ behind, c.isDigit = true →
            ∀ run, (first :: behind).head? ≠ some (.digits run) := by
          intro behind hc run hfirst
          exact hjoin ⟨hc, run, Option.some.inj hfirst⟩
        exact ⟨ofChar c, _, _, cons_of_apart (hapart later), cons_of_apart (hapart later'),
          words_cons_of_words hwords first⟩

/-- Characters in front of segments with the same words give the same words if the last of them
joins a run on neither side. -/
theorem words_foldr_cons {front : List Char} {segments segments' : List Segment}
    (h : words segments = words segments')
    (hlast : ∀ c, front.getLast? = some c →
      cons c segments = ofChar c :: segments ∧ cons c segments' = ofChar c :: segments') :
    words (front.foldr cons segments) = words (front.foldr cons segments') := by
  rcases List.eq_nil_or_concat front with rfl | ⟨before, c, rfl⟩
  · exact h
  · obtain ⟨hc, hc'⟩ := hlast c (by simp)
    obtain ⟨first, rest, rest', heq, heq', hwords⟩ :=
      exists_first_of_foldr_cons before (ofChar c) h
    rw [List.concat_eq_append, List.foldr_append, List.foldr_append]
    change words (before.foldr cons (cons c segments)) = words (before.foldr cons (cons c segments'))
    rw [hc, hc', heq, heq']
    exact words_cons_of_words hwords first

theorem ofText_append (front back : List Char) :
    ofText (front ++ back) = front.foldr cons (ofText back) := by
  rw [ofText, List.foldr_append]
  rfl

theorem words_of_respaces {text text' : List Char} (h : Respaces text text') :
    words (ofText text) = words (ofText text') := by
  cases h with
  | blank front back c hc hapart =>
      have hsegment := ofChar_of_wellFormed_blank (c := c) hc
      have hblank : ofText (c :: back) = .blank c :: ofText back := by
        rw [ofText_cons, cons_of_not_isDigit hsegment.1, hsegment.2]
      rw [ofText_append, ofText_append, hblank]
      refine words_foldr_cons rfl fun d hd ↦ ⟨?_, cons_of_apart fun _ _ ↦ nofun⟩
      rw [hd] at hapart
      exact cons_of_apart fun hdigit ↦ head?_ofText_ne_digits (hapart hdigit)
  | zero front back hfront hback =>
      obtain ⟨c, rest, rfl⟩ : ∃ c rest, back = c :: rest := by
        cases back with
        | nil => cases hback
        | cons c rest => exact ⟨c, rest, rfl⟩
      have hc : c.isDigit = true := hback
      obtain ⟨run, later, hrun⟩ := exists_digits_of_cons hc (ofText rest)
      have hzero : '0'.isDigit = true := rfl
      rw [ofText_append, ofText_append, ofText_cons, ofText_cons, ofText_cons, hrun,
        cons_digits hzero]
      have hwords : words (.digits run :: later) = words (.digits ('0' :: run) :: later) := by
        rw [words, words, List.filterMap_cons, List.filterMap_cons, word?, word?,
          runValue_zero_cons]
      refine words_foldr_cons hwords fun d hd ↦ ?_
      rw [hd] at hfront
      have hd : d.isDigit = false := hfront
      exact ⟨cons_of_not_isDigit hd _, cons_of_not_isDigit hd _⟩

end Segment

/-- Any number of edits, and of edits taken back, leave the words as they are. -/
theorem words_of_eqvGen_respaces {text text' : List Char}
    (h : Relation.EqvGen Respaces text text') :
    Segment.words (Segment.ofText text) = Segment.words (Segment.ofText text') := by
  induction h with
  | rel text text' hedit => exact Segment.words_of_respaces hedit
  | refl text => rfl
  | symm text text' _ ih => exact ih.symm
  | trans text middle text' _ _ ihf ihs => exact ihf.trans ihs

theorem Stream.words_of_tokens {source text : String} {found : List Token}
    (h : (ofText source text).tokens = .ok found) :
    found.map Token.word = Segment.words (Segment.ofText text.toList) ++ [.finish none] := by
  obtain ⟨segments, hsegments, -, rfl⟩ := exists_sound_of_tokens h
  rw [List.map_append, Segment.words_tokensAfter, hsegments.eq_ofText]
  rfl

end ArithAsm
