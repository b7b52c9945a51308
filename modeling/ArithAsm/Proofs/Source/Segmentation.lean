import ArithAsm.Source.Segment
import Mathlib.Data.List.Chain

/-!
# Segmentations

What it means for segments to be those of a text, said without the function that finds them:
put end to end they give the text, each has the form of its kind, and no run of digits could
be longer.  Every text has one segmentation and no other.
-/

namespace ArithAsm

namespace Segment

def WellFormed : Segment → Prop
  | blank c => c = ' ' ∨ c = '\t'
  | mark _ => True
  | digits run => run ≠ [] ∧ ∀ c ∈ run, c.isDigit = true
  | stray c => c.isDigit = false ∧ c ≠ ' ' ∧ c ≠ '\t' ∧ ∀ m : Mark, m.char ≠ c

/-- Two segments are not pieces of one run. -/
def Apart : Segment → Segment → Prop
  | digits _, digits _ => False
  | _, _ => True

theorem ofChar_of_isDigit {c : Char} (h : c.isDigit = true) : ofChar c = .digits [c] := by
  rw [ofChar, if_pos h]

theorem cons_of_not_isDigit {c : Char} (h : c.isDigit = false) (segments : List Segment) :
    cons c segments = ofChar c :: segments := by
  cases segments with
  | nil => rfl
  | cons s rest => cases s <;> simp [cons, h]

theorem cons_digits {c : Char} (h : c.isDigit = true) (run : List Char) (rest : List Segment) :
    cons c (.digits run :: rest) = .digits (c :: run) :: rest := by
  rw [cons, if_pos h]

theorem isBlank_iff (c : Char) : isBlank c = true ↔ c = ' ' ∨ c = '\t' := by
  simp [isBlank]

theorem wellFormed_ofChar (c : Char) : (ofChar c).WellFormed := by
  by_cases hdigit : c.isDigit = true
  · rw [ofChar_of_isDigit hdigit]
    exact ⟨List.cons_ne_nil c [], List.forall_mem_singleton.mpr hdigit⟩
  · rw [ofChar, if_neg hdigit]
    by_cases hblank : isBlank c = true
    · rw [if_pos hblank]
      exact (isBlank_iff c).mp hblank
    · rw [if_neg hblank]
      have hnot := not_or.mp (mt (isBlank_iff c).mpr hblank)
      cases hmark : Mark.ofChar? c with
      | some m => exact trivial
      | none =>
          refine ⟨Bool.not_eq_true _ ▸ hdigit, hnot.1, hnot.2, ?_⟩
          intro m hm
          rw [← hm, Mark.ofChar?_char] at hmark
          cases hmark

theorem ofChar_eq_digits {c : Char} {run : List Char} (h : ofChar c = .digits run) :
    c.isDigit = true ∧ run = [c] := by
  by_cases hdigit : c.isDigit = true
  · rw [ofChar_of_isDigit hdigit] at h
    exact ⟨hdigit, (Segment.digits.inj h).symm⟩
  · rw [ofChar, if_neg hdigit] at h
    split at h
    · cases h
    · split at h <;> cases h

/-- A segment of one character is found from that character. -/
theorem ofChar_of_wellFormed_blank {c : Char} (h : (blank c).WellFormed) :
    c.isDigit = false ∧ ofChar c = .blank c := by
  rcases h with rfl | rfl <;> exact ⟨rfl, rfl⟩

theorem ofChar_char (m : Mark) : m.char.isDigit = false ∧ ofChar m.char = .mark m := by
  cases m <;> exact ⟨rfl, rfl⟩

theorem ofChar_of_wellFormed_stray {c : Char} (h : (stray c).WellFormed) :
    c.isDigit = false ∧ ofChar c = .stray c := by
  obtain ⟨hdigit, hspace, htab, hmark⟩ := h
  have hblank : ¬ isBlank c = true := by
    rw [isBlank_iff]
    exact not_or.mpr ⟨hspace, htab⟩
  have hnone : Mark.ofChar? c = none := by
    cases hfound : Mark.ofChar? c with
    | none => rfl
    | some m => exact absurd (Mark.char_of_ofChar? hfound) (hmark m)
  refine ⟨hdigit, ?_⟩
  rw [ofChar, if_neg (Bool.eq_false_iff.mp hdigit), if_neg hblank, hnone]

/-- Digits before segments that start with no run make up a run of their own. -/
theorem foldr_cons_digits {run : List Char} (hne : run ≠ []) (hrun : ∀ c ∈ run, c.isDigit = true)
    {segments : List Segment} (hfirst : ∀ later, segments.head? ≠ some (.digits later)) :
    run.foldr cons segments = .digits run :: segments := by
  induction run with
  | nil => exact absurd rfl hne
  | cons c rest ih =>
      obtain ⟨hc, hrest⟩ := List.forall_mem_cons.mp hrun
      rw [List.foldr_cons]
      cases rest with
      | nil =>
          rw [List.foldr_nil]
          cases segments with
          | nil => exact congrArg (· :: []) (ofChar_of_isDigit hc)
          | cons s segments =>
              cases s with
              | digits later => exact absurd rfl (hfirst later)
              | _ => exact congrArg (· :: _) (ofChar_of_isDigit hc)
      | cons d rest =>
          rw [ih (List.cons_ne_nil d rest) hrest, cons_digits hc]

end Segment

/-- The segments are those of the text. -/
structure IsSegmentation (text : List Char) (segments : List Segment) : Prop where
  flatMap_text : segments.flatMap Segment.text = text
  wellFormed : ∀ s ∈ segments, s.WellFormed
  maximal : segments.IsChain Segment.Apart

namespace IsSegmentation

theorem nil : IsSegmentation [] [] := by
  constructor
  · rfl
  · exact List.forall_mem_nil _
  · exact List.isChain_nil

theorem cons (c : Char) {text : List Char} {segments : List Segment}
    (h : IsSegmentation text segments) : IsSegmentation (c :: text) (Segment.cons c segments) := by
  have htext : (Segment.cons c segments).flatMap Segment.text = c :: text := by
    rw [Segment.flatMap_text_cons, h.flatMap_text]
  by_cases hjoin : c.isDigit = true ∧ ∃ run rest, segments = .digits run :: rest
  · obtain ⟨hc, run, rest, rfl⟩ := hjoin
    rw [Segment.cons_digits hc] at htext ⊢
    obtain ⟨⟨-, hrun⟩, hrest⟩ := List.forall_mem_cons.mp h.wellFormed
    refine ⟨htext, List.forall_mem_cons.mpr ⟨?_, hrest⟩, ?_⟩
    · exact ⟨List.cons_ne_nil c run, List.forall_mem_cons.mpr ⟨hc, hrun⟩⟩
    · have hchain := h.maximal
      cases rest with
      | nil => exact List.isChain_singleton _
      | cons s rest =>
          rw [List.isChain_cons_cons] at hchain ⊢
          exact ⟨by cases s <;> exact hchain.1, hchain.2⟩
  · have hcons : Segment.cons c segments = Segment.ofChar c :: segments := by
      cases segments with
      | nil => rfl
      | cons s rest =>
          cases s with
          | digits run =>
              have hc : ¬ c.isDigit = true := fun hc ↦ hjoin ⟨hc, run, rest, rfl⟩
              rw [Segment.cons, if_neg hc]
          | _ => rfl
    rw [hcons] at htext ⊢
    refine ⟨htext, List.forall_mem_cons.mpr ⟨Segment.wellFormed_ofChar c, h.wellFormed⟩, ?_⟩
    cases segments with
    | nil => exact List.isChain_singleton _
    | cons s rest =>
        refine List.isChain_cons_cons.mpr ⟨?_, h.maximal⟩
        cases hfirst : Segment.ofChar c with
        | digits run =>
            cases s with
            | digits later =>
                exact absurd ⟨(Segment.ofChar_eq_digits hfirst).1, later, rest, rfl⟩ hjoin
            | _ => exact trivial
        | _ => cases s <;> exact trivial

theorem ofText (text : List Char) : IsSegmentation text (Segment.ofText text) := by
  induction text with
  | nil => exact nil
  | cons c text ih => exact ih.cons c

theorem ofText_flatMap_text {segments : List Segment} (hform : ∀ s ∈ segments, s.WellFormed)
    (hchain : segments.IsChain Segment.Apart) :
    Segment.ofText (segments.flatMap Segment.text) = segments := by
  induction segments with
  | nil => rfl
  | cons s rest ih =>
      obtain ⟨hs, hrest⟩ := List.forall_mem_cons.mp hform
      have hih := ih hrest hchain.tail
      rw [List.flatMap_cons, Segment.ofText, List.foldr_append]
      change List.foldr Segment.cons (Segment.ofText (rest.flatMap Segment.text)) s.text = _
      rw [hih]
      cases s with
      | blank c =>
          obtain ⟨hdigit, hc⟩ := Segment.ofChar_of_wellFormed_blank hs
          exact (Segment.cons_of_not_isDigit hdigit rest).trans (congrArg (· :: rest) hc)
      | mark m =>
          obtain ⟨hdigit, hc⟩ := Segment.ofChar_char m
          exact (Segment.cons_of_not_isDigit hdigit rest).trans (congrArg (· :: rest) hc)
      | stray c =>
          obtain ⟨hdigit, hc⟩ := Segment.ofChar_of_wellFormed_stray hs
          exact (Segment.cons_of_not_isDigit hdigit rest).trans (congrArg (· :: rest) hc)
      | digits run =>
          have hfirst : ∀ later, rest.head? ≠ some (.digits later) := by
            intro later hlater
            exact (List.isChain_cons.mp hchain).1 _ hlater
          exact Segment.foldr_cons_digits hs.1 hs.2 hfirst

/-- Nothing else is a segmentation of the text. -/
theorem eq_ofText {text : List Char} {segments : List Segment} (h : IsSegmentation text segments) :
    segments = Segment.ofText text := by
  rw [← h.flatMap_text]
  exact (ofText_flatMap_text h.wellFormed h.maximal).symm

/-- A mark keeps the segments before it apart from those behind it. -/
theorem append_mark {first second : List Char} {before after : List Segment}
    (hf : IsSegmentation first before) (hs : IsSegmentation second after) (m : Mark) :
    IsSegmentation (first ++ m.char :: second) (before ++ .mark m :: after) := by
  constructor
  · rw [List.flatMap_append, List.flatMap_cons, hf.flatMap_text, hs.flatMap_text]
    rfl
  · refine List.forall_mem_append.mpr ⟨hf.wellFormed, ?_⟩
    exact List.forall_mem_cons.mpr ⟨trivial, hs.wellFormed⟩
  · refine List.isChain_append.mpr ⟨hf.maximal, ?_, ?_⟩
    · refine List.isChain_cons.mpr ⟨fun s hs ↦ ?_, hs.maximal⟩
      cases s <;> exact trivial
    · intro last hlast next hnext
      obtain rfl : Segment.mark m = next := Option.some.inj hnext
      cases last <;> exact trivial

end IsSegmentation

end ArithAsm
