import ArithAsm.Proofs.Source.Tokenization
import ArithAsm.Proofs.Text.Lines

/-!
# Segments on the first line

A reader meets a segment only if all segments before it are sound.  Sound segments hold no line
ends, so the segment starts on the first line of its text.
-/

namespace ArithAsm

namespace Segment

theorem Sound.ne_stray {s : Segment} (h : s.Sound) (c : Char) : s ≠ .stray c := by
  rintro rfl
  exact h

theorem isSingle_text {s : Segment} (h : s.WellFormed) (hs : ∀ c, s ≠ .stray c) :
    Text.IsSingle s.text := by
  cases s with
  | blank c => rcases h with rfl | rfl <;> decide
  | mark m => cases m <;> decide
  | digits run => exact Text.isSingle_iff.mpr fun c hc ↦ isLineEnd_of_isDigit (h.2 c hc)
  | stray c => exact absurd rfl (hs c)

theorem isSingle_flatMap_text {segments : List Segment} (hform : ∀ s ∈ segments, s.WellFormed)
    (hsound : ∀ s ∈ segments, s.Sound) : Text.IsSingle (segments.flatMap text) := by
  refine Text.isSingle_iff.mpr fun c hc ↦ ?_
  obtain ⟨s, hs, hc⟩ := List.mem_flatMap.mp hc
  exact Text.isSingle_iff.mp (isSingle_text (hform s hs) (hsound s hs).ne_stray) c hc

end Segment

/-- A segment of a text, with the segments before it, which are sound. -/
def Reached (text : List Char) (before : List Segment) (s : Segment) : Prop :=
  ∃ after, IsSegmentation text (before ++ s :: after) ∧ ∀ earlier ∈ before, earlier.Sound

namespace Reached

variable {text : List Char} {before : List Segment} {s : Segment}

theorem wellFormed (h : Reached text before s) : s.WellFormed := by
  obtain ⟨after, hsegments, -⟩ := h
  exact hsegments.wellFormed s (List.mem_append_right _ List.mem_cons_self)

theorem isSingle_before (h : Reached text before s) :
    Text.IsSingle (before.flatMap Segment.text) := by
  obtain ⟨after, hsegments, hsound⟩ := h
  refine Segment.isSingle_flatMap_text (fun earlier hearlier ↦ ?_) hsound
  exact hsegments.wellFormed earlier (List.mem_append_left _ hearlier)

theorem exists_eq_append (h : Reached text before s) :
    ∃ rest, text = before.flatMap Segment.text ++ (s.text ++ rest) := by
  obtain ⟨after, hsegments, -⟩ := h
  refine ⟨after.flatMap Segment.text, ?_⟩
  rw [← hsegments.flatMap_text, List.flatMap_append, List.flatMap_cons]

theorem width_add_length_le (h : Reached text before s) :
    Segment.width before + s.text.length ≤ text.length := by
  obtain ⟨rest, rfl⟩ := h.exists_eq_append
  rw [List.length_append, List.length_append, Segment.width]
  omega

theorem ne_nil (h : Reached text before s) : text ≠ [] := by
  have hlength := h.width_add_length_le
  have hpos := h.wellFormed.length_pos
  exact List.ne_nil_of_length_pos (by omega)

/-- The segment starts behind the segments before it. -/
theorem text_isPrefix_drop (h : Reached text before s) :
    s.text <+: text.drop (Segment.width before) := by
  obtain ⟨rest, rfl⟩ := h.exists_eq_append
  rw [Segment.width, List.drop_left]
  exact List.prefix_append _ _

/-! ## Lines

A line is what comes before the first character of some kind.  These are different kinds for
different readers of the text, but all of them are line ends. -/

section Lines

variable {p : Char → Bool}

theorem forall_mem_before (h : Reached text before s)
    (hp : ∀ c, Text.isLineEnd c = false → p c = true) :
    ∀ c ∈ before.flatMap Segment.text, p c = true :=
  fun c hc ↦ hp c (Text.isSingle_iff.mp h.isSingle_before c hc)

theorem width_le_length_line (h : Reached text before s)
    (hp : ∀ c, Text.isLineEnd c = false → p c = true) :
    Segment.width before ≤ (text.takeWhile p).length := by
  have hbefore := h.forall_mem_before hp
  obtain ⟨rest, rfl⟩ := h.exists_eq_append
  rw [List.takeWhile_append_of_pos hbefore, List.length_append]
  exact Nat.le_add_right _ _

/-- Without a line end in it the segment ends on the line too. -/
theorem width_add_length_le_line (h : Reached text before s)
    (hp : ∀ c, Text.isLineEnd c = false → p c = true) (hs : ∀ c ∈ s.text, p c = true) :
    Segment.width before + s.text.length ≤ (text.takeWhile p).length := by
  have hbefore := h.forall_mem_before hp
  obtain ⟨rest, rfl⟩ := h.exists_eq_append
  rw [List.takeWhile_append_of_pos hbefore, List.takeWhile_append_of_pos hs, List.length_append,
    List.length_append, Segment.width]
  omega

/-- A line end is not on the line any more. -/
theorem line_eq_before (h : Reached text before s)
    (hp : ∀ c, Text.isLineEnd c = false → p c = true) {c : Char} (hs : s.text = [c])
    (hc : p c = false) : text.takeWhile p = before.flatMap Segment.text := by
  have hbefore := h.forall_mem_before hp
  obtain ⟨rest, rfl⟩ := h.exists_eq_append
  rw [List.takeWhile_append_of_pos hbefore, hs, List.singleton_append, List.takeWhile_cons, hc]
  exact List.append_nil _

end Lines

end Reached

/-! ## Arrivals -/

theorem exists_reached_of_mem_tokensAfter {source : String} {text : List Char}
    {before rest : List Segment} (hsegments : IsSegmentation text (before ++ rest))
    (hsound : ∀ s ∈ before, s.Sound) {token : Token}
    (h : token ∈ Segment.tokensAfter source 0 before) :
    ∃ earlier s, Reached text earlier s ∧ s.Sound ∧
      s.tokenAfter? source (Segment.width earlier) = some token := by
  obtain ⟨earlier, s, later, rfl, hs⟩ := Segment.exists_of_mem_tokensAfter h
  rw [Nat.zero_add] at hs
  rw [List.append_assoc, List.cons_append] at hsegments
  obtain ⟨hearlier, hlater⟩ := List.forall_mem_append.mp hsound
  exact ⟨earlier, s, ⟨later ++ rest, hsegments, hearlier⟩, hlater s List.mem_cons_self, hs⟩

namespace Stream

variable {source text : String}

theorem mem_of_token_mem_ofTokens {given : List Token} {token : Token}
    (h : .token token ∈ ofTokens given) : token ∈ given := by
  obtain ⟨found, hfound, heq⟩ := List.mem_map.mp h
  obtain rfl := Arrival.token.inj heq
  exact hfound

theorem fault_notMem_ofTokens (fault : LexFault) (given : List Token) :
    .fault fault ∉ ofTokens given := by
  intro h
  obtain ⟨found, -, heq⟩ := List.mem_map.mp h
  cases heq

/-- A token of a text is that of a sound segment, or the end of a text without line ends. -/
theorem reached_of_token_mem_ofText {token : Token} (h : .token token ∈ ofText source text) :
    (∃ before s, Reached text.toList before s ∧ s.Sound ∧
      s.tokenAfter? source (Segment.width before) = some token) ∨
    token = ⟨.finish none, Segment.placeAfter source text.length⟩ ∧
      Text.IsSingle text.toList := by
  rcases sound_or_firstUnsound text.toList with ⟨segments, hsegments, hsound⟩ | ⟨early, bad, hbad⟩
  · rw [ofText_of_sound source hsegments hsound, List.mem_append] at h
    rcases h with hgiven | hlast
    · left
      have hall : IsSegmentation text.toList (segments ++ []) := by rwa [List.append_nil]
      exact exists_reached_of_mem_tokensAfter hall hsound (mem_of_token_mem_ofTokens hgiven)
    · right
      constructor
      · simpa using hlast
      · rw [← hsegments.flatMap_text]
        exact Segment.isSingle_flatMap_text hsegments.wellFormed hsound
  · left
    obtain ⟨fault, hstream, -⟩ := ofText_of_firstUnsound source hbad
    obtain ⟨after, hsegments, hsound, -⟩ := hbad
    rw [hstream, List.mem_append] at h
    rcases h with hgiven | hlast
    · exact exists_reached_of_mem_tokensAfter hsegments hsound (mem_of_token_mem_ofTokens hgiven)
    · cases List.mem_singleton.mp hlast

/-- A fault of a text is that of its first unsound segment. -/
theorem reached_of_fault_mem_ofText {fault : LexFault} (h : .fault fault ∈ ofText source text) :
    ∃ before bad, Reached text.toList before bad ∧
      bad.FailsWith (Segment.placeAfter source (Segment.width before)) fault.failure := by
  rcases sound_or_firstUnsound text.toList with ⟨segments, hsegments, hsound⟩ | ⟨early, bad, hbad⟩
  · rw [ofText_of_sound source hsegments hsound, List.mem_append] at h
    rcases h with hgiven | hlast
    · exact absurd hgiven (fault_notMem_ofTokens _ _)
    · simp at hlast
  · obtain ⟨first, hstream, hfails⟩ := ofText_of_firstUnsound source hbad
    obtain ⟨after, hsegments, hsound, -⟩ := hbad
    rw [hstream, List.mem_append] at h
    rcases h with hgiven | hlast
    · exact absurd hgiven (fault_notMem_ofTokens _ _)
    · obtain rfl : fault = first := Arrival.fault.inj (List.mem_singleton.mp hlast)
      exact ⟨early, bad, ⟨after, hsegments, hsound⟩, hfails⟩

end Stream

end ArithAsm
