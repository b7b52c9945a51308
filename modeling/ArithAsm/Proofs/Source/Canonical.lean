import ArithAsm.Proofs.Source.Concatenation

/-!
# The text that tokens give back

Every token is written on blanks, where it stands and as it is described.  A run of digits with
leading zeros is then followed by blanks, for the digits of its number are fewer.  Otherwise the
segments of a text come back, so the tokens that were written are the tokens that are read.
-/

namespace ArithAsm

/-! ## Writing -/

/-- The text with the piece in place of what follows the first `start` characters. -/
def Text.overwrite (text : List Char) (start : Nat) (piece : List Char) : List Char :=
  text.take start ++ piece ++ text.drop (start + piece.length)

theorem Text.overwrite_blanks (before piece : List Char) (count : Nat) :
    overwrite (before ++ List.replicate count ' ') before.length piece =
      before ++ piece ++ List.replicate (count - piece.length) ' ' := by
  rw [overwrite, List.take_left, List.drop_length_add_append, List.drop_replicate]

namespace Token

/-- What is written for the token, if it can be described. -/
def spelling (token : Token) : String :=
  token.describe?.getD ""

def write (text : List Char) (token : Token) : List Char :=
  Text.overwrite text token.place.offset.toNat token.spelling.toList

/-- The offset behind the last character that is written. -/
def stop (token : Token) : Int :=
  token.place.offset + token.spelling.length

theorem describe?_number {n : Nat} (h : n ≤ 2 ^ 63 - 1) (place : Location) :
    describe? ⟨.number (some n), place⟩ = some n.repr :=
  describe?_constant place ⟨n, isShort_of_natAbs_lt (by omega)⟩

end Token

/-- The tokens written on blanks, as far as the end. -/
def canonicalText (given : List Token) (finish : Token) : List Char :=
  given.foldl Token.write (List.replicate finish.place.offset.toNat ' ')

/-! ## Written segments -/

namespace Segment

/-- The segments of what is written for a segment, which are as wide as the segment itself. -/
def written : Segment → List Segment
  | blank _ => [blank ' ']
  | digits run =>
      digits (runValue run).repr.toList ::
        List.replicate (run.length - (runValue run).repr.length) (blank ' ')
  | s => [s]

variable {s t last next : Segment} {source : String} {start : Nat}

/-- Leading zeros aside, the digits of a run are those of its number. -/
theorem length_repr_runValue_le {run : List Char} (h : (digits run).WellFormed) :
    (runValue run).repr.length ≤ run.length := by
  rw [← String.length_toList, Nat.toList_repr]
  apply Nat.toDigits_length 10 _ _ h.length_pos
  have hdigits : ∀ d ∈ run.reverse.map fun c ↦ c.toNat - '0'.toNat, d < 10 := by
    intro d hd
    obtain ⟨c, hc, rfl⟩ := List.mem_map.mp hd
    have hrange := Char.isDigit_iff_toNat.mp (h.2 c (List.mem_reverse.mp hc))
    have hzero : '0'.toNat = 48 := rfl
    have hnine : '9'.toNat = 57 := rfl
    omega
  have hbound := Nat.ofDigits_lt_base_pow_length (by decide) hdigits
  rwa [List.length_map, List.length_reverse] at hbound

theorem flatMap_text_replicate_blank (count : Nat) :
    (List.replicate count (blank ' ')).flatMap text = List.replicate count ' ' := by
  induction count with
  | zero => rfl
  | succ count ih => rw [List.replicate_succ, List.flatMap_cons, ih]; rfl

theorem tokensAfter_replicate_blank (count : Nat) :
    tokensAfter source start (List.replicate count (blank ' ')) = [] := by
  induction count generalizing start with
  | zero => rfl
  | succ count ih => exact ih

theorem width_written (h : s.WellFormed) : width s.written = s.text.length := by
  cases s with
  | digits run =>
      have hfew := length_repr_runValue_le h
      rw [written, width_cons, width, flatMap_text_replicate_blank, List.length_replicate, text,
        text, String.length_toList]
      omega
  | _ => rfl

theorem wellFormed_of_mem_written (h : s.WellFormed) : ∀ t ∈ s.written, t.WellFormed := by
  intro t ht
  cases s with
  | blank c => exact List.mem_singleton.mp ht ▸ .inl rfl
  | mark m => exact List.mem_singleton.mp ht ▸ h
  | stray c => exact List.mem_singleton.mp ht ▸ h
  | digits run =>
      rcases List.mem_cons.mp ht with rfl | hblank
      · exact wellFormed_repr _
      · exact List.eq_of_mem_replicate hblank ▸ .inl rfl

theorem sound_of_mem_written (h : s.Sound) : ∀ t ∈ s.written, t.Sound := by
  intro t ht
  cases s with
  | blank c => exact List.mem_singleton.mp ht ▸ trivial
  | mark m => exact List.mem_singleton.mp ht ▸ trivial
  | stray c => exact h.elim
  | digits run =>
      rcases List.mem_cons.mp ht with rfl | hblank
      · exact sound_repr h.2
      · exact List.eq_of_mem_replicate hblank ▸ trivial

theorem tokensAfter_written :
    tokensAfter source start s.written = (s.tokenAfter? source start).toList := by
  cases s with
  | digits run =>
      rw [written, tokensAfter, tokensAfter_replicate_blank, List.append_nil, tokenAfter?, word?,
        runValue_repr]
      rfl
  | _ => exact List.append_nil _

theorem eq_digits_of_mem_written {run : List Char} (h : digits run ∈ s.written) :
    ∃ whole, s = digits whole := by
  cases s with
  | digits whole => exact ⟨whole, rfl⟩
  | _ => cases List.mem_singleton.mp h

theorem isChain_written : s.written.IsChain Apart := by
  cases s with
  | digits run =>
      refine List.isChain_cons.mpr ⟨?_, List.isChain_replicate_of_rel _ trivial⟩
      intro next hnext
      exact List.eq_of_mem_replicate (List.mem_of_mem_head? hnext) ▸ trivial
  | _ => exact List.isChain_singleton _

theorem apart_of_mem_written (h : Apart s t) (hlast : last ∈ s.written)
    (hnext : next ∈ t.written) : Apart last next := by
  by_contra hjoin
  -- Runs are written for runs only, and those were apart.
  obtain ⟨⟨run, rfl⟩, later, rfl⟩ := digits_of_not_apart hjoin
  obtain ⟨first, rfl⟩ := eq_digits_of_mem_written hlast
  obtain ⟨second, rfl⟩ := eq_digits_of_mem_written hnext
  exact h

/-! ## The whole text -/

variable {segments : List Segment}

theorem isSegmentation_flatMap_written (hform : ∀ s ∈ segments, s.WellFormed)
    (hchain : segments.IsChain Apart) :
    IsSegmentation ((segments.flatMap written).flatMap text) (segments.flatMap written) := by
  constructor
  · rfl
  · intro t ht
    obtain ⟨s, hs, ht⟩ := List.mem_flatMap.mp ht
    exact wellFormed_of_mem_written (hform s hs) t ht
  · have hne : [] ∉ segments.map written := by
      intro hmem
      obtain ⟨s, -, hs⟩ := List.mem_map.mp hmem
      cases s <;> cases hs
    rw [List.flatMap_def, List.isChain_flatten hne, List.isChain_map]
    constructor
    · exact List.forall_mem_map.mpr fun s _ ↦ isChain_written
    · apply hchain.imp
      intro s t hapart last hlast next hnext
      exact apart_of_mem_written hapart (List.mem_of_getLast? hlast) (List.mem_of_mem_head? hnext)

theorem tokensAfter_flatMap_written (hform : ∀ s ∈ segments, s.WellFormed) (start : Nat) :
    tokensAfter source start (segments.flatMap written) = tokensAfter source start segments := by
  induction segments generalizing start with
  | nil => rfl
  | cons s rest ih =>
      obtain ⟨hs, hrest⟩ := List.forall_mem_cons.mp hform
      rw [List.flatMap_cons, tokensAfter_append, tokensAfter_written, width_written hs, ih hrest,
        tokensAfter]

theorem width_flatMap_written (hform : ∀ s ∈ segments, s.WellFormed) :
    width (segments.flatMap written) = width segments := by
  induction segments with
  | nil => rfl
  | cons s rest ih =>
      obtain ⟨hs, hrest⟩ := List.forall_mem_cons.mp hform
      rw [List.flatMap_cons, width_append, width_written hs, ih hrest, width_cons]

theorem hasTokens_flatMap_written {text : List Char} (h : IsSegmentation text segments)
    (hsound : ∀ s ∈ segments, s.Sound) :
    HasTokens source ((segments.flatMap written).flatMap Segment.text)
      (tokensAfter source 0 segments) := by
  refine ⟨_, isSegmentation_flatMap_written h.wellFormed h.maximal, ?_,
    tokensAfter_flatMap_written h.wellFormed 0⟩
  intro t ht
  obtain ⟨s, hs, ht⟩ := List.mem_flatMap.mp ht
  exact sound_of_mem_written (hsound s hs) t ht

/-! ## What is written -/

theorem offset_placeAfter (source : String) (start : Nat) :
    (placeAfter source start).offset = start := by
  simp [placeAfter, Location.offset]

/-- The token of a segment, written where the segment stands, replaces that many blanks. -/
theorem foldl_write_tokenAfter? (hform : s.WellFormed) (hsound : s.Sound) (before : List Char)
    (count : Nat) :
    (s.tokenAfter? source before.length).toList.foldl Token.write
        (before ++ List.replicate (s.text.length + count) ' ') =
      before ++ s.written.flatMap text ++ List.replicate count ' ' := by
  cases s with
  | blank c =>
      change before ++ List.replicate (1 + count) ' ' = before ++ [' '] ++ List.replicate count ' '
      rw [Nat.add_comm, List.replicate_succ, List.append_assoc, List.singleton_append]
  | stray c => exact hsound.elim
  | mark m =>
      change Text.overwrite (before ++ List.replicate (1 + count) ' ')
        (placeAfter source before.length).offset.toNat m.char.toString.toList = _
      rw [offset_placeAfter, Int.toNat_natCast, Text.overwrite_blanks, Char.toString_eq_singleton,
        String.toList_singleton, List.length_singleton, Nat.add_sub_cancel_left]
      rfl
  | digits run =>
      have hfew := length_repr_runValue_le hform
      change Text.overwrite (before ++ List.replicate (run.length + count) ' ')
        (placeAfter source before.length).offset.toNat
        (Token.spelling ⟨.number (some (runValue run)), placeAfter source before.length⟩).toList = _
      rw [Token.spelling, Token.describe?_number hsound.2, Option.getD_some, offset_placeAfter,
        Int.toNat_natCast, Text.overwrite_blanks, written,
        List.flatMap_cons, flatMap_text_replicate_blank, text, String.length_toList,
        Nat.sub_add_comm hfew, List.replicate_add]
      simp

theorem foldl_write_tokensAfter (hform : ∀ s ∈ segments, s.WellFormed)
    (hsound : ∀ s ∈ segments, s.Sound) (before : List Char) :
    (tokensAfter source before.length segments).foldl Token.write
        (before ++ List.replicate (width segments) ' ') =
      before ++ (segments.flatMap written).flatMap text := by
  -- What is written for the first segment is part of what stands before the others.
  induction segments generalizing before with
  | nil => rfl
  | cons s rest ih =>
      obtain ⟨hs, hrest⟩ := List.forall_mem_cons.mp hform
      obtain ⟨hs', hrest'⟩ := List.forall_mem_cons.mp hsound
      have hlength : (before ++ s.written.flatMap text).length = before.length + s.text.length := by
        rw [List.length_append, ← width_written hs, width]
      rw [tokensAfter, List.foldl_append, width_cons, foldl_write_tokenAfter? hs hs', ← hlength,
        ih hrest hrest', List.flatMap_cons, List.flatMap_append, List.append_assoc]

/-! ## No two tokens overlap -/

theorem describe?_of_tokenAfter? (h : s.Sound) {token : Token}
    (htoken : s.tokenAfter? source start = some token) :
    token.describe? = some token.spelling := by
  obtain ⟨word, hword, rfl⟩ := Option.map_eq_some_iff.mp htoken
  cases s with
  | blank c => cases hword
  | stray c => cases hword
  | mark m =>
      obtain rfl := Option.some.inj hword
      rfl
  | digits run =>
      obtain rfl := Option.some.inj hword
      rw [Token.spelling, Token.describe?_number h.2, Option.getD_some]

theorem stop_of_tokenAfter? (h : s.WellFormed) (hsound : s.Sound) {token : Token}
    (htoken : s.tokenAfter? source start = some token) :
    token.place.offset = start ∧ token.stop ≤ (start + s.text.length : Nat) := by
  obtain ⟨word, hword, rfl⟩ := Option.map_eq_some_iff.mp htoken
  refine ⟨offset_placeAfter source start, ?_⟩
  rw [Token.stop, offset_placeAfter, Nat.cast_add, Int.add_le_add_iff_left, Int.ofNat_le]
  cases s with
  | blank c => cases hword
  | stray c => cases hword
  | mark m =>
      obtain rfl := Option.some.inj hword
      exact Nat.le_of_eq (String.length_singleton)
  | digits run =>
      obtain rfl := Option.some.inj hword
      rw [Token.spelling, Token.describe?_number hsound.2, Option.getD_some]
      exact length_repr_runValue_le h

theorem stop_of_mem_tokensAfter (hform : ∀ s ∈ segments, s.WellFormed)
    (hsound : ∀ s ∈ segments, s.Sound) {token : Token}
    (h : token ∈ tokensAfter source start segments) :
    token.describe? = some token.spelling ∧
      (start : Int) ≤ token.place.offset ∧ token.stop ≤ (start + width segments : Nat) := by
  obtain ⟨before, s, after, rfl, hs⟩ := exists_of_mem_tokensAfter h
  have hmem : s ∈ before ++ s :: after := List.mem_append_right _ List.mem_cons_self
  obtain ⟨hoffset, hstop⟩ := stop_of_tokenAfter? (hform s hmem) (hsound s hmem) hs
  refine ⟨describe?_of_tokenAfter? (hsound s hmem) hs, ?_⟩
  rw [width_append, width_cons]
  omega

theorem pairwise_tokensAfter (hform : ∀ s ∈ segments, s.WellFormed)
    (hsound : ∀ s ∈ segments, s.Sound) (start : Nat) :
    (tokensAfter source start segments).Pairwise
      fun earlier later ↦ earlier.stop ≤ later.place.offset := by
  induction segments generalizing start with
  | nil => exact .nil
  | cons s rest ih =>
      obtain ⟨hs, hrest⟩ := List.forall_mem_cons.mp hform
      obtain ⟨hs', hrest'⟩ := List.forall_mem_cons.mp hsound
      refine List.pairwise_append.mpr ⟨?_, ih hrest hrest' _, ?_⟩
      · cases s.tokenAfter? source start with
        | none => exact .nil
        | some token => exact List.pairwise_singleton _ _
      · intro earlier hearlier later hlater
        obtain ⟨-, hstop⟩ := stop_of_tokenAfter? hs hs' (Option.mem_toList.mp hearlier)
        exact hstop.trans (stop_of_mem_tokensAfter hrest hrest' hlater).2.1

end Segment

namespace Compilation

/-- The tokens of a text, written on as many blanks, do not overlap, and they are the tokens of
what is written. -/
theorem tokens_canonicalText {source text : String} {found : List Token}
    (h : (tokens source text).result = .ok found) :
    ∃ given finish, found = given ++ [finish] ∧ (∀ token ∈ given, token.isFinish = false) ∧
      finish.isFinish = true ∧ (canonicalText given finish).length = finish.place.offset ∧
      (∀ token ∈ given, token.describe? = some token.spelling ∧
        0 ≤ token.place.offset ∧ token.stop ≤ finish.place.offset) ∧
      (given.Pairwise fun earlier later ↦ earlier.stop ≤ later.place.offset) ∧
      (tokens source (String.ofList (canonicalText given finish))).result = .ok found := by
  obtain ⟨given, hgiven, rfl⟩ := result_tokens_eq_ok_iff.mp h
  have hnofinish := hgiven.isFinish_of_mem
  obtain ⟨segments, hsegments, hsound, rfl⟩ := hgiven
  have hform := hsegments.wellFormed
  have hwidth : Segment.width segments = text.length := by
    rw [hsegments.width_eq, String.length_toList]
  let finish : Token := ⟨.finish none, Segment.placeAfter source text.length⟩
  have hoffset : finish.place.offset = text.length := Segment.offset_placeAfter _ _
  have hwritten : canonicalText (Segment.tokensAfter source 0 segments) finish =
      (segments.flatMap Segment.written).flatMap Segment.text := by
    rw [canonicalText, hoffset, Int.toNat_natCast, ← hwidth]
    exact Segment.foldl_write_tokensAfter hform hsound []
  have hlength : (canonicalText (Segment.tokensAfter source 0 segments) finish).length =
      text.length := by
    rw [hwritten, ← hwidth]
    exact Segment.width_flatMap_written hform
  refine ⟨_, finish, rfl, hnofinish, rfl, ?_, ?_, Segment.pairwise_tokensAfter hform hsound 0, ?_⟩
  · rw [hlength, hoffset]
  · intro token htoken
    rw [hoffset, ← hwidth, ← Nat.zero_add (Segment.width segments)]
    exact Segment.stop_of_mem_tokensAfter hform hsound htoken
  · apply result_tokens_eq_ok_iff.mpr
    refine ⟨Segment.tokensAfter source 0 segments, ?_, ?_⟩
    · rw [String.toList_ofList, hwritten]
      exact Segment.hasTokens_flatMap_written hsegments hsound
    · rw [String.length_ofList, hlength]

/-- The text `007+ 12`, and the text `7  + 12` that its tokens give back. -/
theorem tokens_canonicalText_zeros :
    let at_ := fun column : Int ↦ ({ line := 1, column } : Location)
    let given : List Token := [⟨.number (some 7), at_ 1⟩, ⟨.mark .plus (some "+"), at_ 4⟩,
      ⟨.number (some 12), at_ 6⟩]
    let finish : Token := ⟨.finish none, at_ 8⟩
    (tokens "<input>" "007+ 12").result = .ok (given ++ [finish]) ∧
      canonicalText given finish = "7  + 12".toList ∧
      (given.Pairwise fun earlier later ↦ earlier.stop ≤ later.place.offset) ∧
      (tokens "<input>" "7  + 12").result = .ok (given ++ [finish]) := by
  intro at_ given finish
  have hfound : (tokens "<input>" "007+ 12").result = .ok (given ++ [finish]) := rfl
  have htext : canonicalText given finish = "7  + 12".toList := by decide
  obtain ⟨given', finish', heq, -, -, -, -, hpairwise, htokens⟩ := tokens_canonicalText hfound
  obtain ⟨rfl, hfinish⟩ := List.append_inj' heq rfl
  obtain rfl := List.singleton_inj.mp hfinish
  rw [htext, String.ofList_toList] at htokens
  exact ⟨hfound, htext, hpairwise, htokens⟩

end Compilation

end ArithAsm
