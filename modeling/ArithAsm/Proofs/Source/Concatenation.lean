import ArithAsm.Proofs.Sentence.Placement

/-!
# Texts put end to end

Two texts are put end to end.  As long as no run of digits spans the seam, the segments of the
whole are those of the first text and then those of the second one.  So the tokens of the second
text come again behind those of the first text, and so does its failure, only further on.
-/

namespace ArithAsm

/-! ## Columns -/

def Location.shift (count : Nat) (place : Location) : Location :=
  { place with column := place.column + count }

@[simp] theorem Location.shift_shift (place : Location) (first second : Nat) :
    (place.shift first).shift second = place.shift (first + second) := by
  simp [shift, Int.add_assoc]

namespace Segment

theorem placeAfter_add (source : String) (start count : Nat) :
    placeAfter source (start + count) = (placeAfter source start).shift count := by
  simp only [placeAfter, Location.shift, Location.mk.injEq, true_and]
  omega

theorem tokensAfter_add (source : String) (segments : List Segment) (start count : Nat) :
    tokensAfter source (start + count) segments =
      (tokensAfter source start segments).map (Token.mapPlace (.shift count)) := by
  induction segments generalizing start with
  | nil => rfl
  | cons s rest ih =>
      have hfirst : (s.tokenAfter? source (start + count)).toList =
          (s.tokenAfter? source start).toList.map (Token.mapPlace (.shift count)) := by
        rw [tokenAfter?, tokenAfter?, placeAfter_add]
        cases s.word? <;> simp [Token.mapPlace]
      rw [tokensAfter, tokensAfter, List.map_append, hfirst, Nat.add_right_comm, ih]

/-! ## The seam -/

theorem digits_of_not_apart {s next : Segment} (h : ¬ Apart s next) :
    (∃ run, s = .digits run) ∧ ∃ run, next = .digits run := by
  cases s <;> cases next <;> simp_all [Apart]

end Segment

/-- A run of digits spans the seam: the one text ends in a digit, the other starts with one. -/
def JoinsDigits (first second : List Char) : Prop :=
  first.getLast?.any Char.isDigit = true ∧ second.head?.any Char.isDigit = true

instance (first second : List Char) : Decidable (JoinsDigits first second) :=
  inferInstanceAs (Decidable (_ ∧ _))

namespace IsSegmentation

variable {text first second : List Char} {segments before after : List Segment} {run : List Char}

theorem head?_isDigit (h : IsSegmentation text segments)
    (hrun : segments.head? = some (.digits run)) : text.head?.any Char.isDigit = true := by
  obtain ⟨rest, rfl⟩ := List.head?_eq_some_iff.mp hrun
  obtain ⟨hne, hdigits⟩ := h.wellFormed _ List.mem_cons_self
  obtain ⟨c, more, rfl⟩ := List.exists_cons_of_ne_nil hne
  rw [← h.flatMap_text]
  exact hdigits c List.mem_cons_self

theorem getLast?_isDigit (h : IsSegmentation text segments)
    (hrun : segments.getLast? = some (.digits run)) : text.getLast?.any Char.isDigit = true := by
  obtain ⟨earlier, rfl⟩ := List.getLast?_eq_some_iff.mp hrun
  obtain ⟨hne, hdigits⟩ := h.wellFormed _ (List.mem_append_right _ List.mem_cons_self)
  have hlast := List.getLast?_eq_some_getLast hne
  rw [← h.flatMap_text]
  simp only [List.flatMap_append, List.flatMap_singleton, Segment.text, List.getLast?_append, hlast]
  exact hdigits _ (List.getLast_mem hne)

theorem append (hf : IsSegmentation first before) (hs : IsSegmentation second after)
    (hseam : ¬ JoinsDigits first second) : IsSegmentation (first ++ second) (before ++ after) := by
  constructor
  · rw [List.flatMap_append, hf.flatMap_text, hs.flatMap_text]
  · exact List.forall_mem_append.mpr ⟨hf.wellFormed, hs.wellFormed⟩
  · refine List.isChain_append.mpr ⟨hf.maximal, hs.maximal, ?_⟩
    intro last hlast next hnext
    by_contra hjoin
    -- Only runs of digits are not apart, and two of them would join digits at the seam.
    obtain ⟨⟨run, rfl⟩, later, rfl⟩ := Segment.digits_of_not_apart hjoin
    exact hseam ⟨hf.getLast?_isDigit hlast, hs.head?_isDigit hnext⟩

end IsSegmentation

/-! ## Texts with tokens -/

/-- The text falls into sound segments, and these are its tokens, the end not among them. -/
def HasTokens (source : String) (text : List Char) (given : List Token) : Prop :=
  ∃ segments, IsSegmentation text segments ∧ (∀ s ∈ segments, s.Sound) ∧
    Segment.tokensAfter source 0 segments = given

namespace HasTokens

variable {source : String} {first second : List Char} {given given' : List Token}

theorem append (hf : HasTokens source first given) (hs : HasTokens source second given')
    (hseam : ¬ JoinsDigits first second) :
    HasTokens source (first ++ second)
      (given ++ given'.map (Token.mapPlace (.shift first.length))) := by
  obtain ⟨before, hbefore, hsound, rfl⟩ := hf
  obtain ⟨after, hafter, hsound', rfl⟩ := hs
  refine ⟨before ++ after, hbefore.append hafter hseam, ?_, ?_⟩
  · exact List.forall_mem_append.mpr ⟨hsound, hsound'⟩
  · rw [Segment.tokensAfter_append, Segment.tokensAfter_add, hbefore.width_eq]

theorem isFinish_of_mem (h : HasTokens source first given) :
    ∀ token ∈ given, token.isFinish = false := by
  obtain ⟨segments, -, -, rfl⟩ := h
  exact Segment.isFinish_of_mem_tokensAfter

end HasTokens

/-- The tokens of a text are its words, and then the end behind its last character. -/
theorem Stream.tokens_ofText_eq_ok_iff {source text : String} {found : List Token} :
    (Stream.ofText source text).tokens = .ok found ↔
      ∃ given, HasTokens source text.toList given ∧
        found = given ++ [⟨.finish none, Segment.placeAfter source text.length⟩] := by
  constructor
  · intro h
    obtain ⟨segments, hsegments, hsound, hfound⟩ := exists_sound_of_tokens h
    exact ⟨_, ⟨segments, hsegments, hsound, rfl⟩, hfound⟩
  · rintro ⟨given, ⟨segments, hsegments, hsound, rfl⟩, rfl⟩
    exact tokens_ofText_of_sound source hsegments hsound

/-! ## Texts with a fault -/

/-- The failure of a text and its failure behind so many other characters: it is reported in the
same words, and further on if it has a place. -/
inductive Failure.MovedBy (count : Nat) : Failure → Failure → Prop where
  | lexical (shown : String) (d d' : Diagnostic) (place : Location) (hplace : d.place = some place)
      (hplace' : d'.place = some (place.shift count)) (hmessage : d'.message = d.message)
      (hhint : d'.hint = d.hint) : MovedBy count (.lexical shown d) (.lexical shown d')
  | badValue (message : String) : MovedBy count (.badValue message) (.badValue message)

namespace Stream

/-- What an unsound segment is reported as depends on the line only in the line it shows. -/
theorem ofSegments_cons_moved (source line line' : String) {bad : Segment} (h : ¬ bad.Sound)
    (rest : List Segment) (start count shift count' : Nat) :
    ∃ fault fault', ofSegments source line (start + 1) count (bad :: rest) = [.fault fault] ∧
      ofSegments source line' (shift + start + 1) count' (bad :: rest) = [.fault fault'] ∧
      fault.failure.MovedBy shift fault'.failure := by
  have hplace : (⟨source, 1, (shift + start + 1 : Nat)⟩ : Location) =
      (Segment.placeAfter source start).shift shift := by
    rw [← Segment.placeAfter_add, Nat.add_comm start]
    rfl
  cases bad with
  | blank c => exact absurd trivial h
  | mark m => exact absurd trivial h
  | stray c =>
      refine ⟨_, _, rfl, rfl, ?_⟩
      rw [hplace]
      exact .lexical _ _ _ _ rfl rfl rfl rfl
  | digits run =>
      rw [ofSegments, ofSegments, hplace]
      rcases tooLarge_or_tooLong h with ⟨hlength, hvalue⟩ | hlong
      · rw [numberAt_of_tooLarge hlength hvalue, numberAt_of_tooLarge hlength hvalue]
        exact ⟨_, _, rfl, rfl, .lexical _ _ _ _ rfl rfl rfl rfl⟩
      · rw [numberAt_of_tooLong hlong, numberAt_of_tooLong hlong]
        exact ⟨_, _, rfl, rfl, .badValue _⟩

/-- The first fault of a text is its first fault behind other characters too, if these have no
fault and the seam parts no run. -/
theorem fault_of_append (source : String) {first second : String}
    {segments before : List Segment} {bad : Segment} (h : IsSegmentation first.toList segments)
    (hsound : ∀ s ∈ segments, s.Sound) (hbad : FirstUnsound second.toList before bad)
    (hseam : ¬ JoinsDigits first.toList second.toList) :
    ∃ fault fault',
      ofText source second =
        ofTokens (Segment.tokensAfter source 0 before) ++ [.fault fault] ∧
      ofText source (first ++ second) =
        ofTokens (Segment.tokensAfter source 0 (segments ++ before)) ++ [.fault fault'] ∧
      fault.failure.MovedBy first.length fault'.failure := by
  obtain ⟨after, hsegments, hbefore, hunsound⟩ := hbad
  have hwhole : IsSegmentation (first ++ second).toList ((segments ++ before) ++ bad :: after) := by
    rw [String.toList_append, List.append_assoc]
    exact h.append hsegments hseam
  have hall : ∀ s ∈ segments ++ before, s.Sound := List.forall_mem_append.mpr ⟨hsound, hbefore⟩
  have hwidth : Segment.width (segments ++ before) = first.length + Segment.width before := by
    rw [Segment.width_append, h.width_eq, String.length_toList]
  obtain ⟨fault, fault', hfault, hfault', hmoved⟩ := ofSegments_cons_moved source
    (Text.firstLine second) (Text.firstLine (first ++ second)) hunsound after
    (Segment.width before) (Segment.tokensAfter source 0 before).length first.length
    (Segment.tokensAfter source 0 (segments ++ before)).length
  refine ⟨fault, fault', ?_, ?_, hmoved⟩
  · rw [ofText_of_segments source hsegments hbefore, hfault]
  · rw [ofText_of_segments source hwhole hall, hwidth, hfault']

end Stream

namespace Compilation

theorem result_tokens_eq_ok_iff {source text : String} {found : List Token} :
    (tokens source text).result = .ok found ↔
      ∃ given, HasTokens source text.toList given ∧
        found = given ++ [⟨.finish none, Segment.placeAfter source text.length⟩] := by
  rw [← Stream.tokens_ofText_eq_ok_iff]
  exact ⟨eq_ok_of_mapError_eq_ok, result_tokens_of_ok⟩

/-- The tokens of a text behind another text with tokens come behind those of the other text, and
its failure stays what it is.  Either one is found further on by the length of the other text. -/
theorem result_tokens_append {source first second : String} {found : List Token}
    (hfound : (tokens source first).result = .ok found)
    (hseam : ¬ JoinsDigits first.toList second.toList) :
    ∃ given finish, found = given ++ [finish] ∧ (∀ token ∈ given, token.isFinish = false) ∧
      finish.isFinish = true ∧
      (∀ later, (tokens source second).result = .ok later →
        (tokens source (first ++ second)).result =
          .ok (given ++ later.map (Token.mapPlace (.shift first.length)))) ∧
      ∀ failure, (tokens source second).result = .error failure →
        ∃ failure', (tokens source (first ++ second)).result = .error failure' ∧
          failure.MovedBy first.length failure' := by
  obtain ⟨given, hgiven, rfl⟩ := result_tokens_eq_ok_iff.mp hfound
  refine ⟨given, _, rfl, hgiven.isFinish_of_mem, rfl, ?_, ?_⟩
  · intro later hlater
    obtain ⟨behind, hbehind, rfl⟩ := result_tokens_eq_ok_iff.mp hlater
    have hwhole := hgiven.append hbehind hseam
    rw [← String.toList_append, String.length_toList] at hwhole
    apply result_tokens_eq_ok_iff.mpr
    refine ⟨_, hwhole, ?_⟩
    simp [Token.mapPlace, ← Segment.placeAfter_add, Nat.add_comm]
  · intro failure hfailure
    rcases sound_or_firstUnsound second.toList with ⟨later, hlater, hsound⟩ | ⟨before, bad, hbad⟩
    · rw [result_tokens_of_ok (Stream.tokens_ofText_of_sound source hlater hsound)] at hfailure
      cases hfailure
    · obtain ⟨segments, hsegments, hsound, -⟩ := hgiven
      obtain ⟨fault, fault', hstream, hstream', hmoved⟩ :=
        Stream.fault_of_append source hsegments hsound hbad hseam
      rw [result_tokens_of_fault hstream] at hfailure
      obtain rfl := Except.error.inj hfailure
      exact ⟨fault'.failure, result_tokens_of_fault hstream', hmoved⟩

/-- The texts `+2` and `2$` behind `10 `.  A digit behind the blank joins no run. -/
theorem result_tokens_append_blank :
    let at_ := fun column : Int ↦ ({ line := 1, column } : Location)
    let ten : Token := ⟨.number (some 10), at_ 1⟩
    (tokens "<input>" "10 ").result = .ok [ten, ⟨.finish none, at_ 4⟩] ∧
      ¬ JoinsDigits "10 ".toList "+2".toList ∧ ¬ JoinsDigits "10 ".toList "2$".toList ∧
      (tokens "<input>" "10 +2").result = .ok [ten, ⟨.mark .plus (some "+"), at_ 4⟩,
        ⟨.number (some 2), at_ 5⟩, ⟨.finish none, at_ 6⟩] ∧
      ∃ failure, (tokens "<input>" "10 2$").result = .error failure ∧
        (LexFault.failure (.stray '$' (at_ 2) "2$")).MovedBy 3 failure := by
  intro at_ ten
  have hfound : (tokens "<input>" "10 ").result = .ok [ten, ⟨.finish none, at_ 4⟩] := rfl
  have hsum : ¬ JoinsDigits "10 ".toList "+2".toList := by decide
  have hnumber : ¬ JoinsDigits "10 ".toList "2$".toList := by decide
  obtain ⟨given, finish, hlast, -, -, hok, -⟩ := result_tokens_append hfound hsum
  obtain ⟨-, -, -, -, -, -, hfails⟩ := result_tokens_append hfound hnumber
  have hlast : [ten] ++ [⟨.finish none, at_ 4⟩] = given ++ [finish] := hlast
  obtain ⟨rfl, -⟩ := List.append_inj' hlast rfl
  exact ⟨hfound, hsum, hnumber, hok _ rfl, hfails _ rfl⟩

end Compilation

end ArithAsm
