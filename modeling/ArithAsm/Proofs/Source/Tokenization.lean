import ArithAsm.Compilation
import ArithAsm.Proofs.Sentence.Unfinished
import ArithAsm.Proofs.Source.Segmentation
import ArithAsm.Proofs.Text.Unescaped
import Mathlib.Data.Nat.Digits.Defs

/-!
# The tokens of a text

What a reader of a text is given, told from the segments of the text alone.  Blanks aside, each
segment before the first unsound one is a token, which is placed where the segment starts.  The
first unsound segment is a fault, and where there is none the end comes last.
-/

namespace ArithAsm

/-- The number that a run of digits denotes in base ten. -/
def runValue (run : List Char) : Nat :=
  Nat.ofDigits 10 (run.reverse.map fun c ↦ c.toNat - '0'.toNat)

theorem digitsValue_eq_runValue (run : List Char) : digitsValue run = runValue run := by
  induction run using List.reverseRecOn with
  | nil => rfl
  | append_singleton run c ih =>
      have hstep : digitsValue (run ++ [c]) = 10 * digitsValue run + (c.toNat - '0'.toNat) := by
        rw [digitsValue, List.foldl_append]
        rfl
      rw [hstep, ih, runValue, runValue, List.reverse_concat, List.map_cons, Nat.ofDigits_cons]
      exact Nat.add_comm _ _

theorem runValue_repr (n : Nat) : runValue n.repr.toList = n := by
  rw [← digitsValue_eq_runValue, Nat.toList_repr, digitsValue_toDigits]

namespace Segment

/-- The segment is no fault. -/
def Sound : Segment → Prop
  | digits run => run.length ≤ 4300 ∧ runValue run ≤ 2 ^ 63 - 1
  | stray _ => False
  | _ => True

instance : DecidablePred Sound
  | blank _ => inferInstanceAs (Decidable True)
  | mark _ => inferInstanceAs (Decidable True)
  | digits run => inferInstanceAs (Decidable (run.length ≤ 4300 ∧ runValue run ≤ 2 ^ 63 - 1))
  | stray _ => inferInstanceAs (Decidable False)

theorem wellFormed_repr (n : Nat) : (digits n.repr.toList).WellFormed := by
  refine ⟨?_, fun c hc ↦ isDigit_of_mem_repr hc⟩
  rw [Nat.toList_repr]
  exact Nat.toDigits_ne_nil

theorem sound_repr {n : Nat} (h : n ≤ 2 ^ 63 - 1) : (digits n.repr.toList).Sound := by
  refine ⟨?_, (runValue_repr n).symm ▸ h⟩
  have hfew : (Nat.toDigits 10 n).length ≤ 19 := Nat.toDigits_length 10 n 19 (by decide) (by omega)
  rw [Nat.toList_repr]
  omega

def word? : Segment → Option Word
  | blank _ => none
  | mark m => some (.mark m (some m.char.toString))
  | digits run => some (.number (some (runValue run)))
  | stray _ => none

/-- The place of the character that comes after `start` others. -/
def placeAfter (source : String) (start : Nat) : Location :=
  ⟨source, 1, (start + 1 : Nat)⟩

def tokenAfter? (source : String) (start : Nat) (s : Segment) : Option Token :=
  s.word?.map fun word ↦ ⟨word, placeAfter source start⟩

/-- The tokens of segments that come after `start` characters. -/
def tokensAfter (source : String) : (start : Nat) → List Segment → List Token
  | _, [] => []
  | start, s :: rest =>
      (s.tokenAfter? source start).toList ++ tokensAfter source (start + s.text.length) rest

/-- The number of characters that segments stand for. -/
def width (segments : List Segment) : Nat :=
  (segments.flatMap text).length

theorem width_cons (s : Segment) (rest : List Segment) :
    width (s :: rest) = s.text.length + width rest := by
  rw [width, List.flatMap_cons, List.length_append, width]

theorem width_append (first second : List Segment) :
    width (first ++ second) = width first + width second := by
  rw [width, List.flatMap_append, List.length_append, width, width]

theorem tokensAfter_append (source : String) (first second : List Segment) (start : Nat) :
    tokensAfter source start (first ++ second) =
      tokensAfter source start first ++ tokensAfter source (start + width first) second := by
  induction first generalizing start with
  | nil => rfl
  | cons s rest ih =>
      rw [List.cons_append, tokensAfter, tokensAfter, ih, width_cons, List.append_assoc,
        Nat.add_assoc]

theorem exists_of_mem_tokensAfter {source : String} {token : Token} {segments : List Segment}
    {start : Nat} (h : token ∈ tokensAfter source start segments) :
    ∃ before s after, segments = before ++ s :: after ∧
      s.tokenAfter? source (start + width before) = some token := by
  induction segments generalizing start with
  | nil => cases h
  | cons first rest ih =>
      rcases List.mem_append.mp h with hfirst | hrest
      · exact ⟨[], first, rest, rfl, Option.mem_toList.mp hfirst⟩
      · obtain ⟨before, s, after, rfl, hs⟩ := ih hrest
        refine ⟨first :: before, s, after, rfl, ?_⟩
        rw [width_cons, ← Nat.add_assoc]
        exact hs

theorem isFinish_of_mem_tokensAfter {source : String} {segments : List Segment} {start : Nat} :
    ∀ token ∈ tokensAfter source start segments, token.isFinish = false := by
  intro token h
  obtain ⟨before, s, after, -, hs⟩ := exists_of_mem_tokensAfter h
  obtain ⟨word, hword, rfl⟩ := Option.map_eq_some_iff.mp hs
  cases s with
  | blank c => cases hword
  | mark m =>
      obtain rfl := Option.some.inj hword
      rfl
  | digits run =>
      obtain rfl := Option.some.inj hword
      rfl
  | stray c => cases hword

theorem WellFormed.length_pos {s : Segment} (h : s.WellFormed) : 0 < s.text.length := by
  cases s with
  | digits run => exact List.length_pos_of_ne_nil h.1
  | _ => exact Nat.one_pos

/-- The tokens of segments stand before what comes after them. -/
theorem column_lt_of_mem_tokensAfter {source : String} {segments : List Segment} {start : Nat}
    (hform : ∀ s ∈ segments, s.WellFormed) {token : Token}
    (h : token ∈ tokensAfter source start segments) :
    token.place.column < (placeAfter source (start + width segments)).column := by
  obtain ⟨before, s, after, rfl, hs⟩ := exists_of_mem_tokensAfter h
  obtain ⟨word, -, rfl⟩ := Option.map_eq_some_iff.mp hs
  have hpos := (hform s (List.mem_append_right _ List.mem_cons_self)).length_pos
  rw [width_append, width_cons]
  simp only [placeAfter]
  omega

/-- An unsound segment at a place and the failure it leads to. -/
inductive FailsWith (place : Location) : Segment → Failure → Prop where
  | stray (c : Char) (d : Diagnostic) (hplace : d.place = some place) :
      FailsWith place (.stray c) (.lexical c.toString d)
  | tooLarge (run : List Char) (d : Diagnostic) (hlength : run.length ≤ 4300)
      (hvalue : 2 ^ 63 - 1 < runValue run) (hplace : d.place = some place) :
      FailsWith place (.digits run) (.lexical (String.ofList run) d)
  | tooLong (run : List Char) (message : String) (hlength : 4300 < run.length) :
      FailsWith place (.digits run) (.badValue message)

end Segment

theorem IsSegmentation.width_eq {text : List Char} {segments : List Segment}
    (h : IsSegmentation text segments) : Segment.width segments = text.length := by
  rw [Segment.width, h.flatMap_text]

/-- The segments before the first unsound segment of a text, and that segment. -/
def FirstUnsound (text : List Char) (before : List Segment) (bad : Segment) : Prop :=
  ∃ after, IsSegmentation text (before ++ bad :: after) ∧ (∀ s ∈ before, s.Sound) ∧ ¬ bad.Sound

theorem sound_or_firstUnsound (text : List Char) :
    (∃ segments, IsSegmentation text segments ∧ ∀ s ∈ segments, s.Sound) ∨
      ∃ before bad, FirstUnsound text before bad := by
  have hsegments : IsSegmentation text (Segment.ofText text) := .ofText text
  cases hfind : (Segment.ofText text).find? (fun s ↦ ¬ s.Sound) with
  | none =>
      left
      refine ⟨_, hsegments, fun s hs ↦ ?_⟩
      simpa using List.find?_eq_none.mp hfind s hs
  | some bad =>
      right
      obtain ⟨hbad, before, after, heq, hbefore⟩ := List.find?_eq_some_iff_append.mp hfind
      refine ⟨before, bad, after, heq ▸ hsegments, fun s hs ↦ ?_, of_decide_eq_true hbad⟩
      simpa using hbefore s hs

/-! ## Arrivals -/

/-- A run of digits is no fault unless it is too long or its number is too large. -/
theorem tooLarge_or_tooLong {run : List Char} (h : ¬ (Segment.digits run).Sound) :
    (run.length ≤ 4300 ∧ 2 ^ 63 - 1 < runValue run) ∨ 4300 < run.length := by
  rcases Nat.lt_or_ge 4300 run.length with hlong | hshort
  · exact .inr hlong
  · refine .inl ⟨hshort, ?_⟩
    by_contra hsmall
    exact h ⟨hshort, Nat.not_lt.mp hsmall⟩

theorem numberAt_of_tooLong {run : List Char} (h : 4300 < run.length) (place : Location)
    (line : String) : numberAt place line run = .fault (.tooManyDigits run.length) := by
  have hlong : run.length > maxDigits := h
  rw [numberAt, readDigits, if_pos hlong]

theorem readDigits_of_length_le {run : List Char} (h : run.length ≤ 4300) :
    readDigits run = .ok (runValue run) := by
  have hshort : ¬ run.length > maxDigits := Nat.not_lt.mpr h
  rw [readDigits, if_neg hshort, digitsValue_eq_runValue]

theorem numberAt_of_tooLarge {run : List Char} (hlength : run.length ≤ 4300)
    (hvalue : 2 ^ 63 - 1 < runValue run) (place : Location) (line : String) :
    numberAt place line run = .fault (.outOfRange (String.ofList run) place line) := by
  have hlarge : runValue run > maxLiteral := hvalue
  rw [numberAt, readDigits_of_length_le hlength]
  exact if_pos hlarge

theorem numberAt_of_sound {run : List Char} (h : (Segment.digits run).Sound) (place : Location)
    (line : String) :
    numberAt place line run = .token ⟨.number (some (runValue run)), place⟩ := by
  have hsmall : ¬ runValue run > maxLiteral := Nat.not_lt.mpr h.2
  rw [numberAt, readDigits_of_length_le h.1]
  exact if_neg hsmall

namespace Stream

theorem ofSegments_cons_of_sound (source line : String) {s : Segment} (h : s.Sound)
    (rest : List Segment) (start count : Nat) :
    ofSegments source line (start + 1) count (s :: rest) =
      ofTokens (s.tokenAfter? source start).toList ++
        ofSegments source line (start + s.text.length + 1)
          (count + (s.tokenAfter? source start).toList.length) rest := by
  cases s with
  | blank c => rfl
  | mark m => rfl
  | stray c => exact h.elim
  | digits run =>
      rw [ofSegments, numberAt_of_sound h, Nat.add_right_comm start 1]
      rfl

/-- Sound segments give their tokens and nothing else. -/
theorem ofSegments_append (source line : String) {before : List Segment}
    (h : ∀ s ∈ before, s.Sound) (rest : List Segment) (start count : Nat) :
    ofSegments source line (start + 1) count (before ++ rest) =
      ofTokens (Segment.tokensAfter source start before) ++
        ofSegments source line (start + Segment.width before + 1)
          (count + (Segment.tokensAfter source start before).length) rest := by
  induction before generalizing start count with
  | nil => rfl
  | cons s before ih =>
      obtain ⟨hs, hbefore⟩ := List.forall_mem_cons.mp h
      rw [List.cons_append, ofSegments_cons_of_sound source line hs, ih hbefore,
        Segment.tokensAfter, Segment.width_cons, List.length_append, ofTokens, ofTokens, ofTokens,
        List.map_append, List.append_assoc, Nat.add_assoc count, Nat.add_assoc start]

theorem ofSegments_cons_of_not_sound (source line : String) {bad : Segment} (h : ¬ bad.Sound)
    (rest : List Segment) (start count : Nat) :
    ∃ fault, ofSegments source line (start + 1) count (bad :: rest) = [.fault fault] ∧
      bad.FailsWith (Segment.placeAfter source start) fault.failure := by
  cases bad with
  | blank c => exact absurd trivial h
  | mark m => exact absurd trivial h
  | stray c => exact ⟨.stray c (Segment.placeAfter source start) line, rfl, .stray c _ rfl⟩
  | digits run =>
      rw [ofSegments]
      rcases tooLarge_or_tooLong h with ⟨hlength, hvalue⟩ | hlong
      · rw [numberAt_of_tooLarge hlength hvalue]
        exact ⟨_, rfl, .tooLarge run _ hlength hvalue rfl⟩
      · rw [numberAt_of_tooLong hlong]
        exact ⟨_, rfl, .tooLong run _ hlong⟩

variable (source : String) {text : String}

/-- Behind its first segments, which are sound, a text goes on with what is left. -/
theorem ofText_of_segments {before rest : List Segment}
    (h : IsSegmentation text.toList (before ++ rest)) (hsound : ∀ s ∈ before, s.Sound) :
    ofText source text = ofTokens (Segment.tokensAfter source 0 before) ++
      ofSegments source (Text.firstLine text) (Segment.width before + 1)
        (Segment.tokensAfter source 0 before).length rest := by
  have hall := ofSegments_append source (Text.firstLine text) hsound rest 0 0
  rw [h.eq_ofText, Nat.zero_add, Nat.zero_add, Nat.zero_add] at hall
  exact hall

theorem ofText_of_sound {segments : List Segment} (h : IsSegmentation text.toList segments)
    (hsound : ∀ s ∈ segments, s.Sound) :
    ofText source text = ofTokens (Segment.tokensAfter source 0 segments) ++
      [.event (.tokenized source (Segment.tokensAfter source 0 segments).length),
        .token ⟨.finish none, Segment.placeAfter source text.length⟩] := by
  have hall : IsSegmentation text.toList (segments ++ []) := by rwa [List.append_nil]
  rw [ofText_of_segments source hall hsound, h.width_eq, String.length_toList]
  rfl

theorem ofText_of_firstUnsound {before : List Segment} {bad : Segment}
    (h : FirstUnsound text.toList before bad) :
    ∃ fault, ofText source text =
        ofTokens (Segment.tokensAfter source 0 before) ++ [.fault fault] ∧
      bad.FailsWith (Segment.placeAfter source (Segment.width before)) fault.failure := by
  obtain ⟨after, hsegments, hsound, hbad⟩ := h
  obtain ⟨fault, hfault, hfails⟩ := ofSegments_cons_of_not_sound source (Text.firstLine text)
    hbad after (Segment.width before) (Segment.tokensAfter source 0 before).length
  refine ⟨fault, ?_, hfails⟩
  rw [ofText_of_segments source hsegments hsound, hfault]

/-! ## Readers -/

/-- A reader that asks again and again is given these tokens, and then the rest is left. -/
inductive Hands : Stream → List Token → Stream → Prop where
  | nothing (stream : Stream) : Hands stream [] stream
  | more {stream later rest : Stream} {token : Token} {given : List Token}
      (hnext : stream.next = (some (.ok token), later)) (hlater : Hands later given rest) :
      Hands stream (token :: given) rest

theorem Hands.trans {stream middle rest : Stream} {first second : List Token}
    (hfirst : Hands stream first middle) (hsecond : Hands middle second rest) :
    Hands stream (first ++ second) rest := by
  induction hfirst with
  | nothing stream => exact hsecond
  | more hnext _ ih => exact .more hnext (ih hsecond)

theorem hands_ofTokens_append (given : List Token) (rest : Stream) :
    Hands (ofTokens given ++ rest) given rest := by
  induction given with
  | nil => exact .nothing rest
  | cons token given ih => exact .more rfl ih

theorem tokens_ofTokens_append (given : List Token) (rest : Stream) :
    tokens (ofTokens given ++ rest) = (tokens rest).map (given ++ ·) := by
  induction given with
  | nil => cases h : tokens rest <;> exact h
  | cons token given ih =>
      change (tokens (ofTokens given ++ rest)).map (token :: ·) = _
      rw [ih]
      cases tokens rest <;> rfl

theorem tokens_ofText_of_sound (source : String) {text : String} {segments : List Segment}
    (h : IsSegmentation text.toList segments) (hsound : ∀ s ∈ segments, s.Sound) :
    (ofText source text).tokens = .ok (Segment.tokensAfter source 0 segments ++
      [⟨.finish none, Segment.placeAfter source text.length⟩]) := by
  rw [ofText_of_sound source h hsound, tokens_ofTokens_append]
  rfl

/-- A text with tokens falls into sound segments. -/
theorem exists_sound_of_tokens {source text : String}
    {found : List Token} (h : (Stream.ofText source text).tokens = .ok found) :
    ∃ segments, IsSegmentation text.toList segments ∧ (∀ s ∈ segments, s.Sound) ∧
      found = Segment.tokensAfter source 0 segments ++
        [⟨.finish none, Segment.placeAfter source text.length⟩] := by
  rcases sound_or_firstUnsound text.toList with ⟨segments, hsegments, hsound⟩ | ⟨before, bad, hbad⟩
  · rw [tokens_ofText_of_sound source hsegments hsound] at h
    exact ⟨segments, hsegments, hsound, (Except.ok.inj h).symm⟩
  · obtain ⟨fault, hstream, -⟩ := ofText_of_firstUnsound source hbad
    rw [hstream, tokens_ofTokens_append] at h
    cases h

end Stream

namespace Compilation

theorem result_tokens_of_ok {source text : String} {found : List Token}
    (h : (Stream.ofText source text).tokens = .ok found) :
    (tokens source text).result = .ok found :=
  congrArg (Except.mapError _) h

theorem result_tokens_of_fault {source text : String} {given : List Token} {fault : LexFault}
    (h : Stream.ofText source text = Stream.ofTokens given ++ [.fault fault]) :
    (tokens source text).result = .error fault.failure := by
  rw [tokens, h, Stream.tokens_ofTokens_append]
  rfl

/-- The tokens of a text are those of its only segmentation, followed by the end.  If a segment
is unsound, then the first such segment decides on the failure, and a reader is given just the
tokens before it. -/
theorem tokens_by_segmentation (source text : String) :
    ∃ segments, IsSegmentation text.toList segments ∧
      (∀ other, IsSegmentation text.toList other → other = segments) ∧
      ((∀ s ∈ segments, s.Sound) →
        ∃ given rest,
          given = Segment.tokensAfter source 0 segments ++
            [⟨.finish none, Segment.placeAfter source text.length⟩] ∧
          (Stream.ofText source text).Hands given rest ∧ rest.next = (none, []) ∧
          (tokens source text).result = .ok given) ∧
      ∀ before bad after, segments = before ++ bad :: after → (∀ s ∈ before, s.Sound) →
        ¬ bad.Sound →
        ∃ fault rest,
          (Stream.ofText source text).Hands (Segment.tokensAfter source 0 before) rest ∧
          rest.next = (some (.error fault), []) ∧
          (tokens source text).result = .error fault.failure ∧
          bad.FailsWith (Segment.placeAfter source (Segment.width before)) fault.failure := by
  have hsegments : IsSegmentation text.toList (Segment.ofText text.toList) := .ofText _
  refine ⟨Segment.ofText text.toList, hsegments, fun other h ↦ h.eq_ofText, ?_, ?_⟩
  · intro hsound
    have hstream := Stream.ofText_of_sound source hsegments hsound
    refine ⟨_, [], rfl, ?_, rfl, ?_⟩
    · rw [hstream]
      exact (Stream.hands_ofTokens_append _ _).trans (.more rfl (.nothing []))
    · exact result_tokens_of_ok (Stream.tokens_ofText_of_sound source hsegments hsound)
  · intro before bad after heq hsound hbad
    obtain ⟨fault, hstream, hfails⟩ :=
      Stream.ofText_of_firstUnsound source ⟨after, heq ▸ hsegments, hsound, hbad⟩
    refine ⟨fault, [.fault fault], ?_, rfl, result_tokens_of_fault hstream, hfails⟩
    rw [hstream]
    exact Stream.hands_ofTokens_append _ _

/-- The texts `12 + 007` and `12 + 007x 9223372036854775808`.  In the second one the stray
character comes before the number that is too large. -/
theorem tokens_by_segmentation_stray_first :
    let at_ := fun column : Int ↦ ({ line := 1, column } : Location)
    let given : List Token := [⟨.number (some 12), at_ 1⟩, ⟨.mark .plus (some "+"), at_ 4⟩,
      ⟨.number (some 7), at_ 6⟩]
    (tokens "<input>" "12 + 007").result = .ok (given ++ [⟨.finish none, at_ 9⟩]) ∧
      ∃ fault rest,
        (Stream.ofText "<input>" "12 + 007x 9223372036854775808").Hands given rest ∧
          rest.next = (some (.error fault), []) ∧
          (tokens "<input>" "12 + 007x 9223372036854775808").result = .error fault.failure ∧
          (Segment.stray 'x').FailsWith (at_ 9) fault.failure := by
  intro at_ given
  let sum : List Segment := [.digits ['1', '2'], .blank ' ', .mark .plus, .blank ' ',
    .digits ['0', '0', '7']]
  have hsum : ∀ s ∈ sum, s.Sound := by decide
  constructor
  · obtain ⟨segments, hsegments, -, hclean, -⟩ := tokens_by_segmentation "<input>" "12 + 007"
    obtain rfl : segments = sum := hsegments.eq_ofText.trans (by decide)
    obtain ⟨found, rest, rfl, -, -, hfound⟩ := hclean hsum
    exact hfound
  · obtain ⟨segments, hsegments, -, -, hfault⟩ :=
      tokens_by_segmentation "<input>" "12 + 007x 9223372036854775808"
    have heq : segments = sum ++ .stray 'x' ::
        [.blank ' ', .digits "9223372036854775808".toList] :=
      hsegments.eq_ofText.trans (by decide)
    exact hfault sum (.stray 'x') _ heq hsum id

end Compilation

end ArithAsm
