import ArithAsm.Proofs.Source.Tokenization
import ArithAsm.Source.Readers

/-!
# Readers that take turns

Any number of readers go over one source, start when they like and take tokens in any order.  A
reader has its own stream, which only its own takes bring forward.  So what it is given depends on
how often it has taken, and on nothing that the others do.
-/

namespace ArithAsm

namespace Stream

/-- What is left of a stream after so many takes. -/
def left : Nat → Stream → Stream
  | 0, stream => stream
  | count + 1, stream => left count stream.next.2

@[simp] theorem left_nil (count : Nat) : left count [] = [] := by
  induction count with
  | zero => rfl
  | succ count ih => exact ih

/-- A stream hands out the tokens before its last arrival, then that one, and then nothing. -/
theorem Hands.next_left {stream rest : Stream} {given : List Token}
    {last : Except LexFault Token} (h : Hands stream given rest)
    (hlast : rest.next = (some last, [])) (count : Nat) :
    (left count stream).next.1 = (given.map .ok ++ [last])[count]? := by
  induction h generalizing count with
  | nothing stream =>
      cases count with
      | zero => simp [left, hlast]
      | succ count => simp [left, hlast, next]
  | more hnext _ ih =>
      cases count with
      | zero => simp [left, hnext]
      | succ count => simpa [left, hnext] using ih hlast count

/-- Tokens come first, and then the end or a fault, which is the last that comes. -/
theorem exists_hands_ofText (source text : String) :
    ∃ (given : List Token) (last : Except LexFault Token) (rest : Stream),
      (∀ token ∈ given, token.isFinish = false) ∧
      (∀ token, last = .ok token → token.isFinish = true) ∧
      (ofText source text).Hands given rest ∧ rest.next = (some last, []) ∧
      (Compilation.tokens source text).result =
        (last.map fun finish ↦ given ++ [finish]).mapError LexFault.failure := by
  rcases sound_or_firstUnsound text.toList with ⟨segments, hsegments, hsound⟩ | ⟨before, bad, hbad⟩
  · refine ⟨Segment.tokensAfter source 0 segments,
      .ok ⟨.finish none, Segment.placeAfter source text.length⟩,
      [.event (.tokenized source (Segment.tokensAfter source 0 segments).length),
        .token ⟨.finish none, Segment.placeAfter source text.length⟩],
      Segment.isFinish_of_mem_tokensAfter, ?_, ?_, rfl, ?_⟩
    · rintro token ⟨⟩
      rfl
    · rw [ofText_of_sound source hsegments hsound]
      exact hands_ofTokens_append _ _
    · exact Compilation.result_tokens_of_ok (tokens_ofText_of_sound source hsegments hsound)
  · obtain ⟨fault, hstream, -⟩ := ofText_of_firstUnsound source hbad
    refine ⟨Segment.tokensAfter source 0 before, .error fault, [.fault fault],
      Segment.isFinish_of_mem_tokensAfter, nofun, ?_, rfl, ?_⟩
    · rw [hstream]
      exact hands_ofTokens_append _ _
    · exact Compilation.result_tokens_of_fault hstream

end Stream

namespace Readers

/-- What may happen among readers: one more starts, or one of them takes its next token. -/
inductive Act where
  | start
  | take (number : Nat)
deriving DecidableEq

def act (readers : Readers) : Act → Readers
  | .start => readers.start.2
  | .take number => (readers.take number).2

def after (readers : Readers) (acts : List Act) : Readers :=
  acts.foldl act readers

variable {readers : Readers} {number : Nat} {stream : Stream}

@[simp] theorem after_nil (readers : Readers) : readers.after [] = readers := rfl

@[simp] theorem after_cons (readers : Readers) (a : Act) (acts : List Act) :
    readers.after (a :: acts) = (readers.act a).after acts := rfl

theorem whole_after (readers : Readers) (acts : List Act) :
    (readers.after acts).whole = readers.whole := by
  induction acts generalizing readers with
  | nil => rfl
  | cons a acts ih =>
      rw [after_cons, ih]
      cases a <;> rfl

theorem take_eq (h : readers.streams[number]? = some stream) :
    (readers.take number).1 = stream.next.1 := by
  simp [take, List.getD_eq_getElem?_getD, h]

theorem getElem?_start (readers : Readers) :
    readers.start.2.streams[readers.start.1]? = some readers.whole := by
  simp [start]

/-- One act brings forward the stream of the reader who takes and leaves all others alone. -/
theorem getElem?_act (h : readers.streams[number]? = some stream) (a : Act) :
    (readers.act a).streams[number]? =
      some (if a = .take number then stream.next.2 else stream) := by
  obtain ⟨hlt, hstream⟩ := List.getElem?_eq_some_iff.mp h
  cases a with
  | start => simp [act, start, List.getElem?_append_left hlt, h]
  | take other =>
      by_cases hother : other = number
      · subst hother
        simp [act, take, hstream, hlt]
      · simp [act, take, hother, h]

/-- After any acts a reader has left what its own takes have left. -/
theorem getElem?_after (h : readers.streams[number]? = some stream) (acts : List Act) :
    (readers.after acts).streams[number]? =
      some (stream.left (acts.count (.take number))) := by
  induction acts generalizing readers stream with
  | nil => simpa [Stream.left] using h
  | cons a acts ih =>
      rw [after_cons, ih (getElem?_act h a), List.count_cons]
      by_cases ha : a = .take number <;> simp [ha, Stream.left]

/-- A reader that starts at some moment is given what its takes since then make it. -/
theorem take_after_start (readers : Readers) (acts : List Act) :
    ((readers.start.2.after acts).take readers.start.1).1 =
      (readers.whole.left (acts.count (.take readers.start.1))).next.1 :=
  take_eq (getElem?_after (getElem?_start readers) acts)

/-- What comes when no token but the end may come is the last that comes. -/
theorem length_le_of_isFinish {given : List Token} {last arrival : Except LexFault Token}
    {count : Nat} (hgiven : ∀ token ∈ given, token.isFinish = false)
    (h : (given.map .ok ++ [last])[count]? = some arrival)
    (hfinish : ∀ token, arrival = .ok token → token.isFinish = true) : given.length ≤ count := by
  by_contra hlt
  rw [Nat.not_le] at hlt
  rw [List.getElem?_append_left (by simpa using hlt), List.getElem?_map,
    List.getElem?_eq_getElem hlt] at h
  have hno := hgiven _ (List.getElem_mem hlt)
  rw [hfinish _ (Option.some.inj h).symm] at hno
  cases hno

/-- Whenever a reader of a text starts, and whatever the readers do from then on, it is given what
a reader on its own is given after as many takes: the tokens one by one, then the end or a fault,
and then nothing any more. -/
theorem take_interleaved (source text : String) :
    ∃ (given : List Token) (last : Except LexFault Token),
      (∀ token ∈ given, token.isFinish = false) ∧
      (∀ token, last = .ok token → token.isFinish = true) ∧
      (Compilation.tokens source text).result =
        (last.map fun finish ↦ given ++ [finish]).mapError LexFault.failure ∧
      ∀ before acts : List Act,
        let alone := (ofText source text).start
        let reader := ((ofText source text).after before).start
        let count := acts.count (.take reader.1)
        let taken := ((reader.2.after acts).take reader.1).1
        taken = (given.map .ok ++ [last])[count]? ∧
          taken = ((alone.2.after (List.replicate count (.take alone.1))).take alone.1).1 ∧
          ∀ arrival, taken = some arrival →
            (∀ token, arrival = .ok token → token.isFinish = true) →
            ∀ later : List Act,
              ((reader.2.after (acts ++ .take reader.1 :: later)).take reader.1).1 = none := by
  obtain ⟨given, last, rest, hgiven, hlast, hhands, hrest, hresult⟩ :=
    Stream.exists_hands_ofText source text
  refine ⟨given, last, hgiven, hlast, hresult, ?_⟩
  intro before acts alone reader count taken
  have htake (before acts : List Act) :
      ((((ofText source text).after before).start.2.after acts).take
        ((ofText source text).after before).start.1).1 =
          (given.map .ok ++ [last])[acts.count
            (.take ((ofText source text).after before).start.1)]? := by
    -- Whatever came before, the reader starts with the whole stream.
    rw [take_after_start, whole_after]
    exact hhands.next_left hrest _
  refine ⟨htake before acts, ?_, ?_⟩
  · have halone := htake [] (List.replicate count (.take alone.1))
    rw [after_nil, List.count_replicate_self] at halone
    exact (htake before acts).trans halone.symm
  · intro arrival harrival hfinish later
    have hcount : given.length ≤ count :=
      length_le_of_isFinish hgiven ((htake before acts).symm.trans harrival) hfinish
    have hend : (given.map Except.ok ++ [last]).length ≤
        (acts ++ .take reader.1 :: later).count (.take reader.1) := by
      rw [List.count_append, List.count_cons_self, List.length_append, List.length_map,
        List.length_singleton]
      omega
    exact (htake before _).trans (List.getElem?_eq_none hend)

/-- A reader of `2$` that starts between the takes of another one, and the fault it is given. -/
theorem take_interleaved_stray :
    let place : Location := { line := 1, column := 2 }
    let acts : List Act := [.take 0, .take 1, .take 0]
    let reader := ((ofText "<input>" "2$").after [.start, .take 0]).start
    ((reader.2.after acts).take reader.1).1 = some (.error (.stray '$' place "2$")) ∧
      ∀ later : List Act,
        ((reader.2.after (acts ++ .take reader.1 :: later)).take reader.1).1 = none := by
  intro place acts reader
  obtain ⟨given, last, -, -, -, hreaders⟩ := take_interleaved "<input>" "2$"
  obtain ⟨-, -, hnothing⟩ := hreaders [.start, .take 0] acts
  have htaken : ((reader.2.after acts).take reader.1).1 =
      some (.error (.stray '$' place "2$")) := rfl
  exact ⟨htaken, hnothing _ htaken nofun⟩

end Readers

end ArithAsm
