import ArithAsm.Expr.Places
import ArithAsm.Proofs.Sentence.Extent

/-!
# Readings and places

A reading looks at words and passes their places on.  If all places of a stream are changed by one
function, the reading makes the same moves, and the places in its outcome are changed by that
function too.  So two token lists with the same words are read alike.
-/

namespace ArithAsm

variable (f : Location → Location)

/-! ## Changing places -/

def Token.mapPlace (token : Token) : Token :=
  { token with place := f token.place }

def LexFault.mapPlace : LexFault → LexFault
  | stray c place line => stray c (f place) line
  | outOfRange run place line => outOfRange run (f place) line
  | tooManyDigits count => tooManyDigits count

def Arrival.mapPlace : Arrival → Arrival
  | token found => .token (found.mapPlace f)
  | event happened => .event happened
  | fault lexFault => .fault (lexFault.mapPlace f)

def Stream.mapPlace (stream : Stream) : Stream :=
  stream.map (Arrival.mapPlace f)

def Waiting.mapPlace (w : Waiting) : Waiting :=
  ⟨w.left.mapPlace f, w.op, f w.place⟩

def Level.mapPlace (level : Level) : Level :=
  ⟨level.sum.map (Waiting.mapPlace f), level.product.map (Waiting.mapPlace f)⟩

def Sign.mapPlace : Sign → Sign
  | plus => plus
  | minus place => minus (f place)

def Group.mapPlace (group : Group) : Group :=
  ⟨f group.opening, group.sign.map (Sign.mapPlace f), group.around.mapPlace f⟩

def Pending.mapPlace : Pending → Pending
  | operand sign level groups =>
      operand (sign.map (Sign.mapPlace f)) (level.mapPlace f) (groups.map (Group.mapPlace f))
  | operator value level groups =>
      operator (value.mapPlace f) (level.mapPlace f) (groups.map (Group.mapPlace f))

def Expected.mapPlace : Expected → Expected
  | operand => operand
  | closing opening => closing (f opening)
  | finish => finish

def Step.mapPlace : Step → Step
  | go next => go (next.mapPlace f)
  | complete tree => complete (tree.mapPlace f)
  | refuse expected => refuse (expected.mapPlace f)

def SyntaxFault.mapPlace (fault : SyntaxFault) : SyntaxFault :=
  ⟨fault.expected.mapPlace f, fault.found.mapPlace f⟩

def ReadFault.mapPlace : ReadFault → ReadFault
  | lexical fault => lexical (fault.mapPlace f)
  | grammatical fault => grammatical (fault.mapPlace f)
  | exhausted => exhausted

def Reading.mapPlace (reading : Reading) : Reading where
  outcome := (reading.outcome.map (Expr.mapPlace f)).mapError (ReadFault.mapPlace f)
  events := reading.events
  rest := reading.rest.mapPlace f

/-! ## Moves -/

theorem Waiting.close_mapPlace (waiting : Option Waiting) (right : Expr) :
    close (waiting.map (Waiting.mapPlace f)) (right.mapPlace f) =
      (close waiting right).mapPlace f := by
  cases waiting <;> rfl

theorem Level.close_mapPlace (level : Level) (operand : Expr) :
    (level.mapPlace f).close (operand.mapPlace f) = (level.close operand).mapPlace f := by
  rw [close, close, mapPlace, Waiting.close_mapPlace, Waiting.close_mapPlace]

theorem Sign.apply_mapPlace (sign : Option Sign) (operand : Expr) :
    apply (sign.map (Sign.mapPlace f)) (operand.mapPlace f) =
      (apply sign operand).mapPlace f := by
  rcases sign with _ | _ | _ <;> rfl

namespace Pending

theorem extendSum_mapPlace (value : Expr) (level : Level) (groups : List Group) (op : Op)
    (place : Location) :
    extendSum (value.mapPlace f) (level.mapPlace f) (groups.map (Group.mapPlace f)) op (f place) =
      (extendSum value level groups op place).mapPlace f := by
  rw [extendSum, Level.close_mapPlace]
  rfl

theorem extendProduct_mapPlace (value : Expr) (level : Level) (groups : List Group) (op : Op)
    (place : Location) :
    extendProduct (value.mapPlace f) (level.mapPlace f) (groups.map (Group.mapPlace f)) op
        (f place) =
      (extendProduct value level groups op place).mapPlace f := by
  rw [extendProduct, Level.mapPlace, Waiting.close_mapPlace]
  rfl

theorem expectedAfter_mapPlace (groups : List Group) :
    expectedAfter (groups.map (Group.mapPlace f)) = (expectedAfter groups).mapPlace f := by
  cases groups <;> rfl

/-- One move: the same one, with the places changed. -/
theorem step_mapPlace (state : Pending) (token : Token) :
    (state.mapPlace f).step (token.mapPlace f) = (state.step token).mapPlace f := by
  obtain ⟨word, place⟩ := token
  cases state with
  | operand sign level groups =>
      cases word with
      | number value =>
          have happly := Sign.apply_mapPlace f sign (.literal place value)
          change Step.go (operator _ _ _) = .go (operator _ _ _)
          rw [← happly]
          rfl
      | mark m spelling => cases m <;> cases sign <;> rfl
      | finish spelling => cases sign <;> rfl
  | operator value level groups =>
      cases word with
      | number number => exact congrArg Step.refuse (expectedAfter_mapPlace f groups)
      | mark m spelling =>
          cases m with
          | plus => exact extendSum_mapPlace f value level groups .add place
          | minus => exact extendSum_mapPlace f value level groups .sub place
          | star => exact extendProduct_mapPlace f value level groups .mul place
          | slash => exact extendProduct_mapPlace f value level groups .div place
          | opening => exact congrArg Step.refuse (expectedAfter_mapPlace f groups)
          | closing =>
              cases groups with
              | nil => rfl
              | cons group outer =>
                  have happly := Sign.apply_mapPlace f group.sign (level.close value)
                  rw [← Level.close_mapPlace] at happly
                  change Step.go (operator _ _ _) = .go (operator _ _ _)
                  rw [← happly]
                  rfl
      | finish spelling =>
          cases groups with
          | nil => exact congrArg Step.complete (Level.close_mapPlace f level value)
          | cons group outer => rfl

theorem read_mapPlace (state : Pending) (stream : Stream) :
    (state.mapPlace f).read (stream.mapPlace f) = (state.read stream).mapPlace f := by
  induction stream generalizing state with
  | nil => rfl
  | cons arrival rest ih =>
      cases arrival with
      | event event =>
          change (state.mapPlace f).read (.event event :: Stream.mapPlace f rest) = _
          rw [Pending.read, Pending.read, ih]
          rfl
      | fault fault => rfl
      | token token =>
          change (state.mapPlace f).read (.token (token.mapPlace f) :: Stream.mapPlace f rest) = _
          rw [Pending.read, Pending.read, step_mapPlace]
          cases state.step token with
          | go next => exact ih next
          | complete tree => rfl
          | refuse expected => rfl

end Pending

/-- Changing the places of a stream changes those of its reading and nothing else. -/
theorem Stream.read_mapPlace (stream : Stream) :
    (stream.mapPlace f).read = stream.read.mapPlace f :=
  Pending.read_mapPlace f .start stream

theorem SyntaxFault.message_mapPlace (fault : SyntaxFault) :
    (fault.mapPlace f).message = fault.message := by
  obtain ⟨expected, found⟩ := fault
  cases expected <;> rfl

theorem SyntaxFault.word_mapPlace (fault : SyntaxFault) :
    (fault.mapPlace f).found.word = fault.found.word := rfl

/-- A token is described by its word. -/
theorem Token.describe?_of_word {token other : Token} (h : token.word = other.word) :
    token.describe? = other.describe? := by
  rw [describe?, describe?, h]

/-- Refused for the same reason, two tokens with the same word get the same message, or both are
too long for one. -/
theorem SyntaxFault.failure_of_word {fault fault' : SyntaxFault}
    (hmessage : fault.message = fault'.message) (hword : fault.found.word = fault'.found.word)
    (lines lines' : List String) :
    (∃ d d', fault.failure lines = .grammatical (some fault.found) d ∧
      fault'.failure lines' = .grammatical (some fault'.found) d' ∧ d.message = d'.message) ∨
    (fault.found.IsLong ∧ fault'.found.IsLong ∧ fault.failure lines = .tooLong ∧
      fault'.failure lines' = .tooLong) := by
  have hdescribe := Token.describe?_of_word hword
  rw [← Token.describe?_eq_none_iff, ← Token.describe?_eq_none_iff]
  unfold failure
  rw [← hdescribe]
  cases fault.found.describe? with
  | some found => exact .inl ⟨_, _, rfl, rfl, congrFun hmessage found⟩
  | none => exact .inr ⟨rfl, rfl, rfl, rfl⟩

/-! ## Tokens with the same words -/

/-- With one place for all tokens only their words are left. -/
theorem mapPlace_ofTokens_of_words {tokens tokens' : List Token}
    (h : tokens.map Token.word = tokens'.map Token.word) (place : Location) :
    (Stream.ofTokens tokens).mapPlace (fun _ ↦ place) =
      (Stream.ofTokens tokens').mapPlace fun _ ↦ place := by
  have hwords : ∀ given : List Token, (Stream.ofTokens given).mapPlace (fun _ ↦ place) =
      (given.map Token.word).map fun word ↦ Arrival.token ⟨word, place⟩ := by
    intro given
    rw [Stream.mapPlace, Stream.ofTokens, List.map_map, List.map_map]
    rfl
  rw [hwords, hwords, h]

/-- The readings of two token lists that differ in places only: the trees are alike, or tokens with
the same number are refused for the same reason, or the tokens run out. -/
inductive ReadAlike (tokens tokens' : List Token) : Reading → Reading → Prop where
  | tree (tree tree' : Expr) (rest rest' : Stream) (halike : tree.Alike tree') :
      ReadAlike tokens tokens' ⟨.ok tree, [], rest⟩ ⟨.ok tree', [], rest'⟩
  | refused (j : Nat) (fault fault' : SyntaxFault) (hmessage : fault.message = fault'.message)
      (hword : fault.found.word = fault'.found.word) (hfound : tokens[j]? = some fault.found)
      (hfound' : tokens'[j]? = some fault'.found) :
      ReadAlike tokens tokens'
        ⟨.error (.grammatical fault), [], Stream.ofTokens (tokens.drop (j + 1))⟩
        ⟨.error (.grammatical fault'), [], Stream.ofTokens (tokens'.drop (j + 1))⟩
  | exhausted : ReadAlike tokens tokens' ⟨.error .exhausted, [], []⟩ ⟨.error .exhausted, [], []⟩

theorem readAlike_of_words {tokens tokens' : List Token}
    (h : tokens.map Token.word = tokens'.map Token.word) :
    ReadAlike tokens tokens' (Stream.ofTokens tokens).read (Stream.ofTokens tokens').read := by
  -- Without places the two readings are one.
  have heq : (Stream.ofTokens tokens).read.mapPlace (fun _ ↦ default) =
      (Stream.ofTokens tokens').read.mapPlace fun _ ↦ default := by
    rw [← Stream.read_mapPlace, ← Stream.read_mapPlace, mapPlace_ofTokens_of_words h]
  have hends : Unfinished.start.Ends tokens (Stream.ofTokens tokens).read :=
    Unfinished.start.ends_read tokens
  have hends' : Unfinished.start.Ends tokens' (Stream.ofTokens tokens').read :=
    Unfinished.start.ends_read tokens'
  have hlength : tokens.length = tokens'.length := by simpa using congrArg List.length h
  generalize (Stream.ofTokens tokens).read = reading at heq hends ⊢
  generalize (Stream.ofTokens tokens').read = reading' at heq hends' ⊢
  have houtcome := congrArg Reading.outcome heq
  have hrest := congrArg (fun reading ↦ reading.rest.length) heq
  cases hends with
  | exhausted last hrun =>
      cases hends' with
      | exhausted last' hrun' => exact .exhausted
      | complete before' after' token' last' sentence' htokens' hrun' hstep' => cases houtcome
      | refused before' after' token' last' expected' htokens' hrun' hstep' => cases houtcome
  | complete before after token last sentence htokens hrun hstep =>
      cases hends' with
      | exhausted last' hrun' => cases houtcome
      | complete before' after' token' last' sentence' htokens' hrun' hstep' =>
          exact .tree _ _ _ _ (Except.ok.inj houtcome)
      | refused before' after' token' last' expected' htokens' hrun' hstep' => cases houtcome
  | refused before after token last expected htokens hrun hstep =>
      cases hends' with
      | exhausted last' hrun' => cases houtcome
      | complete before' after' token' last' sentence' htokens' hrun' hstep' => cases houtcome
      | refused before' after' token' last' expected' htokens' hrun' hstep' =>
          have hfault := ReadFault.grammatical.inj (Except.error.inj houtcome)
          have hmessage := congrArg SyntaxFault.message hfault
          rw [SyntaxFault.message_mapPlace, SyntaxFault.message_mapPlace] at hmessage
          have hword := congrArg (fun fault : SyntaxFault ↦ fault.found.word) hfault
          rw [SyntaxFault.word_mapPlace, SyntaxFault.word_mapPlace] at hword
          have hafter : after.length = after'.length := by
            simpa [Reading.mapPlace, Stream.mapPlace, Stream.ofTokens] using hrest
          have hbefore : before.length = before'.length := by
            rw [htokens, htokens', List.length_append, List.length_append, List.length_cons,
              List.length_cons, hafter] at hlength
            exact Nat.add_right_cancel hlength
          have hfound : tokens[before.length]? = some token := by simp [htokens]
          have hfound' : tokens'[before.length]? = some token' := by simp [htokens', hbefore]
          have hdrop : tokens.drop (before.length + 1) = after :=
            htokens ▸ drop_append_cons before token after
          have hdrop' : tokens'.drop (before.length + 1) = after' := by
            rw [htokens', hbefore]
            exact drop_append_cons before' token' after'
          have halike := ReadAlike.refused before.length ⟨expected, token⟩ ⟨expected', token'⟩
            hmessage hword hfound hfound'
          rwa [hdrop, hdrop'] at halike

end ArithAsm
