import ArithAsm.Sentence.Grammar
import ArithAsm.Sentence.Pending

/-!
# Unfinished derivations

A pending state keeps trees, and a tree has lost its parentheses, its plus signs and the
spelling of its marks.  Here the same states are kept with derivations instead.  They make
the same moves, and unlike pending states they still know which tokens were read.
-/

namespace ArithAsm

namespace Token

/-- The token marks the end of the input. -/
def isFinish (token : Token) : Bool :=
  match token.word with
  | .finish _ => true
  | _ => false

def isSign (token : Token) : Bool :=
  match token.word with
  | .mark .plus _ => true
  | .mark .minus _ => true
  | _ => false

end Token

/-- A sum with its operator, whose right side is still to be derived. -/
structure OpenSum where
  left : Phrase .sum
  op : SumOp
  at_ : Spelled

/-- A product with its operator, whose right side is still to be derived. -/
structure OpenProduct where
  left : Phrase .product
  op : ProductOp
  at_ : Spelled

/-- The open sum and the open product around the operand at hand. -/
structure OpenLevel where
  sum : Option OpenSum := none
  product : Option OpenProduct := none

inductive SpelledSign where
  | plus (sign : Spelled)
  | minus (sign : Spelled)

/-- An open parenthesis, with the sign before it and the level around it. -/
structure OpenGroup where
  opening : Spelled
  sign : Option SpelledSign
  around : OpenLevel

/-- What has been derived of a sentence. -/
inductive Unfinished where
  | operand (sign : Option SpelledSign) (level : OpenLevel) (groups : List OpenGroup)
  | operator (operand : Phrase .signed) (level : OpenLevel) (groups : List OpenGroup)

/-- What a token does to an unfinished derivation. -/
inductive Move where
  | go (next : Unfinished)
  | complete (sentence : Phrase .sum)
  | refuse (expected : Expected)

namespace OpenSum

def tokens (sum : Option OpenSum) : List Token :=
  match sum with
  | some s => s.left.tokens ++ [s.at_.token s.op.mark]
  | none => []

def close (sum : Option OpenSum) (right : Phrase .product) : Phrase .sum :=
  match sum with
  | some s => .add s.left s.op s.at_ right
  | none => .term right

def erase (s : OpenSum) : Waiting :=
  ⟨s.left.tree, s.op.op, s.at_.place⟩

theorem tokens_close (sum : Option OpenSum) (right : Phrase .product) :
    (close sum right).tokens = tokens sum ++ right.tokens := by
  cases sum <;> simp [close, tokens, Phrase.tokens]

theorem tree_close (sum : Option OpenSum) (right : Phrase .product) :
    (close sum right).tree = Waiting.close (sum.map erase) right.tree := by
  cases sum <;> rfl

end OpenSum

namespace OpenProduct

def tokens (product : Option OpenProduct) : List Token :=
  match product with
  | some p => p.left.tokens ++ [p.at_.token p.op.mark]
  | none => []

def close (product : Option OpenProduct) (right : Phrase .signed) : Phrase .product :=
  match product with
  | some p => .multiply p.left p.op p.at_ right
  | none => .factor right

def erase (p : OpenProduct) : Waiting :=
  ⟨p.left.tree, p.op.op, p.at_.place⟩

theorem tokens_close (product : Option OpenProduct) (right : Phrase .signed) :
    (close product right).tokens = tokens product ++ right.tokens := by
  cases product <;> simp [close, tokens, Phrase.tokens]

theorem tree_close (product : Option OpenProduct) (right : Phrase .signed) :
    (close product right).tree = Waiting.close (product.map erase) right.tree := by
  cases product <;> rfl

end OpenProduct

namespace OpenLevel

def tokens (level : OpenLevel) : List Token :=
  OpenSum.tokens level.sum ++ OpenProduct.tokens level.product

def close (level : OpenLevel) (operand : Phrase .signed) : Phrase .sum :=
  OpenSum.close level.sum (OpenProduct.close level.product operand)

def erase (level : OpenLevel) : Level :=
  ⟨level.sum.map OpenSum.erase, level.product.map OpenProduct.erase⟩

theorem tokens_close (level : OpenLevel) (operand : Phrase .signed) :
    (level.close operand).tokens = level.tokens ++ operand.tokens := by
  simp [close, tokens, OpenSum.tokens_close, OpenProduct.tokens_close]

theorem tree_close (level : OpenLevel) (operand : Phrase .signed) :
    (level.close operand).tree = level.erase.close operand.tree := by
  simp [close, erase, Level.close, OpenSum.tree_close, OpenProduct.tree_close]

end OpenLevel

namespace SpelledSign

def tokens (sign : Option SpelledSign) : List Token :=
  match sign with
  | some (.plus s) => [s.token .plus]
  | some (.minus s) => [s.token .minus]
  | none => []

def apply (sign : Option SpelledSign) (operand : Phrase .operand) : Phrase .signed :=
  match sign with
  | some (.plus s) => .plus s operand
  | some (.minus s) => .minus s operand
  | none => .unsigned operand

def erase : SpelledSign → Sign
  | plus _ => .plus
  | minus s => .minus s.place

theorem tokens_apply (sign : Option SpelledSign) (operand : Phrase .operand) :
    (apply sign operand).tokens = tokens sign ++ operand.tokens := by
  rcases sign with _ | _ | _ <;> rfl

theorem tree_apply (sign : Option SpelledSign) (operand : Phrase .operand) :
    (apply sign operand).tree = Sign.apply (sign.map erase) operand.tree := by
  rcases sign with _ | _ | _ <;> rfl

end SpelledSign

namespace OpenGroup

/-- The tokens up to the innermost of some open parentheses. -/
def tokens : List OpenGroup → List Token
  | [] => []
  | g :: outer =>
      tokens outer ++ g.around.tokens ++ SpelledSign.tokens g.sign ++ [g.opening.token .opening]

def erase (g : OpenGroup) : Group :=
  ⟨g.opening.place, g.sign.map SpelledSign.erase, g.around.erase⟩

end OpenGroup

namespace Unfinished

def start : Unfinished :=
  operand none {} []

def tokens : Unfinished → List Token
  | operand sign level groups =>
      OpenGroup.tokens groups ++ level.tokens ++ SpelledSign.tokens sign
  | operator x level groups => OpenGroup.tokens groups ++ level.tokens ++ x.tokens

/-- The pending state with trees for the derivations. -/
def erase : Unfinished → Pending
  | operand sign level groups =>
      .operand (sign.map SpelledSign.erase) level.erase (groups.map OpenGroup.erase)
  | operator x level groups => .operator x.tree level.erase (groups.map OpenGroup.erase)

def extendSum (x : Phrase .signed) (level : OpenLevel) (groups : List OpenGroup) (op : SumOp)
    (at_ : Spelled) : Move :=
  .go (operand none { sum := some ⟨level.close x, op, at_⟩ } groups)

def extendProduct (x : Phrase .signed) (level : OpenLevel) (groups : List OpenGroup)
    (op : ProductOp) (at_ : Spelled) : Move :=
  .go (operand none
    { level with product := some ⟨OpenProduct.close level.product x, op, at_⟩ } groups)

def step : Unfinished → Token → Move
  | operand sign level groups, ⟨word, place⟩ =>
      match word, sign with
      | .number value, _ =>
          .go (operator (SpelledSign.apply sign (.number place value)) level groups)
      | .mark .opening spelling, _ =>
          .go (operand none {} (⟨⟨place, spelling⟩, sign, level⟩ :: groups))
      | .mark .plus spelling, none => .go (operand (some (.plus ⟨place, spelling⟩)) level groups)
      | .mark .minus spelling, none => .go (operand (some (.minus ⟨place, spelling⟩)) level groups)
      | _, _ => .refuse .operand
  | operator x level groups, ⟨word, place⟩ =>
      match word, groups with
      | .mark .plus spelling, _ => extendSum x level groups .plus ⟨place, spelling⟩
      | .mark .minus spelling, _ => extendSum x level groups .minus ⟨place, spelling⟩
      | .mark .star spelling, _ => extendProduct x level groups .times ⟨place, spelling⟩
      | .mark .slash spelling, _ => extendProduct x level groups .divide ⟨place, spelling⟩
      | .mark .closing spelling, g :: outer =>
          .go (operator (SpelledSign.apply g.sign
            (.group g.opening (level.close x) ⟨place, spelling⟩)) g.around outer)
      | .finish _, [] => .complete (level.close x)
      | _, _ => .refuse (Pending.expectedAfter (groups.map OpenGroup.erase))

end Unfinished

namespace Move

/-- The step of a pending state that a move stands for. -/
def erase : Move → Step
  | go next => .go next.erase
  | complete sentence => .complete sentence.tree
  | refuse expected => .refuse expected

end Move

namespace Unfinished

theorem extendSum_erase (x : Phrase .signed) (level : OpenLevel) (groups : List OpenGroup)
    (op : SumOp) (at_ : Spelled) :
    Pending.extendSum x.tree level.erase (groups.map OpenGroup.erase) op.op at_.place =
      (extendSum x level groups op at_).erase := by
  simp [Pending.extendSum, extendSum, Move.erase, erase, OpenLevel.erase, OpenSum.erase,
    OpenLevel.tree_close]

theorem extendProduct_erase (x : Phrase .signed) (level : OpenLevel) (groups : List OpenGroup)
    (op : ProductOp) (at_ : Spelled) :
    Pending.extendProduct x.tree level.erase (groups.map OpenGroup.erase) op.op at_.place =
      (extendProduct x level groups op at_).erase := by
  simp [Pending.extendProduct, extendProduct, Move.erase, erase, OpenLevel.erase,
    OpenProduct.erase, OpenProduct.tree_close]

/-- Derivations and trees make the same moves. -/
theorem step_erase (s : Unfinished) (token : Token) :
    s.erase.step token = (s.step token).erase := by
  obtain ⟨word, place⟩ := token
  cases s with
  | operand sign level groups =>
      cases word with
      | number value =>
          simp [erase, Pending.step, step, Move.erase, SpelledSign.tree_apply, Phrase.tree]
      | mark m spelling =>
          cases m <;> cases sign <;> rfl
      | finish spelling => rcases sign with _ | _ <;> rfl
  | operator x level groups =>
      cases word with
      | number value => cases groups <;> rfl
      | mark m spelling =>
          cases m with
          | plus => exact extendSum_erase x level groups .plus ⟨place, spelling⟩
          | minus => exact extendSum_erase x level groups .minus ⟨place, spelling⟩
          | star => exact extendProduct_erase x level groups .times ⟨place, spelling⟩
          | slash => exact extendProduct_erase x level groups .divide ⟨place, spelling⟩
          | opening => cases groups <;> rfl
          | closing =>
              cases groups with
              | nil => rfl
              | cons g outer =>
                  simp [erase, Pending.step, step, Move.erase, OpenGroup.erase,
                    SpelledSign.tree_apply, Phrase.tree, OpenLevel.tree_close]
      | finish spelling =>
          cases groups with
          | nil => simp [erase, Pending.step, step, Move.erase, OpenLevel.tree_close]
          | cons g outer => rfl

theorem tokens_extendSum {x : Phrase .signed} {level : OpenLevel} {groups : List OpenGroup}
    {op : SumOp} {at_ : Spelled} {next : Unfinished}
    (h : extendSum x level groups op at_ = .go next) :
    next.tokens = (operator x level groups).tokens ++ [at_.token op.mark] := by
  obtain rfl := Move.go.inj h
  simp [tokens, OpenLevel.tokens, OpenSum.tokens, OpenProduct.tokens, SpelledSign.tokens,
    OpenSum.tokens_close, OpenProduct.tokens_close, OpenLevel.close]

theorem tokens_extendProduct {x : Phrase .signed} {level : OpenLevel}
    {groups : List OpenGroup} {op : ProductOp} {at_ : Spelled} {next : Unfinished}
    (h : extendProduct x level groups op at_ = .go next) :
    next.tokens = (operator x level groups).tokens ++ [at_.token op.mark] := by
  obtain rfl := Move.go.inj h
  simp [tokens, OpenLevel.tokens, OpenProduct.tokens, SpelledSign.tokens,
    OpenProduct.tokens_close]

/-- A move forward adds just the token read. -/
theorem tokens_step {s next : Unfinished} {token : Token} (h : s.step token = .go next) :
    next.tokens = s.tokens ++ [token] := by
  obtain ⟨word, place⟩ := token
  cases s with
  | operand sign level groups =>
      cases word with
      | number value =>
          obtain rfl := Move.go.inj h
          simp [tokens, SpelledSign.tokens_apply, Phrase.tokens]
      | mark m spelling =>
          cases m with
          | opening =>
              obtain rfl := Move.go.inj h
              simp [tokens, OpenGroup.tokens, OpenLevel.tokens, OpenSum.tokens,
                OpenProduct.tokens, SpelledSign.tokens, Spelled.token]
          | plus =>
              cases sign with
              | none =>
                  obtain rfl := Move.go.inj h
                  simp [tokens, SpelledSign.tokens, Spelled.token]
              | some sign => simp [step] at h
          | minus =>
              cases sign with
              | none =>
                  obtain rfl := Move.go.inj h
                  simp [tokens, SpelledSign.tokens, Spelled.token]
              | some sign => simp [step] at h
          | star => simp [step] at h
          | slash => simp [step] at h
          | closing => simp [step] at h
      | finish spelling => simp [step] at h
  | operator x level groups =>
      cases word with
      | number value => simp [step] at h
      | mark m spelling =>
          cases m with
          | plus => exact tokens_extendSum h
          | minus => exact tokens_extendSum h
          | star => exact tokens_extendProduct h
          | slash => exact tokens_extendProduct h
          | opening => simp [step] at h
          | closing =>
              cases groups with
              | nil => simp [step] at h
              | cons g outer =>
                  obtain rfl := Move.go.inj h
                  simp [tokens, OpenGroup.tokens, SpelledSign.tokens_apply, Phrase.tokens,
                    OpenLevel.tokens_close, Spelled.token]
      | finish spelling => cases groups <;> simp [step] at h

/-- A sentence is complete where the end comes after an operand and no parenthesis is open. -/
theorem step_eq_complete {s : Unfinished} {token : Token} {sentence : Phrase .sum}
    (h : s.step token = .complete sentence) :
    token.isFinish = true ∧ ∃ x level, s = operator x level [] ∧ sentence = level.close x := by
  obtain ⟨word, place⟩ := token
  cases s with
  | operand sign level groups =>
      cases word with
      | number value => simp [step] at h
      | mark m spelling => cases m <;> cases sign <;> simp [step] at h
      | finish spelling => simp [step] at h
  | operator x level groups =>
      cases word with
      | number value => simp [step] at h
      | mark m spelling =>
          cases m <;> cases groups <;> simp [step, extendSum, extendProduct] at h
      | finish spelling =>
          cases groups with
          | nil => exact ⟨rfl, x, level, rfl, (Move.complete.inj h).symm⟩
          | cons g outer => simp [step] at h

theorem step_operator_finish (x : Phrase .signed) (level : OpenLevel) {token : Token}
    (h : token.isFinish = true) : (operator x level []).step token = .complete (level.close x) := by
  obtain ⟨word, place⟩ := token
  cases word with
  | finish spelling => rfl
  | number value => cases h
  | mark m spelling => cases h

/-- What is refused where an operand has to come is no operand, and a sign is refused there
only after another sign. -/
theorem step_eq_refuse {s : Unfinished} {token : Token} {expected : Expected}
    (h : s.step token = .refuse expected) :
    (∃ sign level groups, s = operand sign level groups ∧ expected = .operand ∧
      (token.isSign = true → sign.isSome = true)) ∨
    ∃ x level groups, s = operator x level groups ∧
      expected = Pending.expectedAfter (groups.map OpenGroup.erase) := by
  obtain ⟨word, place⟩ := token
  cases s with
  | operand sign level groups =>
      left
      refine ⟨sign, level, groups, rfl, ?_⟩
      cases sign with
      | some sign =>
          cases word with
          | number value => simp [step] at h
          | mark m spelling => cases m <;> simp_all [step]
          | finish spelling => simp_all [step]
      | none =>
          cases word with
          | number value => simp [step] at h
          | mark m spelling => cases m <;> simp_all [step, Token.isSign]
          | finish spelling => simp_all [step, Token.isSign]
  | operator x level groups =>
      right
      refine ⟨x, level, groups, rfl, ?_⟩
      cases word with
      | number value => exact (Move.refuse.inj h).symm
      | mark m spelling =>
          cases m <;> cases groups <;> simp_all [step, extendSum, extendProduct]
      | finish spelling => cases groups <;> simp_all [step]

end Unfinished

end ArithAsm
