/-!
# Integers in decimal

An integer is written in decimal as long as its digits are not too many, and digits are read under
the same condition.
-/

namespace ArithAsm

/-- The most digits that an integer is written with, or read from. -/
def maxDigits : Nat := 4300

/-- Whether an integer has no more digits than can be written.  A sign is none of them. -/
def IsShort (n : Int) : Prop :=
  (Nat.toDigits 10 n.natAbs).length ≤ maxDigits

instance (n : Int) : Decidable (IsShort n) :=
  inferInstanceAs (Decidable (_ ≤ _))

theorem length_toDigits_le_iff {n digits : Nat} (hdigits : 0 < digits) :
    (Nat.toDigits 10 n).length ≤ digits ↔ n < Nat.pow 10 digits :=
  Nat.length_toDigits_le_iff (by decide) hdigits

theorem isShort_iff {n : Int} : IsShort n ↔ n.natAbs < Nat.pow 10 maxDigits :=
  length_toDigits_le_iff (by decide)

theorem pow_ten_le {few many : Nat} (h : few ≤ many) : Nat.pow 10 few ≤ Nat.pow 10 many :=
  Nat.pow_le_pow_right (by decide) h

/-- Numbers of up to nineteen digits are short. -/
theorem isShort_of_natAbs_lt {n : Int} (h : n.natAbs < 10000000000000000000) : IsShort n := by
  have hpower : Nat.pow 10 19 = 10000000000000000000 := rfl
  rw [← hpower] at h
  exact isShort_iff.mpr (Nat.lt_of_lt_of_le h (pow_ten_le (by decide)))

/-- The least number that is too long. -/
def leastLong : Int :=
  Int.ofNat (Nat.pow 10 maxDigits)

theorem not_isShort_leastLong : ¬ IsShort leastLong := by
  have habs : ∀ n : Nat, (Int.ofNat n).natAbs = n := fun _ ↦ rfl
  rw [isShort_iff, leastLong, habs]
  exact Nat.lt_irrefl _

/-- An integer that can be written. -/
structure Constant where
  value : Int
  short : IsShort value
deriving DecidableEq

namespace Constant

instance : Inhabited Constant := ⟨⟨0, by decide⟩⟩

def of? (n : Int) : Option Constant :=
  if h : IsShort n then some ⟨n, h⟩ else none

def text (c : Constant) : String :=
  toString c.value

@[simp] theorem of?_value (c : Constant) : of? c.value = some c :=
  dif_pos c.short

theorem of?_eq_some_iff {n : Int} {c : Constant} : of? n = some c ↔ c.value = n := by
  constructor
  · intro h
    unfold of? at h
    split at h
    · cases h
      rfl
    · cases h
  · rintro rfl
    exact of?_value c

theorem of?_eq_none_iff {n : Int} : of? n = none ↔ ¬ IsShort n := by
  unfold of?
  split <;> simp_all

end Constant

end ArithAsm
