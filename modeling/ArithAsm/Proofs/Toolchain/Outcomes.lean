import ArithAsm.Toolchain.World
import Mathlib.Algebra.Order.Field.Rat
import Mathlib.Tactic.NormNum
import Mathlib.Tactic.Ring

/-!
# What is seen of a command

Where time limits are not heeded, a command is seen as it ends.  Where they are, it may be
impossible to wait for it, or it may be stopped at once.  An output that is to be read as text and
is none keeps the ending from being seen, too.
-/

namespace ArithAsm

namespace Binary64

/-- A system cannot wait up to this limit: it is no number, it is infinite, or it exceeds the
milliseconds that the system waits at the longest. -/
def Unwaitable (longest : Nat) : Binary64 → Prop
  | notANumber => True
  | infinite negative => negative = false
  | finite negative mantissa exponent =>
      negative = false ∧ (longest : ℚ) < 1000 * (mantissa * 2 ^ exponent)

/-- The exact milliseconds as a quotient of natural numbers. -/
theorem mul_two_zpow_eq_div (mantissa : Nat) (exponent : Int) :
    (1000 * (mantissa * 2 ^ exponent) : ℚ) =
      ((1000 * mantissa) <<< exponent.toNat : Nat) / (1 <<< (-exponent).toNat : Nat) := by
  have hexponent : exponent = exponent.toNat - (-exponent).toNat := by omega
  have hpower : (2 : ℚ) ^ exponent = 2 ^ exponent.toNat / 2 ^ (-exponent).toNat := by
    conv_lhs => rw [hexponent, zpow_sub₀ two_ne_zero, zpow_natCast, zpow_natCast]
  rw [Nat.shiftLeft_eq, Nat.shiftLeft_eq, one_mul, hpower]
  push_cast
  ring

/-- Milliseconds are rounded up, so they are within a bound just if the exact ones are. -/
theorem milliseconds_le_iff {mantissa longest : Nat} {exponent : Int} :
    milliseconds mantissa exponent ≤ longest ↔
      (1000 * (mantissa * 2 ^ exponent) : ℚ) ≤ longest := by
  have hden : 0 < 1 <<< (-exponent).toNat := by
    rw [Nat.shiftLeft_eq, one_mul]
    exact Nat.two_pow_pos _
  have hrat : (0 : ℚ) < (1 <<< (-exponent).toNat : Nat) := Nat.cast_pos.mpr hden
  rw [mul_two_zpow_eq_div, div_le_iff₀ hrat, milliseconds, Nat.div_le_iff_le_mul_add_pred hden,
    Nat.add_le_add_iff_right, Nat.mul_comm (1 <<< _)]
  norm_cast

theorem isSome_waitFault?_iff {longest : Nat} {limit : Binary64} :
    (limit.waitFault? longest).isSome ↔ limit.Unwaitable longest := by
  cases limit with
  | notANumber => simp [waitFault?, Unwaitable]
  | infinite negative => cases negative <;> simp [waitFault?, Unwaitable]
  | finite negative mantissa exponent =>
      cases negative with
      | true => simp [waitFault?, Unwaitable]
      | false =>
          change (waitFault? longest (finite false mantissa exponent)).isSome ↔
            false = false ∧ (longest : ℚ) < 1000 * (mantissa * 2 ^ exponent)
          rw [← not_le, ← milliseconds_le_iff]
          by_cases htime : milliseconds mantissa exponent ≤ longest
          · simp [waitFault?, htime]
          · by_cases hmax : milliseconds mantissa exponent ≤ maxTime <;>
              simp [waitFault?, htime, hmax]

instance (longest : Nat) : DecidablePred (Unwaitable longest) :=
  fun _ ↦ decidable_of_iff _ isSome_waitFault?_iff

/-- A number is to blame where the system cannot wait. -/
theorem exists_of_waitFault?_eq_some {longest : Nat} {limit : Binary64} {failure : Failure}
    (h : limit.waitFault? longest = some failure) :
    ∃ message, failure = .badValue message ∨ failure = .overflow message := by
  unfold waitFault? at h
  split at h
  · exact ⟨_, .inl (Option.some_inj.mp h).symm⟩
  · cases h
  · exact ⟨_, .inr (Option.some_inj.mp h).symm⟩
  · cases h
  · dsimp only at h
    split at h
    · cases h
    · split at h <;> exact ⟨_, .inr (Option.some_inj.mp h).symm⟩

end Binary64

namespace Command

theorem awaited_some (command : Command) (longest : Nat) (ending : Ending Output) :
    command.awaited (some longest) ending =
      match command.timeout.waitFault? longest with
      | some failure => .error failure
      | none => .ok (if command.timeout.isPositive then ending else .timedOut) := rfl

variable {command : Command} {longestWait : Option Nat} {longest : Nat} {status : Int}
  {output : Output} {errors : String} {ending : Ending Output} {failure : Failure}

theorem eq_of_awaited_ok {seen : Ending Output}
    (h : command.awaited longestWait ending = .ok seen) : seen = ending ∨ seen = .timedOut := by
  unfold awaited at h
  split at h
  · cases h
    exact .inl rfl
  · split at h
    · cases h
    · cases h
      split
      · exact .inl rfl
      · exact .inr rfl

theorem exists_of_reading_exit (h : command.reading ending = .ok (.exit status errors)) :
    ∃ output, ending = .exit status output := by
  cases ending with
  | exit ended output =>
      refine ⟨output, ?_⟩
      unfold reading at h
      dsimp only at h
      split at h
      · cases output <;> cases h
        rfl
      · cases h
        rfl
  | timedOut => cases h
  | refused code reason => cases h

/-- A command that is seen to end with a status has done so. -/
theorem exists_of_outcome_exit
    (h : command.outcome longestWait ending = .ok (.exit status errors)) :
    ∃ output, ending = .exit status output := by
  unfold outcome at h
  split at h
  · cases h
  · cases hseen : command.awaited longestWait ending with
    | error failure =>
        rw [hseen] at h
        cases h
    | ok seen =>
        rw [hseen] at h
        obtain ⟨output, rfl⟩ := exists_of_reading_exit h
        rcases eq_of_awaited_ok hseen with rfl | hstopped
        · exact ⟨output, rfl⟩
        · cases hstopped

theorem exists_of_awaited_error (h : command.awaited longestWait ending = .error failure) :
    ∃ message, failure = .badValue message ∨ failure = .overflow message := by
  unfold awaited at h
  split at h
  · cases h
  · split at h
    · rename_i hfault
      cases h
      exact Binary64.exists_of_waitFault?_eq_some hfault
    · cases h

theorem exists_of_reading_error (h : command.reading ending = .error failure) :
    ∃ message, failure = .badValue message := by
  cases ending with
  | exit status output =>
      unfold reading at h
      dsimp only at h
      split at h
      · cases output <;> cases h
        exact ⟨_, rfl⟩
      · cases h
  | timedOut => cases h
  | refused code reason => cases h

/-- Where an ending cannot be seen, a number or an output is to blame. -/
theorem exists_of_outcome_error (h : command.outcome longestWait ending = .error failure) :
    ∃ message, failure = .badValue message ∨ failure = .overflow message := by
  unfold outcome at h
  split at h
  · cases h
  · cases hseen : command.awaited longestWait ending with
    | error fault =>
        rw [hseen] at h
        cases h
        exact exists_of_awaited_error hseen
    | ok seen =>
        rw [hseen] at h
        obtain ⟨message, rfl⟩ := exists_of_reading_error h
        exact ⟨message, .inl rfl⟩

end Command

namespace World

/-- The system cannot wait up to a time limit. -/
def CannotWait (world : World) (limit : Binary64) : Prop :=
  ∃ longest, world.longestWait = some longest ∧ limit.Unwaitable longest

/-- The system stops a command at once, for a time limit that leaves no time. -/
def StopsAtOnce (world : World) (limit : Binary64) : Prop :=
  world.longestWait.isSome ∧ limit.isPositive = false

instance (world : World) : DecidablePred world.CannotWait :=
  fun limit ↦ inferInstanceAs (Decidable (∃ longest ∈ world.longestWait, limit.Unwaitable longest))

instance (world : World) : DecidablePred world.StopsAtOnce :=
  fun _ ↦ inferInstanceAs (Decidable (_ ∧ _))

variable {world : World} {status : Int} {output : Output}

theorem outcome_of_exit (h : world.nextEnding = .exit status output) (command : Command) :
    world.outcome command =
      (command.awaited world.longestWait (.exit status output)).bind command.reading := by
  unfold World.outcome
  rw [h]
  rfl

theorem outcome_of_cannotWait (command : Command)
    (hwait : world.CannotWait command.timeout) (h : world.nextEnding = .exit status output) :
    ∃ failure, world.outcome command = .error failure := by
  obtain ⟨longest, hlongest, hunwaitable⟩ := hwait
  obtain ⟨failure, hfault⟩ :=
    Option.isSome_iff_exists.mp (Binary64.isSome_waitFault?_iff.mpr hunwaitable)
  refine ⟨failure, ?_⟩
  rw [outcome_of_exit h, hlongest, Command.awaited_some, hfault]
  rfl

theorem waitFault?_eq_none {longest : Nat} {limit : Binary64} (hwait : ¬ world.CannotWait limit)
    (hlongest : world.longestWait = some longest) : limit.waitFault? longest = none := by
  rw [← Option.not_isSome_iff_eq_none, Binary64.isSome_waitFault?_iff]
  exact fun hunwaitable ↦ hwait ⟨longest, hlongest, hunwaitable⟩

theorem outcome_of_stopsAtOnce (command : Command) (hwait : ¬ world.CannotWait command.timeout)
    (hstop : world.StopsAtOnce command.timeout) (h : world.nextEnding = .exit status output) :
    world.outcome command = .ok .timedOut := by
  obtain ⟨hsome, hover⟩ := hstop
  obtain ⟨longest, hlongest⟩ := Option.isSome_iff_exists.mp hsome
  rw [outcome_of_exit h, hlongest, Command.awaited_some, waitFault?_eq_none hwait hlongest, hover]
  rfl

/-- Where no time limit is heeded, or there is time to wait, the ending is read. -/
theorem outcome_of_kept (command : Command) (hwait : ¬ world.CannotWait command.timeout)
    (hkept : ¬ world.StopsAtOnce command.timeout) (h : world.nextEnding = .exit status output) :
    world.outcome command = command.reading (.exit status output) := by
  rw [outcome_of_exit h]
  cases hlongest : world.longestWait with
  | none => rfl
  | some longest =>
      have hpositive : command.timeout.isPositive = true := by
        by_contra hover
        exact hkept ⟨by rw [hlongest]; rfl, Bool.eq_false_iff.mpr hover⟩
      rw [Command.awaited_some, waitFault?_eq_none hwait hlongest, hpositive]
      rfl

end World

end ArithAsm
