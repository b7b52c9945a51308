import Mathlib.Logic.Basic

/-!
# Attempts

Steps that change a state and may fail, the state then staying as far as they came.  One step after
another fails with the first, or goes on from where the first has led.
-/

namespace ArithAsm.Attempt

variable {ε σ α β : Type} {first : ExceptT ε (StateM σ) α} {next : α → ExceptT ε (StateM σ) β}
  {s between after : σ} {a : α} {b : β} {fault : ε}

theorem run_bind (first : ExceptT ε (StateM σ) α) (next : α → ExceptT ε (StateM σ) β) (s : σ) :
    (first >>= next).run.run s =
      match first.run.run s with
      | (.ok a, between) => (next a).run.run between
      | (.error fault, after) => (.error fault, after) := by
  rw [ExceptT.run_bind, StateT.run_bind]
  generalize first.run.run s = outcome
  obtain ⟨result, after⟩ := outcome
  cases result <;> rfl

theorem run_get (s : σ) : (get : ExceptT ε (StateM σ) σ).run.run s = (.ok s, s) := rfl

theorem run_set (s' s : σ) :
    (set s' : ExceptT ε (StateM σ) PUnit).run.run s = (.ok ⟨⟩, s') := rfl

theorem run_bind_of_ok (h : first.run.run s = (.ok a, between)) :
    (first >>= next).run.run s = (next a).run.run between := by
  rw [run_bind, h]

theorem run_bind_of_error (h : first.run.run s = (.error fault, after)) :
    (first >>= next).run.run s = (.error fault, after) := by
  rw [run_bind, h]

/-- Of two steps the first one fails, or the second one goes on from where the first has led. -/
theorem run_bind_cases {result : Except ε β} (h : (first >>= next).run.run s = (result, after)) :
    (∃ fault, first.run.run s = (.error fault, after) ∧ result = .error fault) ∨
      ∃ a between, first.run.run s = (.ok a, between) ∧
        (next a).run.run between = (result, after) := by
  rw [run_bind] at h
  rcases hfirst : first.run.run s with ⟨outcome, between⟩
  rw [hfirst] at h
  cases outcome with
  | error fault =>
      cases h
      exact .inl ⟨fault, rfl, rfl⟩
  | ok a => exact .inr ⟨a, between, rfl, h⟩

theorem exists_of_run_bind (h : (first >>= next).run.run s = (.ok b, after)) :
    ∃ a between, first.run.run s = (.ok a, between) ∧
      (next a).run.run between = (.ok b, after) := by
  rcases run_bind_cases h with ⟨fault, -, hresult⟩ | hboth
  · cases hresult
  · exact hboth

/-- Whether a step fails, and how, does not depend on the state. -/
def Ends (step : ExceptT ε (StateM σ) α) : Option ε → Prop
  | none => ∀ s, ∃ a after, step.run.run s = (.ok a, after)
  | some fault => ∀ s, ∃ after, step.run.run s = (.error fault, after)

namespace Ends

theorem pure (a : α) : Ends (pure a : ExceptT ε (StateM σ) α) none :=
  fun s ↦ ⟨a, s, rfl⟩

theorem throw (fault : ε) : Ends (throw fault : ExceptT ε (StateM σ) α) (some fault) :=
  fun s ↦ ⟨s, rfl⟩

theorem get : Ends (get : ExceptT ε (StateM σ) σ) none :=
  fun s ↦ ⟨s, s, rfl⟩

theorem set (s : σ) : Ends (set s : ExceptT ε (StateM σ) PUnit) none :=
  fun _ ↦ ⟨⟨⟩, s, rfl⟩

theorem modify (f : σ → σ) : Ends (modify f : ExceptT ε (StateM σ) PUnit) none :=
  fun s ↦ ⟨⟨⟩, f s, rfl⟩

theorem bind {f g : Option ε} (hf : Ends first f) (hg : ∀ a, Ends (next a) g) :
    Ends (first >>= next) (f.or g) := by
  cases f with
  | some fault =>
      intro s
      obtain ⟨after, h⟩ := hf s
      exact ⟨after, run_bind_of_error h⟩
  | none =>
      cases g with
      | none =>
          intro s
          obtain ⟨a, between, h⟩ := hf s
          obtain ⟨b, after, h'⟩ := hg a between
          exact ⟨b, after, (run_bind_of_ok h).trans h'⟩
      | some fault =>
          intro s
          obtain ⟨a, between, h⟩ := hf s
          obtain ⟨after, h'⟩ := hg a between
          exact ⟨after, (run_bind_of_ok h).trans h'⟩

theorem fst_run_eq_error (h : Ends first (some fault)) (s : σ) :
    (first.run.run s).1 = .error fault := by
  obtain ⟨after, hrun⟩ := h s
  rw [hrun]

end Ends

end ArithAsm.Attempt
