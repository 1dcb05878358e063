/-
Tasks that sleep across a change of the code that they sleep in.

Two versions of a function put tasks to sleep, and one end wakes all of them up.  Which
version is in use may change at any time, and a sleeping task is not told.  The machine
states and the three pieces of code are arbitrary.

* `wakes_iff` — every task of every run wakes up well exactly if each version goes together
  with the end.
-/
import Mathlib.Logic.Function.Basic
import Plugsched.Runs

open Runs

namespace SleepWake

/-- A change of the version, the call of the function by a task in state `s₀`, and its return
to the state `s₁` from a call in `s₀`. -/
inductive Event (τ σ : Type*) where
  | update
  | sleep (t : τ) (s₀ : σ)
  | wake (t : τ) (s₀ s₁ : σ)

/-- The tasks: with the state that each sleeping one called the function in, and the state that
was saved. -/
structure Sleepers (τ σ : Type*) where
  installed : Bool
  asleep : τ → Option (σ × σ)

variable {τ σ : Type*}

/-- The first version is in use and nobody sleeps. -/
def Sleepers.start (τ σ : Type*) : Sleepers τ σ := ⟨false, fun _ => none⟩

/-- What can happen.  An update does not wait for the tasks that sleep. -/
inductive Switches [DecidableEq τ] (enter : Bool → σ → σ → Prop) (resume : σ → σ → Prop)
    (w : Sleepers τ σ) : Option (Event τ σ) → Sleepers τ σ → Prop
  | update : Switches enter resume w (some .update) { w with installed := !w.installed }
  | sleep {t : τ} {s₀ s : σ} (hawake : w.asleep t = none) (henter : enter w.installed s₀ s) :
      Switches enter resume w (some (.sleep t s₀))
        { w with asleep := Function.update w.asleep t (some (s₀, s)) }
  | wake {t : τ} {s₀ s s₁ : σ} (hasleep : w.asleep t = some (s₀, s)) (hresume : resume s s₁) :
      Switches enter resume w (some (.wake t s₀ s₁))
        { w with asleep := Function.update w.asleep t none }

section Wakes

variable [DecidableEq τ] {enter : Bool → σ → σ → Prop} {resume : σ → σ → Prop}
  {tr : List (Event τ σ)} {w : Sleepers τ σ}

/-- A sleeping task has entered one of the versions. -/
theorem entered_of_asleep (h : Run (Switches enter resume) (Sleepers.start τ σ) tr w) {t : τ}
    {s₀ s : σ} (hasleep : w.asleep t = some (s₀, s)) : ∃ installed, enter installed s₀ s := by
  refine h.invariant
    (I := fun _ w => ∀ t s₀ s, w.asleep t = some (s₀, s) → ∃ installed, enter installed s₀ s)
    ?_ ?_ t s₀ s hasleep
  · intro t s₀ s hstart
    cases hstart
  · rintro tr w e w' _ ih hstep t s₀ s hasleep
    cases hstep with
    | update => exact ih t s₀ s hasleep
    | @sleep t' s₀' s' hawake henter =>
      dsimp only at hasleep
      by_cases ht : t = t'
      · rw [ht, Function.update_self] at hasleep
        cases hasleep
        exact ⟨_, henter⟩
      · rw [Function.update_of_ne ht] at hasleep
        exact ih t s₀ s hasleep
    | @wake t' s₀' s' s₁ hold hresume =>
      dsimp only at hasleep
      by_cases ht : t = t'
      · rw [ht, Function.update_self] at hasleep
        cases hasleep
      · rw [Function.update_of_ne ht] at hasleep
        exact ih t s₀ s hasleep

/-- Either version can be in use while nobody sleeps. -/
theorem exists_installed (τ : Type*) [DecidableEq τ] (enter : Bool → σ → σ → Prop)
    (resume : σ → σ → Prop) (installed : Bool) :
    ∃ tr, Run (Switches enter resume) (Sleepers.start τ σ) tr ⟨installed, fun _ => none⟩ := by
  cases installed with
  | false => exact ⟨[], .nil⟩
  | true => exact ⟨_, Run.nil.snoc .update⟩

/-- Whatever the tasks do and whenever the version changes, every task wakes up well, exactly
if the end goes together with each of the versions. -/
theorem wakes_iff [Inhabited τ] (good : σ → σ → Prop) :
    (∀ tr w, Run (Switches enter resume) (Sleepers.start τ σ) tr w →
      ∀ t s₀ s₁, Event.wake t s₀ s₁ ∈ tr → good s₀ s₁) ↔
      ∀ installed s₀ s s₁, enter installed s₀ s → resume s s₁ → good s₀ s₁ := by
  constructor
  · intro h installed s₀ s s₁ henter hresume
    obtain ⟨tr, hrun⟩ := exists_installed τ enter resume installed
    have hsleep := hrun.snoc (Switches.sleep (t := default) rfl henter)
    have hwake := hsleep.snoc (Switches.wake (Function.update_self default _ _) hresume)
    exact h _ _ hwake default s₀ s₁ (by simp)
  · intro h tr w hrun t s₀ s₁ hmem
    obtain ⟨tr₁, w₁, w₂, hrun₁, hstep⟩ := hrun.exists_step hmem
    cases hstep with
    | @wake _ _ s _ hasleep hresume =>
      obtain ⟨installed, henter⟩ := entered_of_asleep hrun₁ hasleep
      exact h installed s₀ s s₁ henter hresume

end Wakes

end SleepWake
