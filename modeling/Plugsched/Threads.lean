/-
Threads on shared data, and what one of them may rely on.

A `System` says how each thread makes its next step from where it is, on data
that all threads share; besides, an environment may change the data.  The steps
of the threads interleave freely.

A thread is *busy* while it is at certain places.  `Owned` says that at most one
thread is busy, that the data is as the busy thread left it (`Own`), and that it
is in order (`Free`) when no thread is busy:

* `Owned.step_alone` — a step of a thread while no other is busy;
* `Owned.step_aside` — a step of a thread that is not busy and does not become so;
* `Owned.env` — a step of the environment.

`solo` runs one thread without the others.
-/
import Mathlib.Logic.Function.Basic
import Plugsched.Runs

open Runs

namespace Threads

variable {ι π δ : Type*}

/-- The threads are named by `ι`, their places are in `π`, the data is in `δ`. -/
structure System (ι π δ : Type*) where
  step : ι → π → δ → Option (π × δ)
  env : δ → δ → Prop

structure State (ι π δ : Type*) where
  pc : ι → π
  data : δ

section Steps

variable [DecidableEq ι]

/-- Thread `c` comes to `p` and leaves the data `d`. -/
def State.move (s : State ι π δ) (c : ι) (p : π) (d : δ) : State ι π δ :=
  { pc := Function.update s.pc c p, data := d }

theorem State.move_pc (s : State ι π δ) (c : ι) (p : π) (d : δ) : (s.move c p d).pc c = p := by
  simp [State.move]

theorem State.move_pc_of_ne (s : State ι π δ) {c c' : ι} (h : c' ≠ c) (p : π) (d : δ) :
    (s.move c p d).pc c' = s.pc c' := by
  simp [State.move, Function.update_of_ne h]

/-- The steps of the system; a step of a thread has its name as its event. -/
inductive Next (S : System ι π δ) : State ι π δ → Option ι → State ι π δ → Prop
  | thread {s : State ι π δ} {c : ι} {p : π} {d : δ}
      (h : S.step c (s.pc c) s.data = some (p, d)) : Next S s (some c) (s.move c p d)
  | env {s : State ι π δ} {d : δ} (h : S.env s.data d) : Next S s none { s with data := d }

/-- Let the threads step in the order of a schedule; one that cannot is passed over. -/
def exec (S : System ι π δ) : List ι → List ι × State ι π δ → List ι × State ι π δ :=
  execSchedule fun c s =>
    (S.step c (s.pc c) s.data).map fun r => (some c, s.move c r.1 r.2)

theorem exec_cons_none {S : System ι π δ} {c : ι} {s : State ι π δ}
    (h : S.step c (s.pc c) s.data = none) (cs tr : List ι) :
    exec S (c :: cs) (tr, s) = exec S cs (tr, s) := by
  simp [exec, execSchedule, h]

theorem exec_cons_some {S : System ι π δ} {c : ι} {s : State ι π δ} {p : π} {d : δ}
    (h : S.step c (s.pc c) s.data = some (p, d)) (cs tr : List ι) :
    exec S (c :: cs) (tr, s) = exec S cs (tr ++ [c], s.move c p d) := by
  simp [exec, execSchedule, h]

theorem exec_run {S : System ι π δ} {s₀ : State ι π δ} (cs : List ι) {tr : List ι}
    {s : State ι π δ} (h : Run (Next S) s₀ tr s) :
    Run (Next S) s₀ (exec S cs (tr, s)).1 (exec S cs (tr, s)).2 := by
  refine execSchedule_run ?_ h
  intro c _ s e s' hstep
  obtain ⟨r, hr, heq⟩ := Option.map_eq_some_iff.mp hstep
  cases heq
  exact .thread hr

end Steps

/-- One thread on its own, for at most `n` steps. -/
def solo (S : System ι π δ) (c : ι) : ℕ → π × δ → π × δ
  | 0, r => r
  | n + 1, (p, d) =>
    match S.step c p d with
    | none => (p, d)
    | some r => solo S c n r

theorem solo_add (S : System ι π δ) (c : ι) (n m : ℕ) (r : π × δ) :
    solo S c (n + m) r = solo S c m (solo S c n r) := by
  induction n generalizing r with
  | zero => rw [Nat.zero_add, solo]
  | succ n ih =>
    obtain ⟨p, d⟩ := r
    rw [Nat.succ_add, solo, solo]
    cases hstep : S.step c p d with
    | some r => exact ih r
    | none =>
      -- a thread that cannot step stays
      cases m with
      | zero => rfl
      | succ m =>
        show (p, d) = solo S c (m + 1) (p, d)
        rw [solo, hstep]

/-! ### Critical sections -/

/-- At most one thread is busy; it knows `Own` about the data, and `Free` holds
while there is none. -/
structure Owned (busy : π → Prop) (Own : π → δ → Prop) (Free : δ → Prop) (s : State ι π δ) :
    Prop where
  alone : ∀ c c', busy (s.pc c) → busy (s.pc c') → c = c'
  own : ∀ c, busy (s.pc c) → Own (s.pc c) s.data
  free : (∀ c, ¬ busy (s.pc c)) → Free s.data

variable {busy : π → Prop} {Own : π → δ → Prop} {Free : δ → Prop} {s : State ι π δ} {c : ι}
  {p : π} {d : δ}

theorem Owned.others (h : Owned busy Own Free s) (hc : busy (s.pc c)) :
    ∀ c' ≠ c, ¬ busy (s.pc c') :=
  fun c' hne hc' => hne (h.alone c' c hc' hc)

/-- What the environment changes must not touch what is known. -/
theorem Owned.env (h : Owned busy Own Free s)
    (hkeep : ∀ c, busy (s.pc c) → Own (s.pc c) s.data → Own (s.pc c) d)
    (hfree : Free s.data → Free d) :
    Owned busy Own Free { s with data := d } :=
  ⟨h.alone, fun c hc => hkeep c hc (h.own c hc), fun hnone => hfree (h.free hnone)⟩

variable [DecidableEq ι]

/-- A thread that steps while no other one is busy has to leave the data in order,
or to stay busy and know what it left. -/
theorem Owned.step_alone (hothers : ∀ c' ≠ c, ¬ busy (s.pc c')) (hown : busy p → Own p d)
    (hfree : ¬ busy p → Free d) : Owned busy Own Free (s.move c p d) := by
  -- after the step only `c` itself can be busy
  have hbusy : ∀ c', busy ((s.move c p d).pc c') → c' = c := by
    intro c' hc'
    by_contra hne
    rw [State.move_pc_of_ne s hne] at hc'
    exact hothers c' hne hc'
  refine ⟨fun c₁ c₂ h₁ h₂ => (hbusy c₁ h₁).trans (hbusy c₂ h₂).symm, fun c' hc' => ?_,
    fun hnone => ?_⟩
  · obtain rfl := hbusy c' hc'
    rw [State.move_pc] at hc' ⊢
    exact hown hc'
  · have hc := hnone c
    rw [State.move_pc] at hc
    exact hfree hc

/-- A thread that is not busy and does not become so only has to keep what others
may know. -/
theorem Owned.step_aside (h : Owned busy Own Free s) (hc : ¬ busy (s.pc c)) (hp : ¬ busy p)
    (hkeep : ∀ q, Own q s.data → Own q d) (hfree : Free s.data → Free d) :
    Owned busy Own Free (s.move c p d) := by
  -- after the step the same threads are busy, at the same places
  have hpc : ∀ c', busy ((s.move c p d).pc c') →
      busy (s.pc c') ∧ (s.move c p d).pc c' = s.pc c' := by
    intro c' hc'
    by_cases hne : c' = c
    · subst hne
      rw [State.move_pc] at hc'
      exact absurd hc' hp
    · rw [State.move_pc_of_ne s hne] at hc' ⊢
      exact ⟨hc', rfl⟩
  refine ⟨fun c₁ c₂ h₁ h₂ => h.alone c₁ c₂ (hpc c₁ h₁).1 (hpc c₂ h₂).1, fun c' hc' => ?_,
    fun hnone => ?_⟩
  · rw [(hpc c' hc').2]
    exact hkeep _ (h.own c' (hpc c' hc').1)
  · refine hfree (h.free fun c' hc' => ?_)
    by_cases hne : c' = c
    · subst hne
      exact hc hc'
    · refine hnone c' ?_
      rwa [State.move_pc_of_ne s hne]

end Threads
