/-
Runs of a labelled step relation.

A system is a relation `next s e s'`: from `s` it may step to `s'`, emitting
at most one event `e`.  `Run next s₀ tr s` says that some sequence of steps
leads from `s₀` to `s` and emits exactly the events `tr`, oldest first:

* `Run.invariant` — what holds at the start and is kept by every step holds
  after every run;
* `Run.split` — every event of a run was emitted by a step between two states
  of the run;
* `Before` — one event never occurs without another having occurred first
  (`before_of_run`, `Before.mem`);
* `execSchedule` — the run that a schedule picks, where the steps of every process
  can be computed (`execSchedule_run`).
-/
import Mathlib.Data.List.Basic

namespace Runs

variable {σ ε : Type*} {next : σ → Option ε → σ → Prop} {s₀ s s' : σ} {tr : List ε}

/-- Runs of `next` from `s₀`, with the events they emit. -/
inductive Run (next : σ → Option ε → σ → Prop) (s₀ : σ) : List ε → σ → Prop
  | nil : Run next s₀ [] s₀
  | snoc {tr : List ε} {e : Option ε} {s s' : σ} :
      Run next s₀ tr s → next s e s' → Run next s₀ (tr ++ e.toList) s'

/-- The invariant rule: the step may use that its source state was reached. -/
theorem Run.invariant {I : List ε → σ → Prop} (h0 : I [] s₀)
    (hstep : ∀ tr s e s', Run next s₀ tr s → I tr s → next s e s' → I (tr ++ e.toList) s')
    (h : Run next s₀ tr s) : I tr s := by
  induction h with
  | nil => exact h0
  | snoc hrun hnext ih => exact hstep _ _ _ _ hrun ih hnext

theorem Run.mono {next' : σ → Option ε → σ → Prop}
    (hsub : ∀ s e s', next s e s' → next' s e s') (h : Run next s₀ tr s) :
    Run next' s₀ tr s := by
  induction h with
  | nil => exact .nil
  | snoc _ hnext ih => exact .snoc ih (hsub _ _ _ hnext)

theorem Run.trans {tr' : List ε} (h : Run next s₀ tr s) (h' : Run next s tr' s') :
    Run next s₀ (tr ++ tr') s' := by
  induction h' with
  | nil => rwa [List.append_nil]
  | snoc _ hnext ih =>
    rw [← List.append_assoc]
    exact .snoc ih hnext

theorem Run.single {e : Option ε} (h : next s e s') : Run next s e.toList s' := by
  have hrun : Run next s ([] ++ e.toList) s' := .snoc .nil h
  rwa [List.nil_append] at hrun

/-- Cut a run at any of its events: the states before and after the step that
emitted it, and the rest of the run. -/
theorem Run.split (h : Run next s₀ tr s) :
    ∀ {t₁ : List ε} {e : ε} {t₂ : List ε}, tr = t₁ ++ e :: t₂ →
      ∃ s₁ s₂, Run next s₀ t₁ s₁ ∧ next s₁ (some e) s₂ ∧ Run next s₂ t₂ s := by
  induction h with
  | nil =>
    intro t₁ e t₂ htr
    simp at htr
  | @snoc tr o s s' hrun hnext ih =>
    intro t₁ e t₂ htr
    cases o with
    | none =>
      rw [Option.toList_none, List.append_nil] at htr
      obtain ⟨s₁, s₂, h1, h12, h2⟩ := ih htr
      exact ⟨s₁, s₂, h1, h12, by simpa using h2.snoc hnext⟩
    | some e' =>
      rw [Option.toList_some] at htr
      rcases List.eq_nil_or_concat t₂ with rfl | ⟨t₂', e'', rfl⟩
      · -- the last event of the run
        obtain ⟨rfl, he⟩ := List.append_inj' htr rfl
        obtain rfl : e' = e := by simpa using he
        exact ⟨s, s', hrun, hnext, .nil⟩
      · rw [List.concat_eq_append, ← List.cons_append, ← List.append_assoc] at htr
        obtain ⟨htr', he⟩ := List.append_inj' htr rfl
        obtain rfl : e' = e'' := by simpa using he
        obtain ⟨s₁, s₂, h1, h12, h2⟩ := ih htr'
        refine ⟨s₁, s₂, h1, h12, ?_⟩
        rw [List.concat_eq_append]
        exact h2.snoc hnext

/-- Whenever `b` occurs in the trace, `a` has occurred before it. -/
def Before (tr : List ε) (a b : ε) : Prop :=
  ∀ t₁ t₂, tr = t₁ ++ b :: t₂ → a ∈ t₁

theorem Before.mem {a b : ε} (h : Before tr a b) (hb : b ∈ tr) : a ∈ tr := by
  obtain ⟨t₁, t₂, rfl⟩ := List.append_of_mem hb
  exact List.mem_append_left _ (h t₁ t₂ rfl)

/-- To order two events it is enough to look at the states in which the second
one is emitted. -/
theorem before_of_run {a b : ε} (h : Run next s₀ tr s)
    (hb : ∀ t s₁ s₂, Run next s₀ t s₁ → next s₁ (some b) s₂ → a ∈ t) : Before tr a b := by
  intro t₁ t₂ htr
  obtain ⟨s₁, s₂, h1, h12, -⟩ := h.split htr
  exact hb t₁ s₁ s₂ h1 h12

/-- An event of a run is emitted in some reached state. -/
theorem Run.exists_step {e : ε} (h : Run next s₀ tr s) (he : e ∈ tr) :
    ∃ t s₁ s₂, Run next s₀ t s₁ ∧ next s₁ (some e) s₂ := by
  obtain ⟨t₁, t₂, htr⟩ := List.append_of_mem he
  obtain ⟨s₁, s₂, h1, h12, -⟩ := h.split htr
  exact ⟨t₁, s₁, s₂, h1, h12⟩

/-! ### Schedules -/

section Schedule

variable {ι : Type*} {step : ι → σ → Option (Option ε × σ)}

/-- Let the processes step in the order of a schedule.  A process that cannot
step loses its turn. -/
def execSchedule (step : ι → σ → Option (Option ε × σ)) : List ι → List ε × σ → List ε × σ
  | [], r => r
  | c :: cs, (tr, s) =>
    match step c s with
    | none => execSchedule step cs (tr, s)
    | some (e, s') => execSchedule step cs (tr ++ e.toList, s')

/-- What a schedule picks is a run, if its processes take steps of the system only. -/
theorem execSchedule_run {cs : List ι}
    (hstep : ∀ c ∈ cs, ∀ s e s', step c s = some (e, s') → next s e s') :
    ∀ {tr : List ε} {s : σ}, Run next s₀ tr s →
      Run next s₀ (execSchedule step cs (tr, s)).1 (execSchedule step cs (tr, s)).2 := by
  induction cs with
  | nil =>
    intro tr s h
    exact h
  | cons c cs ih =>
    intro tr s h
    have hrest : ∀ c' ∈ cs, ∀ s e s', step c' s = some (e, s') → next s e s' :=
      fun c' hc' => hstep c' (List.mem_cons_of_mem c hc')
    rw [execSchedule]
    split
    · exact ih hrest h
    · next e s' hs => exact ih hrest (h.snoc (hstep c List.mem_cons_self _ _ _ hs))

end Schedule

end Runs
