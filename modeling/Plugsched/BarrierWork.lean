/-
Barrier programs whose phases work on shared data.

A `Body` says how a process makes progress inside a phase: the progress it
begins with, one atomic step on the shared data, and when it is through.  The
steps of different processes inside their phases interleave freely; a process
ends a phase only when it is through with it.

* `working_bar` — without the data this is a run of the barrier program;
* `work_eq_none` — a phase that is not begun has no progress;
* `work_done` — a phase that lies behind a process is through;
* `Working.invariant` — the invariant rule for progress and data.
-/
import Plugsched.BarrierVote

open Runs

namespace BarrierProgram

variable {ι κ φ ω δ : Type*}

/-- The code of the phases. -/
structure Body (ι φ ω δ : Type*) where
  enter : φ → ω
  step : ι → φ → ω → δ → ω × δ
  done : ω → Bool

/-- A barrier program at work: each process has its own progress in each phase
it has begun. -/
structure WorkState (ι κ φ ω δ : Type*) where
  bar : State ι κ
  work : ι → φ → Option ω
  data : δ

section Work

variable [DecidableEq ι] [DecidableEq κ] [DecidableEq φ]

/-- Process `c` is inside the code of phase `ph`. -/
def Inside (S : System ι κ φ) (s : State ι κ) (c : ι) (ph : φ) : Prop :=
  ∃ (i : ℕ) (ins : Instr κ φ) (f : Bool), s.pc c = .run i true ∧ S.prog[i]? = some ins ∧
    ins.code = some (f, ph) ∧ (f = true → S.first c = true)

def setWork (work : ι → φ → Option ω) (c : ι) (ph : φ) (w : ω) : ι → φ → Option ω :=
  Function.update work c (Function.update (work c) ph (some w))

theorem setWork_self (work : ι → φ → Option ω) (c : ι) (ph : φ) (w : ω) :
    setWork work c ph w c ph = some w := by
  simp [setWork]

theorem setWork_of_ne (work : ι → φ → Option ω) {c c' : ι} {ph ph' : φ} (w : ω)
    (h : (c', ph') ≠ (c, ph)) : setWork work c ph w c' ph' = work c' ph' := by
  by_cases hc : c' = c
  · subst hc
    have hph : ph' ≠ ph := fun heq => h (by rw [heq])
    simp [setWork, Function.update_of_ne hph]
  · simp [setWork, Function.update_of_ne hc]

/-- The steps of a barrier program at work. -/
inductive Working (S : System ι κ φ) (B : Body ι φ ω δ) :
    WorkState ι κ φ ω δ → Option (Event ι φ) → WorkState ι κ φ ω δ → Prop
  | bar {s : WorkState ι κ φ ω δ} {bar' : State ι κ} (h : next S s.bar none bar') :
      Working S B s none { s with bar := bar' }
  | start {s : WorkState ι κ φ ω δ} {bar' : State ι κ} {c : ι} {ph : φ}
      (h : next S s.bar (some (.start c ph)) bar') :
      Working S B s (some (.start c ph))
        { s with bar := bar', work := setWork s.work c ph (B.enter ph) }
  | work {s : WorkState ι κ φ ω δ} {c : ι} {ph : φ} {w : ω} (hc : c ∈ S.procs)
      (hin : Inside S s.bar c ph) (hw : s.work c ph = some w) (hgo : B.done w = false) :
      Working S B s none
        { s with work := setWork s.work c ph (B.step c ph w s.data).1
                 data := (B.step c ph w s.data).2 }
  | finish {s : WorkState ι κ φ ω δ} {bar' : State ι κ} {c : ι} {ph : φ} {w : ω}
      (h : next S s.bar (some (.finish c ph)) bar') (hw : s.work c ph = some w)
      (hdone : B.done w = true) : Working S B s (some (.finish c ph)) { s with bar := bar' }

/-- Before the first step, with shared data `d`. -/
def workInit (bar : State ι κ) (d : δ) : WorkState ι κ φ ω δ :=
  { bar := bar, work := fun _ _ => none, data := d }

variable {S : System ι κ φ} {B : Body ι φ ω δ} {d : δ} {tr : List (Event ι φ)}
  {s s' : WorkState ι κ φ ω δ} {e : Option (Event ι φ)}

/-- Without progress and data, the program runs as before. -/
theorem working_bar {s₀ : WorkState ι κ φ ω δ} (h : Run (Working S B) s₀ tr s) :
    Run (next S) s₀.bar tr s.bar := by
  induction h with
  | nil => exact .nil
  | snoc hrun hnext ih =>
    cases hnext with
    | bar h => exact ih.snoc h
    | start h => exact ih.snoc h
    | work => simpa using ih
    | finish h => exact ih.snoc h

/-- The invariant rule.  A step may use that its source state was reached. -/
theorem Working.invariant {J : (ι → φ → Option ω) → δ → Prop}
    (h0 : J (fun _ _ => none) d)
    (hstart : ∀ tr s bar' c ph, Run (Working S B) (workInit S.init d) tr s →
      next S s.bar (some (.start c ph)) bar' → J s.work s.data →
      J (setWork s.work c ph (B.enter ph)) s.data)
    (hwork : ∀ tr s c ph w, Run (Working S B) (workInit S.init d) tr s →
      J s.work s.data → c ∈ S.procs → Inside S s.bar c ph → s.work c ph = some w →
      B.done w = false → J (setWork s.work c ph (B.step c ph w s.data).1)
        (B.step c ph w s.data).2)
    (h : Run (Working S B) (workInit S.init d) tr s) : J s.work s.data := by
  refine h.invariant (I := fun _ s => J s.work s.data) h0 ?_
  intro tr s e s' hrun ih hnext
  cases hnext with
  | bar h => exact ih
  | start h => exact hstart tr s _ _ _ hrun h ih
  | work hc hin hw hgo => exact hwork tr s _ _ _ hrun ih hc hin hw hgo
  | finish h => exact ih

/-! ### Positions and progress -/

/-- The phase `ph` is the code of one instruction only, the one at `p`. -/
structure OnlyAt (S : System ι κ φ) (ph : φ) (p : ℕ) (f : Bool) : Prop where
  at_ : ∃ ins, S.prog[p]? = some ins ∧ ins.code = some (f, ph)
  only : ∀ i ins f', S.prog[i]? = some ins → ins.code = some (f', ph) → i = p

variable {ph : φ} {p : ℕ} {f : Bool} {c : ι}

omit [DecidableEq ι] [DecidableEq κ] [DecidableEq φ] in
theorem Inside.pc_eq {b : State ι κ} (h : Inside S b c ph) (hp : OnlyAt S ph p f) :
    b.pc c = .run p true := by
  obtain ⟨i, ins, f', hpc, hi, hcode, -⟩ := h
  rw [hpc, hp.only i ins f' hi hcode]

omit [DecidableEq φ] in
/-- A process leaves the code of an instruction only forward. -/
theorem Moved.lt_idx_of_inside {b b' : State ι κ} {e : Option (Event ι φ)}
    (h : Moved S c b e b') (hp : OnlyAt S ph p f) (hpc : b.pc c = .run p true) :
    p < (b'.pc c).idx := by
  obtain ⟨ins, hi, hcode⟩ := hp.at_
  cases h with
  | @skip i _ _ _ hpc' hi' | @finish i _ _ _ hpc' hi' | @fail i _ _ hpc' hi' =>
    rw [hpc] at hpc'
    cases hpc'
    rw [goto_pc]
    exact Nat.lt_succ_self p
  | @dec i _ _ hpc' hi' | @pass i _ _ hpc' hi' _ | @go i _ _ hpc' hi' _
  | @abort i _ _ hpc' hi' _ =>
    rw [hpc] at hpc'
    cases hpc'
    rw [hi] at hi'
    cases hi'
    cases hcode
  | start hpc' | swap hpc' | drain hpc' =>
    rw [hpc] at hpc'
    cases hpc'

/-- A process that has begun the phase is inside it or past it. -/
theorem inside_of_work (hp : OnlyAt S ph p f)
    (h : Run (Working S B) (workInit S.init d) tr s) (hw : s.work c ph ≠ none) :
    p < (s.bar.pc c).idx ∨ s.bar.pc c = .run p true := by
  have hmove : ∀ {b b' : State ι κ} {e : Option (Event ι φ)}, next S b e b' →
      (p < (b.pc c).idx ∨ b.pc c = .run p true) →
      (p < (b'.pc c).idx ∨ b'.pc c = .run p true) := by
    rintro b b' e ⟨c₀, -, hstep⟩ hold
    have hm := step_moved hstep
    by_cases hc : c = c₀
    · subst hc
      rcases hold with hlt | hpc
      · exact .inl (hlt.trans_le hm.idx_bounds.1)
      · exact .inl (hm.lt_idx_of_inside hp hpc)
    · rwa [hm.pc_of_ne hc]
  refine h.invariant (I := fun _ s => s.work c ph ≠ none →
    p < (s.bar.pc c).idx ∨ s.bar.pc c = .run p true) ?_ ?_ hw
  · intro hnone
    exact absurd rfl hnone
  · intro tr s e s' hrun ih hnext hw
    cases hnext with
    | bar hb => exact hmove hb (ih hw)
    | finish hb _ _ => exact hmove hb (ih hw)
    | @start bar' c₀ ph₀ hb =>
      by_cases heq : (c, ph) = (c₀, ph₀)
      · -- the step that begins the phase
        cases heq
        right
        obtain ⟨i, ins, f', -, -, hi, hcode, -⟩ := next_start hb rfl
        obtain ⟨c₁, -, hstep⟩ := hb
        cases step_moved hstep with
        | @start i _ _ _ hpc hi hcode _ =>
          rw [goto_pc, hp.only i _ _ hi hcode]
      · dsimp only at hw
        rw [setWork_of_ne _ _ heq] at hw
        exact hmove hb (ih hw)
    | @work c₀ ph₀ w hc hin hw₀ hgo =>
      by_cases heq : (c, ph) = (c₀, ph₀)
      · cases heq
        exact .inr (hin.pc_eq hp)
      · dsimp only at hw
        rw [setWork_of_ne _ _ heq] at hw
        exact ih hw

/-- A process that has the phase still before it has no progress in it. -/
theorem work_eq_none (hp : OnlyAt S ph p f)
    (h : Run (Working S B) (workInit S.init d) tr s) (hle : (s.bar.pc c).idx ≤ p)
    (hne : s.bar.pc c ≠ .run p true) : s.work c ph = none := by
  by_contra hw
  rcases inside_of_work hp h hw with hlt | hpc
  · exact absurd hlt (Nat.not_lt.mpr hle)
  · exact hne hpc

/-- A process begins a phase without progress in it. -/
theorem work_eq_none_of_start {b : State ι κ} (hp : OnlyAt S ph p f)
    (h : Run (Working S B) (workInit S.init d) tr s)
    (hstart : next S s.bar (some (.start c ph)) b) : s.work c ph = none := by
  obtain ⟨i, ins, f', -, hpc, hi, hcode, -⟩ := next_start hstart rfl
  rw [hp.only i ins f' hi hcode] at hpc
  exact work_eq_none hp h (by rw [hpc, Pc.idx]) (by simp [hpc])

/-- A process that has the phase behind it is through with it. -/
theorem work_done (hp : OnlyAt S ph p f) (hfirst : f = true → S.first c = true)
    (h : Run (Working S B) (workInit S.init d) tr s) (hlt : p < (s.bar.pc c).idx) :
    ∃ w, s.work c ph = some w ∧ B.done w = true := by
  obtain ⟨ins, hi, hcode⟩ := hp.at_
  -- only the end of the phase itself leads past its instruction
  have hmove : ∀ {b b' : State ι κ} {e : Option (Event ι φ)}, next S b e b' →
      p < (b'.pc c).idx → p < (b.pc c).idx ∨ e = some (.finish c ph) := by
    rintro b b' e ⟨c₀, -, hstep⟩ hlt
    have hm := step_moved hstep
    by_cases hc : c = c₀
    · subst hc
      by_contra hno
      rw [not_or, Nat.not_lt] at hno
      have hidx : (b.pc c).idx = p := by
        have := hm.idx_bounds
        omega
      cases hm with
      | @skip i _ ins' ph' hpc hi' hcode' hnot =>
        rw [hpc] at hidx
        obtain rfl : i = p := hidx
        rw [hi, Option.some_inj] at hi'
        rw [← hi', hcode] at hcode'
        cases hcode'
        rw [hfirst rfl] at hnot
        cases hnot
      | @finish i ins' f' ph' hpc hi' hcode' _ _ =>
        rw [hpc] at hidx
        obtain rfl : i = p := hidx
        rw [hi, Option.some_inj] at hi'
        rw [← hi', hcode] at hcode'
        cases hcode'
        exact hno.2 rfl
      | @fail i f' ph' hpc hi' _ _ =>
        rw [hpc] at hidx
        obtain rfl : i = p := hidx
        rw [hi, Option.some_inj] at hi'
        rw [hi'] at hcode
        cases hcode
        exact hno.2 rfl
      | @dec i _ _ hpc hi' | @pass i _ _ hpc hi' _ | @go i _ _ hpc hi' _ =>
        rw [hpc] at hidx
        obtain rfl : i = p := hidx
        rw [hi, Option.some_inj] at hi'
        rw [hi'] at hcode
        cases hcode
      | start hpc | swap hpc | abort hpc | drain hpc =>
        rw [goto_pc] at hlt
        rw [hpc] at hidx
        exact absurd hlt (by simpa [Pc.idx] using hidx.le)
    · rw [hm.pc_of_ne hc] at hlt
      exact .inl hlt
  refine h.invariant (I := fun _ s => p < (s.bar.pc c).idx →
    ∃ w, s.work c ph = some w ∧ B.done w = true) ?_ ?_ hlt
  · intro hlt
    exact absurd hlt (Nat.not_lt_zero _)
  · intro tr s e s' hrun ih hnext hlt
    cases hnext with
    | bar hb =>
      rcases hmove hb hlt with hold | he
      · exact ih hold
      · cases he
    | @finish bar' c₀ ph₀ w hb hw hdone =>
      rcases hmove hb hlt with hold | he
      · exact ih hold
      · cases he
        exact ⟨w, hw, hdone⟩
    | @start bar' c₀ ph₀ hb =>
      rcases hmove hb hlt with hold | he
      · have hne : (c, ph) ≠ (c₀, ph₀) := by
          rintro ⟨⟩
          -- the phase would begin a second time
          obtain ⟨i, ins', f', -, hpc, hi', hcode', -⟩ := next_start hb rfl
          rw [hpc, hp.only i ins' f' hi' hcode'] at hold
          exact absurd hold (lt_irrefl p)
        dsimp only
        rw [setWork_of_ne _ _ hne]
        exact ih hold
      · cases he
    | @work c₀ ph₀ w hc hin hw₀ hgo =>
      have hne : (c, ph) ≠ (c₀, ph₀) := by
        rintro ⟨⟩
        rw [hin.pc_eq hp] at hlt
        exact absurd hlt (lt_irrefl p)
      dsimp only
      rw [setWork_of_ne _ _ hne]
      exact ih hlt

/-- A process that has ended the phase has it behind it. -/
theorem lt_idx_of_finish {b : State ι κ} (hp : OnlyAt S ph p f)
    (h : Run (next S) S.init tr b) (hmem : Event.finish c ph ∈ tr) : p < (b.pc c).idx := by
  have hpos : 0 < runsIn S c ph (b.pc c).idx := by
    rw [← (trace_eq h c ph).2]
    exact List.count_pos_iff.mpr hmem
  obtain ⟨ins, hins, hrun⟩ := List.countP_pos_iff.mp hpos
  obtain ⟨i, hi⟩ := List.getElem?_of_mem hins
  obtain ⟨hlt, hget⟩ := List.getElem?_eq_some_iff.mp hi
  rw [List.length_take] at hlt
  rw [List.getElem_take] at hget
  cases hcode : ins.code with
  | none => simp [Instr.runsOn, hcode] at hrun
  | some q =>
    simp only [Instr.runsOn, hcode, Bool.and_eq_true, beq_iff_eq] at hrun
    have hcode' : ins.code = some (q.1, ph) := by rw [hcode, ← hrun.1]
    have heq : i = p := hp.only i ins q.1
      (List.getElem?_eq_some_iff.mpr ⟨by omega, hget⟩) hcode'
    omega

/-! ### Executing a schedule -/

/-- One step of process `c`; inside a phase it works until it is through. -/
def workStep (S : System ι κ φ) (B : Body ι φ ω δ) (c : ι) (s : WorkState ι κ φ ω δ) :
    Option (Option (Event ι φ) × WorkState ι κ φ ω δ) :=
  match step S c s.bar with
  | none => none
  | some (none, bar') => some (none, { s with bar := bar' })
  | some (some (.start c' ph), bar') =>
    some (some (.start c' ph),
      { s with bar := bar', work := setWork s.work c' ph (B.enter ph) })
  | some (some (.finish c' ph), bar') =>
    match s.work c' ph with
    | none => none
    | some w =>
      if B.done w then some (some (.finish c' ph), { s with bar := bar' })
      else some (none, { s with work := setWork s.work c' ph (B.step c' ph w s.data).1
                                data := (B.step c' ph w s.data).2 })

theorem working_of_workStep (hc : c ∈ S.procs) (h : workStep S B c s = some (e, s')) :
    Working S B s e s' := by
  unfold workStep at h
  split at h
  · cases h
  · next hstep =>
    cases h
    exact .bar ⟨c, hc, hstep⟩
  · next hstep =>
    cases h
    exact .start ⟨c, hc, hstep⟩
  · next c' ph bar' hstep =>
    have hin : c' = c ∧ Inside S s.bar c' ph := by
      cases step_moved hstep with
      | finish hpc hi hcode hfirst _ => exact ⟨rfl, _, _, _, hpc, hi, hcode, hfirst⟩
      | fail hpc hi hfirst _ => exact ⟨rfl, _, _, _, hpc, hi, rfl, hfirst⟩
    obtain ⟨rfl, hin⟩ := hin
    split at h
    · cases h
    · next w hw =>
      split at h
      · next hdone =>
        cases h
        exact .finish ⟨c', hc, hstep⟩ hw hdone
      · next hgo =>
        cases h
        exact .work hc hin hw (Bool.not_eq_true _ ▸ hgo)

/-- Run the processes in the order of a schedule. -/
def execWork (S : System ι κ φ) (B : Body ι φ ω δ) : List ι →
    List (Event ι φ) × WorkState ι κ φ ω δ → List (Event ι φ) × WorkState ι κ φ ω δ :=
  execSchedule (workStep S B)

theorem execWork_run {s₀ : WorkState ι κ φ ω δ} {cs : List ι} {tr : List (Event ι φ)}
    {s : WorkState ι κ φ ω δ} (hcs : ∀ c ∈ cs, c ∈ S.procs) (h : Run (Working S B) s₀ tr s) :
    Run (Working S B) s₀ (execWork S B cs (tr, s)).1 (execWork S B cs (tr, s)).2 :=
  execSchedule_run (fun c hc _ _ _ hstep => working_of_workStep (hcs c hc) hstep) h

end Work

end BarrierProgram
