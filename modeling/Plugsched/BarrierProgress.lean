/-
Progress of barrier programs.

A process that cannot step has returned or waits for a counter.  In a program in
which every `wait` stands behind the `dec` of its counter (`Ordered`) the processes
never all wait: the one that is furthest behind waits for a counter to which
nobody owes a decrement.

* `wellFounded_next` — no run goes on for ever;
* `returned_of_stuck` — where no process can step, all have returned;
* `count_decremented` — until it returns, a process decrements each counter once.
-/
import Mathlib.Algebra.Order.BigOperators.Group.Finset
import Mathlib.Data.Finset.Max
import Plugsched.BarrierRules

open Runs

namespace BarrierProgram

variable {ι κ φ : Type*} {S : System ι κ φ}

/-! ### Termination -/

/-- A bound on the steps of a process at this place, in a program of length `n`. -/
def Pc.remaining (n : ℕ) : Pc κ → ℕ
  | .run i true => 3 * (n - i)
  | .run i false => 3 * (n - i) + 1
  | .swap i _ => 3 * (n - i) + 2
  | .leave _ _ ks => ks.length

theorem Pc.le_remaining_run (n i : ℕ) (b : Bool) :
    3 * (n - i) ≤ (.run i b : Pc κ).remaining n := by
  cases b
  · exact Nat.le_succ _
  · exact le_rfl

theorem length_decs_le (l : List (Instr κ φ)) : (decs l).length ≤ l.length :=
  List.length_filterMap_le _ _

variable [DecidableEq ι] [DecidableEq κ] {c : ι} {s s' : State ι κ}
  {e : Option (Event ι φ)} {tr : List (Event ι φ)} {k : κ}

theorem Moved.remaining_lt (hbal : Balanced S.prog) (h : Moved S c s e s') :
    (s'.pc c).remaining S.prog.length < (s.pc c).remaining S.prog.length := by
  have hnext : ∀ {i : ℕ} {ins : Instr κ φ} (b : Bool), S.prog[i]? = some ins →
      3 * (S.prog.length - (i + 1)) + 2 < (.run i b : Pc κ).remaining S.prog.length := by
    intro i ins b hi
    have hlt : i < S.prog.length := (List.getElem?_eq_some_iff.mp hi).1
    have hle := Pc.le_remaining_run (κ := κ) S.prog.length i b
    omega
  cases h with
  | skip hpc hi _ _ | finish hpc hi _ _ _ | dec hpc hi | pass hpc hi _ | go hpc hi _ =>
    rw [hpc, goto_pc]
    exact lt_trans (Nat.lt_succ_self _) (hnext _ hi)
  | fail hpc hi _ _ =>
    rw [hpc, goto_pc]
    exact hnext _ hi
  | start hpc _ _ _ | swap hpc =>
    rw [hpc, goto_pc]
    exact Nat.lt_succ_self _
  | @abort i b ks hpc hi _ =>
    rw [hpc, goto_pc]
    -- the rest of the program would have decremented as often
    have hks : ks.length ≤ S.prog.length - (i + 1) := by
      rw [(hbal.perm hi).length_eq, ← List.length_drop]
      exact length_decs_le _
    have hstep := hnext b hi
    show ks.length < _
    omega
  | drain hpc =>
    rw [hpc, goto_pc]
    exact Nat.lt_succ_self _

theorem next_remaining_lt (hbal : Balanced S.prog) (h : next S s e s') :
    ∑ c ∈ S.procs, (s'.pc c).remaining S.prog.length <
      ∑ c ∈ S.procs, (s.pc c).remaining S.prog.length := by
  obtain ⟨c, hc, hstep⟩ := h
  have hm := step_moved hstep
  refine Finset.sum_lt_sum ?_ ⟨c, hc, hm.remaining_lt hbal⟩
  intro c' _
  by_cases hne : c' = c
  · rw [hne]
    exact (hm.remaining_lt hbal).le
  · rw [hm.pc_of_ne hne]

/-- No run goes on for ever. -/
theorem wellFounded_next (hbal : Balanced S.prog) :
    WellFounded fun s' s : State ι κ => ∃ e, next S s e s' := by
  refine Subrelation.wf ?_
    (measure fun s : State ι κ => ∑ c ∈ S.procs, (s.pc c).remaining S.prog.length).wf
  rintro s' s ⟨e, h⟩
  exact next_remaining_lt hbal h

/-! ### No deadlock -/

/-- Every `wait` stands behind the `dec` of its counter. -/
def Ordered (S : System ι κ φ) : Prop :=
  ∀ (w : ℕ) (k : κ), S.prog[w]? = some (Instr.wait k) → ∃ d < w, S.prog[d]? = some (Instr.dec k)

/-- No process can step. -/
def Stuck (S : System ι κ φ) (s : State ι κ) : Prop :=
  ∀ e s', ¬ next S s e s'

/-- A process that cannot step has returned or waits. -/
theorem returned_or_waits (h : step S c s = none) :
    (∃ r, returned S s c = some r) ∨
      ∃ i b k, s.pc c = .run i b ∧ S.prog[i]? = some (.wait k) ∧ s.counter k ≠ 0 := by
  cases hpc : s.pc c with
  | run i b =>
    cases hi : S.prog[i]? with
    | none =>
      refine .inl ⟨0, ?_⟩
      rw [returned, hpc]
      exact if_pos (List.getElem?_eq_none_iff.mp hi)
    | some ins =>
      cases ins with
      | wait k =>
        refine .inr ⟨i, b, k, rfl, hi, fun hk => ?_⟩
        simp [step, hpc, hi, hk] at h
      | phase f ph | check f ph | dec k | abort ks =>
        simp only [step, hpc, hi] at h
        (repeat' split at h) <;> cases h
  | swap i v => simp [step, hpc] at h
  | leave i v ks =>
    cases ks with
    | nil =>
      refine .inl ⟨v, ?_⟩
      rw [returned, hpc]
    | cons k ks => simp [step, hpc] at h

omit [DecidableEq ι] in
/-- A process that has returned owes nothing. -/
theorem owes_of_returned {r : ℤ} (h : returned S s c = some r) (k : κ) :
    owes S k (s.pc c) = 0 := by
  rw [returned] at h
  split at h
  · next i b hpc =>
    rw [hpc, owes]
    split at h
    · next hle =>
      rw [List.drop_eq_nil_of_le hle]
      rfl
    · cases h
  · cases h
  · next hpc =>
    rw [hpc]
    rfl
  · cases h

omit [DecidableEq ι] in
/-- Behind its one `dec` nothing is owed to a counter. -/
theorem count_decs_drop_eq_zero (hwf : WellFormed S) {d i : ℕ}
    (hd : S.prog[d]? = some (.dec k)) (hlt : d < i) : (decs (S.prog.drop i)).count k = 0 := by
  have hone := hwf.once k
  have hcut : decs S.prog = decs (S.prog.take i) ++ decs (S.prog.drop i) := by
    rw [decs, decs, decs, ← List.filterMap_append, List.take_append_drop]
  have hmem : k ∈ decs (S.prog.take i) := by
    refine List.mem_filterMap.mpr ⟨.dec k, List.mem_of_getElem? (i := d) ?_, rfl⟩
    rw [List.getElem?_take_of_lt hlt]
    exact hd
  have hpos := List.count_pos_iff.mpr hmem
  rw [hcut, List.count_append] at hone
  omega

/-- **No deadlock.**  Where no process can step, all have returned. -/
theorem returned_of_stuck (hwf : WellFormed S) (hord : Ordered S)
    (h : Run (next S) S.init tr s) (hstuck : Stuck S s) :
    ∀ c ∈ S.procs, ∃ r, returned S s c = some r := by
  have hnone : ∀ c ∈ S.procs, step S c s = none := by
    intro c hc
    rw [Option.eq_none_iff_forall_ne_some]
    rintro ⟨e, s'⟩ hstep
    exact hstuck e s' ⟨c, hc, hstep⟩
  by_contra hno
  push Not at hno
  obtain ⟨c₀, hc₀, hret₀⟩ := hno
  -- the process furthest behind, among those that have not returned
  obtain ⟨c, hc, hmin⟩ := Finset.exists_min_image (S.procs.filter fun c => returned S s c = none)
    (fun c => (s.pc c).idx)
    ⟨c₀, Finset.mem_filter.mpr ⟨hc₀, Option.eq_none_iff_forall_ne_some.mpr hret₀⟩⟩
  obtain ⟨hc, hret⟩ := Finset.mem_filter.mp hc
  obtain ⟨r, hr⟩ | ⟨i, b, k, hpc, hi, hk⟩ := returned_or_waits (hnone c hc)
  · rw [hr] at hret
    cases hret
  obtain ⟨d, hdi, hd⟩ := hord i k hi
  -- somebody owes its counter a decrement, and so is further behind
  rw [counter_eq hwf h] at hk
  obtain ⟨c', hc', howes⟩ := Finset.exists_ne_zero_of_sum_ne_zero hk
  obtain ⟨r, hr⟩ | ⟨i', b', k', hpc', hi', -⟩ := returned_or_waits (hnone c' hc')
  · exact howes (by rw [owes_of_returned hr k, Nat.cast_zero])
  · have hlt : i' < S.prog.length := (List.getElem?_eq_some_iff.mp hi').1
    have hret' : returned S s c' = none := by
      rw [returned, hpc']
      exact if_neg (Nat.not_le.mpr hlt)
    have hle := hmin c' (Finset.mem_filter.mpr ⟨hc', hret'⟩)
    rw [hpc, hpc'] at hle
    have hdi' : d < i' := lt_of_lt_of_le hdi hle
    refine howes ?_
    rw [hpc', owes, count_decs_drop_eq_zero hwf hd hdi', Nat.cast_zero]

/-! ### Decrements -/

/-- The counter that the next step of process `c` decrements. -/
def decremented (S : System ι κ φ) (s : State ι κ) (c : ι) : Option κ :=
  match s.pc c with
  | .run i _ => S.prog[i]?.bind Instr.decs
  | .swap _ _ => none
  | .leave _ _ ks => ks.head?

/-- The steps of the system again, each with the decrement it makes. -/
def nextDec (S : System ι κ φ) (s : State ι κ) (e : Option (ι × κ)) (s' : State ι κ) : Prop :=
  ∃ c ∈ S.procs, ∃ ev, step S c s = some (ev, s') ∧ e = (decremented S s c).map (c, ·)

/-- Recording the decrements changes neither the steps nor the states reached. -/
theorem run_nextDec_iff {s₀ s : State ι κ} :
    (∃ ds, Run (nextDec S) s₀ ds s) ↔ ∃ tr, Run (next S) s₀ tr s := by
  constructor
  · rintro ⟨ds, h⟩
    induction h with
    | nil => exact ⟨[], .nil⟩
    | snoc _ hnext ih =>
      obtain ⟨tr, htr⟩ := ih
      obtain ⟨c, hc, ev, hstep, -⟩ := hnext
      exact ⟨_, htr.snoc ⟨c, hc, hstep⟩⟩
  · rintro ⟨tr, h⟩
    induction h with
    | nil => exact ⟨[], .nil⟩
    | snoc _ hnext ih =>
      obtain ⟨ds, hds⟩ := ih
      obtain ⟨c, hc, hstep⟩ := hnext
      exact ⟨_, hds.snoc ⟨c, hc, _, hstep, rfl⟩⟩

/-- A step takes one from the counter it decrements and leaves the others. -/
theorem Moved.counter_decremented (h : Moved S c s e s') (k : κ) :
    s'.counter k + (if decremented S s c = some k then 1 else 0) = s.counter k := by
  cases h with
  | skip hpc hi hcode _ | start hpc hi hcode _ | finish hpc hi hcode _ _ =>
    simp [decremented, hpc, hi, Instr.decs_of_code hcode, State.goto]
  | fail hpc hi _ _ | pass hpc hi _ | go hpc hi _ | abort hpc hi _ =>
    simp [decremented, hpc, hi, Instr.decs, State.goto]
  | swap hpc => simp [decremented, hpc, State.goto]
  | @dec i b k₀ hpc hi =>
    simp only [decremented, hpc, hi, Option.bind_some, Instr.decs, Option.some_inj, State.goto,
      State.decr, Function.update_apply, eq_comm (a := k₀)]
    split
    · next hk => rw [hk]; omega
    · omega
  | @drain i v k₀ ks hpc =>
    simp only [decremented, hpc, List.head?_cons, Option.some_inj, State.goto, State.decr,
      Function.update_apply, eq_comm (a := k₀)]
    split
    · next hk => rw [hk]; omega
    · omega

/-- What a process has decremented and what it still owes make one decrement. -/
theorem count_decremented (hwf : WellFormed S) {ds : List (ι × κ)}
    (h : Run (nextDec S) S.init ds s) (c : ι) (k : κ) :
    ds.count (c, k) + owes S k (s.pc c) = 1 := by
  refine h.invariant (I := fun ds s => ds.count (c, k) + owes S k (s.pc c) = 1) ?_ ?_
  · have hone := hwf.once k
    simp [System.init, owes, hone]
  · rintro ds s e s' _ ih ⟨c₀, -, ev, hstep, rfl⟩
    have hm := step_moved hstep
    rw [List.count_append]
    by_cases hc : c₀ = c
    · subst hc
      have hcounter := hm.counter_decremented k
      have howes := hm.counter_add_owes hwf.balanced k
      have hcount : ((decremented S s c₀).map (c₀, ·)).toList.count (c₀, k) =
          if decremented S s c₀ = some k then 1 else 0 := by
        cases decremented S s c₀ with
        | none => rfl
        | some k' => simp [List.count_singleton]
      rw [hcount]
      split at hcounter
      · next hdec =>
        rw [if_pos hdec]
        omega
      · next hdec =>
        rw [if_neg hdec]
        omega
    · have hcount : ((decremented S s c₀).map (c₀, ·)).toList.count (c, k) = 0 := by
        cases decremented S s c₀ with
        | none => rfl
        | some k' => simp [hc]
      rw [hcount, hm.pc_of_ne (Ne.symm hc), Nat.add_zero]
      exact ih

/-- A counter is what it was at the start less the decrements made. -/
theorem counter_add_countP {ds : List (ι × κ)} (h : Run (nextDec S) S.init ds s) (k : κ) :
    s.counter k + (ds.countP (·.2 = k) : ℤ) = S.procs.card := by
  refine h.invariant
    (I := fun ds s => s.counter k + (ds.countP (·.2 = k) : ℤ) = S.procs.card) ?_ ?_
  · simp [System.init]
  · rintro ds s e s' _ ih ⟨c₀, -, ev, hstep, rfl⟩
    have hcounter := (step_moved hstep).counter_decremented k
    rw [List.countP_append]
    have hcount : (((decremented S s c₀).map (c₀, ·)).toList.countP (·.2 = k) : ℤ) =
        if decremented S s c₀ = some k then 1 else 0 := by
      cases decremented S s c₀ with
      | none => rfl
      | some k' => by_cases hk : k' = k <;> simp [hk]
    rw [Nat.cast_add, hcount]
    omega

/-- Run the processes in the order of a schedule, with their decrements. -/
def execDec (S : System ι κ φ) : List ι → List (ι × κ) × State ι κ → List (ι × κ) × State ι κ :=
  execSchedule fun c s => (step S c s).map fun r => ((decremented S s c).map (c, ·), r.2)

theorem execDec_run {s₀ : State ι κ} {cs : List ι} {ds : List (ι × κ)} {s : State ι κ}
    (hcs : ∀ c ∈ cs, c ∈ S.procs) (h : Run (nextDec S) s₀ ds s) :
    Run (nextDec S) s₀ (execDec S cs (ds, s)).1 (execDec S cs (ds, s)).2 := by
  refine execSchedule_run ?_ h
  intro c hc s e s' hstep
  obtain ⟨r, hr, heq⟩ := Option.map_eq_some_iff.mp hstep
  cases heq
  exact ⟨c, hcs c hc, r.1, hr, rfl⟩

end BarrierProgram
