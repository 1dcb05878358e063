/-
Rules for barrier programs.

For a program in which every counter is decremented exactly once on every path
(`WellFormed`), from the initial state and for any interleaving:

* `counter_eq` — a counter is the number of processes that still owe it a
  decrement, so it stays between 0 and the number of processes;
* `owes_eq_zero_of_passed` — the barrier rule: once one process has passed
  `wait k`, no process owes `k` a decrement;
* `trace_eq`, `finished_eq` — how often, and in which order, the trace shows the
  phases of a process is read off its position in the program;
* `traceEffect_eq` — what a run does to data that one process changes.
-/
import Plugsched.BarrierProgram

open Runs

namespace BarrierProgram

variable {ι κ φ : Type*} {S : System ι κ φ}

/-! ### Positions in a program -/

theorem decs_drop {l : List (Instr κ φ)} {i : ℕ} {ins : Instr κ φ} (hi : l[i]? = some ins) :
    decs (l.drop i) = ins.decs.toList ++ decs (l.drop (i + 1)) := by
  obtain ⟨hlt, rfl⟩ := List.getElem?_eq_some_iff.mp hi
  rw [List.drop_eq_getElem_cons hlt, decs, List.filterMap_cons]
  cases (l[i]).decs <;> rfl

theorem decs_drop_of_none {l : List (Instr κ φ)} {i : ℕ} {ins : Instr κ φ}
    (hi : l[i]? = some ins) (hd : ins.decs = none) :
    decs (l.drop i) = decs (l.drop (i + 1)) := by
  rw [decs_drop hi, hd, Option.toList_none, List.nil_append]

theorem Instr.decs_of_code {ins : Instr κ φ} {f : Bool} {ph : φ}
    (h : ins.code = some (f, ph)) : ins.decs = none := by
  cases ins <;> simp_all [Instr.code, Instr.decs]

theorem mem_decs_drop {l : List (Instr κ φ)} {i d : ℕ} {k : κ}
    (hd : l[d]? = some (.dec k)) (hid : i ≤ d) : k ∈ decs (l.drop i) := by
  have hget : (l.drop i)[d - i]? = some (.dec k) := by
    rw [List.getElem?_drop, Nat.add_sub_cancel' hid]
    exact hd
  exact List.mem_filterMap.mpr ⟨_, List.mem_of_getElem? hget, rfl⟩

/-- On every path that leaves at an `abort`, the counters decremented there are
those the rest of the program would have decremented. -/
def Balanced : List (Instr κ φ) → Prop
  | [] => True
  | .abort ks :: rest => ks.Perm (decs rest) ∧ Balanced rest
  | _ :: rest => Balanced rest

theorem Balanced.perm {l : List (Instr κ φ)} (h : Balanced l) :
    ∀ {i : ℕ} {ks : List κ}, l[i]? = some (.abort ks) → ks.Perm (decs (l.drop (i + 1))) := by
  induction l with
  | nil =>
    intro i ks hi
    simp at hi
  | cons ins rest ih =>
    intro i ks hi
    cases i with
    | zero =>
      obtain rfl : ins = .abort ks := by simpa using hi
      simpa using h.1
    | succ i =>
      have hrest : Balanced rest := by
        cases ins with
        | abort _ => exact h.2
        | _ => exact h
      simpa using ih hrest (by simpa using hi)

section Rules

variable [DecidableEq ι] [DecidableEq κ]

/-- The decrements of `k` a process at `p` still owes. -/
def owes (S : System ι κ φ) (k : κ) : Pc κ → ℕ
  | .run i _ => (decs (S.prog.drop i)).count k
  | .swap i _ => (decs (S.prog.drop i)).count k
  | .leave _ _ ks => ks.count k

/-- Every counter is decremented exactly once on every path. -/
structure WellFormed (S : System ι κ φ) : Prop where
  balanced : Balanced S.prog
  once : ∀ k, (decs S.prog).count k = 1

/-! ### One step -/

omit [DecidableEq κ] in
theorem goto_pc (s : State ι κ) (c : ι) (p : Pc κ) : (s.goto c p).pc c = p := by
  simp [State.goto]

variable {c c' : ι} {s s' : State ι κ} {e : Option (Event ι φ)} {k : κ}
  {tr : List (Event ι φ)}

/-- A step of one process leaves the others where they are. -/
theorem Moved.pc_of_ne (h : Moved S c s e s') (hne : c' ≠ c) : s'.pc c' = s.pc c' := by
  cases h <;> simp [State.goto, State.decr, Function.update_of_ne hne]

/-- What a step takes from a counter it takes from what the process owes. -/
theorem Moved.counter_add_owes (hbal : Balanced S.prog) (h : Moved S c s e s') (k : κ) :
    s'.counter k + owes S k (s.pc c) = s.counter k + owes S k (s'.pc c) := by
  cases h with
  | skip hpc hi hcode _ | start hpc hi hcode _ | finish hpc hi hcode _ _ =>
    rw [hpc, goto_pc]
    simp only [owes, State.goto]
    try rw [decs_drop_of_none hi (Instr.decs_of_code hcode)]
  | fail hpc hi _ _ | pass hpc hi _ | go hpc hi _ =>
    rw [hpc, goto_pc]
    simp only [owes, State.goto]
    rw [decs_drop_of_none hi rfl]
  | swap hpc =>
    rw [hpc, goto_pc]
    rfl
  | @dec i b k₀ hpc hi =>
    rw [hpc, goto_pc]
    simp only [owes, State.goto, State.decr]
    rw [decs_drop hi]
    simp only [Instr.decs, Option.toList_some, List.singleton_append, List.count_cons,
      Function.update_apply]
    by_cases hk : k = k₀
    · subst hk
      simp
    · have hk' : (k₀ == k) = false := by simpa using Ne.symm hk
      simp [hk, hk']
  | abort hpc hi _ =>
    rw [hpc, goto_pc]
    simp only [owes, State.goto]
    rw [decs_drop_of_none hi rfl, (hbal.perm hi).count_eq]
  | @drain i e' k₀ ks hpc =>
    rw [hpc, goto_pc]
    simp only [owes, State.goto, State.decr, List.count_cons, Function.update_apply]
    by_cases hk : k = k₀
    · subst hk
      simp
    · have hk' : (k₀ == k) = false := by simpa using Ne.symm hk
      simp [hk, hk']

theorem Moved.owes_le (hbal : Balanced S.prog) (h : Moved S c s e s') (k : κ) (c' : ι) :
    owes S k (s'.pc c') ≤ owes S k (s.pc c') := by
  by_cases hc : c' = c
  · subst hc
    have hsum := h.counter_add_owes hbal k
    have hle : s'.counter k ≤ s.counter k := by
      cases h with
      | dec _ _ | drain _ =>
        simp only [State.goto, State.decr, Function.update_apply]
        split
        · subst_vars; omega
        · exact le_refl _
      | _ => exact le_refl _
    omega
  · rw [h.pc_of_ne hc]

theorem Moved.idx_bounds (h : Moved S c s e s') :
    (s.pc c).idx ≤ (s'.pc c).idx ∧ (s'.pc c).idx ≤ (s.pc c).idx + 1 := by
  cases h with
  | skip hpc | start hpc | finish hpc | fail hpc | swap hpc | dec hpc | pass hpc | go hpc
  | abort hpc | drain hpc =>
    rw [hpc, goto_pc]
    simp [Pc.idx]

/-- A process moves past `wait k` only when the counter is 0. -/
theorem Moved.counter_eq_zero (h : Moved S c s e s') {j : ℕ}
    (hj : S.prog[j]? = some (.wait k)) (hle : (s.pc c).idx ≤ j) (hlt : j < (s'.pc c).idx) :
    s.counter k = 0 := by
  obtain rfl : (s.pc c).idx = j := by
    have := h.idx_bounds
    omega
  cases h with
  | @skip i b ins ph hpc hi hcode _ =>
    rw [hpc, Pc.idx, hi, Option.some_inj] at hj
    rw [hj] at hcode
    cases hcode
  | @finish i ins f ph hpc hi hcode _ _ =>
    rw [hpc, Pc.idx, hi, Option.some_inj] at hj
    rw [hj] at hcode
    cases hcode
  | fail hpc hi | dec hpc hi | go hpc hi =>
    rw [hpc, Pc.idx, hi] at hj
    cases hj
  | @pass i b k₀ hpc hi hk =>
    rw [hpc, Pc.idx, hi] at hj
    cases hj
    exact hk
  | start hpc | swap hpc | abort hpc | drain hpc =>
    rw [hpc, goto_pc] at hlt
    exact absurd hlt (lt_irrefl _)

/-! ### The counters -/

/-- Each counter is the number of decrements still owed to it. -/
theorem counter_eq (hwf : WellFormed S) (h : Run (next S) S.init tr s) (k : κ) :
    s.counter k = ∑ c ∈ S.procs, (owes S k (s.pc c) : ℤ) := by
  refine h.invariant (I := fun _ s => s.counter k = ∑ c ∈ S.procs, (owes S k (s.pc c) : ℤ))
    ?_ ?_
  · have hone : owes S k (.run 0 false : Pc κ) = 1 := by
      simpa [owes] using hwf.once k
    simp [System.init, hone]
  · rintro tr s e s' _ ih ⟨c, hc, hstep⟩
    have hm := step_moved hstep
    have hrest : ∑ x ∈ S.procs.erase c, (owes S k (s'.pc x) : ℤ)
        = ∑ x ∈ S.procs.erase c, (owes S k (s.pc x) : ℤ) :=
      Finset.sum_congr rfl fun x hx => by rw [hm.pc_of_ne (Finset.ne_of_mem_erase hx)]
    have hsum := Finset.add_sum_erase S.procs (fun x => (owes S k (s.pc x) : ℤ)) hc
    have hsum' := Finset.add_sum_erase S.procs (fun x => (owes S k (s'.pc x) : ℤ)) hc
    have hone := hm.counter_add_owes hwf.balanced k
    rw [← hsum', hrest]
    linarith

/-- **The barrier rule.**  Once a process has passed `wait k`, no process owes
`k` a decrement any more. -/
theorem owes_eq_zero_of_passed (hwf : WellFormed S) (h : Run (next S) S.init tr s) {j : ℕ}
    (hj : S.prog[j]? = some (.wait k)) {c : ι} (hc : c ∈ S.procs)
    (hpast : j < (s.pc c).idx) : ∀ c' ∈ S.procs, owes S k (s.pc c') = 0 := by
  refine h.invariant (I := fun _ s => ∀ c ∈ S.procs, j < (s.pc c).idx →
    ∀ c' ∈ S.procs, owes S k (s.pc c') = 0) ?_ ?_ c hc hpast
  · intro c _ hlt
    exact absurd hlt (Nat.not_lt_zero _)
  · rintro tr s e s' hrun ih ⟨c₀, hc₀, hstep⟩ c hc hlt c' hc'
    have hm := step_moved hstep
    suffices hzero : owes S k (s.pc c') = 0 from
      Nat.le_zero.mp (hzero ▸ hm.owes_le hwf.balanced k c')
    by_cases hold : j < (s.pc c).idx
    · exact ih c hc hold c' hc'
    · -- only the moving process can have passed the barrier just now
      obtain rfl : c = c₀ := by
        by_contra hne
        rw [hm.pc_of_ne hne] at hlt
        exact hold hlt
      have hk := hm.counter_eq_zero hj (Nat.le_of_not_lt hold) hlt
      rw [counter_eq hwf hrun] at hk
      have hall := (Finset.sum_eq_zero_iff_of_nonneg
        (fun x _ => Int.natCast_nonneg (owes S k (s.pc x)))).mp hk
      exact_mod_cast hall c' hc'

omit [DecidableEq ι] in
/-- A process that owes `k` nothing and is still in the program is past the
instruction that decrements it. -/
theorem lt_idx_of_owes_eq_zero {p : Pc κ} {d : ℕ} (hd : S.prog[d]? = some (.dec k))
    (hp : ∀ i e ks, p ≠ .leave i e ks) (h : owes S k p = 0) : d < p.idx := by
  by_contra hle
  have hmem := mem_decs_drop hd (Nat.le_of_not_lt hle)
  have hpos := List.count_pos_iff.mpr hmem
  cases p with
  | run i b => exact absurd h hpos.ne'
  | swap i e => exact absurd h hpos.ne'
  | leave i e ks => exact hp i e ks rfl

/-! ### The trace -/

variable [DecidableEq φ]

/-- Whether process `c` runs the phase `ph` at this instruction. -/
def Instr.runsOn (S : System ι κ φ) (c : ι) (ph : φ) (ins : Instr κ φ) : Bool :=
  match ins.code with
  | some (f, ph') => ph' == ph && (!f || S.first c)
  | none => false

/-- How often process `c` runs `ph` in the first `n` instructions. -/
def runsIn (S : System ι κ φ) (c : ι) (ph : φ) (n : ℕ) : ℕ :=
  (S.prog.take n).countP (Instr.runsOn S c ph)

omit [DecidableEq ι] [DecidableEq κ] in
theorem runsIn_succ {i : ℕ} {ins : Instr κ φ} (c : ι) (ph : φ)
    (hi : S.prog[i]? = some ins) :
    runsIn S c ph (i + 1) = runsIn S c ph i + if ins.runsOn S c ph then 1 else 0 := by
  rw [runsIn, List.take_add_one, hi, Option.toList_some, List.countP_append]
  simp [runsIn, List.countP_cons]

omit [DecidableEq ι] [DecidableEq κ] in
theorem runsIn_succ_of_not {i : ℕ} {ins : Instr κ φ} (c : ι) (ph : φ)
    (hi : S.prog[i]? = some ins) (hrun : ins.runsOn S c ph = false) :
    runsIn S c ph (i + 1) = runsIn S c ph i := by
  rw [runsIn_succ c ph hi, hrun]
  simp

omit [DecidableEq ι] [DecidableEq κ] in
theorem runsIn_pos {i n : ℕ} {ins : Instr κ φ} {c : ι} {ph : φ}
    (hi : S.prog[i]? = some ins) (hrun : ins.runsOn S c ph = true) (hin : i < n) :
    0 < runsIn S c ph n := by
  refine List.countP_pos_iff.mpr ⟨ins, ?_, hrun⟩
  refine List.mem_of_getElem? (i := i) ?_
  rw [List.getElem?_take_of_lt hin]
  exact hi

omit [DecidableEq ι] [DecidableEq κ] in
theorem runsIn_le (S : System ι κ φ) (c : ι) (ph : φ) (n : ℕ) :
    runsIn S c ph n ≤ S.prog.countP (Instr.runsOn S c ph) :=
  (List.take_sublist n S.prog).countP_le

omit [DecidableEq ι] [DecidableEq κ] in
theorem Instr.runsOn_of_code {ins : Instr κ φ} {f : Bool} {ph : φ} {c : ι}
    (hcode : ins.code = some (f, ph)) (hfirst : f = true → S.first c = true) (ph' : φ) :
    ins.runsOn S c ph' = (ph == ph') := by
  rw [Instr.runsOn, hcode]
  cases f
  · simp
  · simp [hfirst rfl]

/-- The trace of a process up to its position: how often each phase was begun
and ended. -/
theorem trace_eq (h : Run (next S) S.init tr s) (c : ι) (ph : φ) :
    tr.count (.start c ph) = runsIn S c ph (s.pc c).begun ∧
      tr.count (.finish c ph) = runsIn S c ph (s.pc c).idx := by
  refine h.invariant (I := fun tr s =>
    tr.count (.start c ph) = runsIn S c ph (s.pc c).begun ∧
      tr.count (.finish c ph) = runsIn S c ph (s.pc c).idx) ?_ ?_
  · simp [System.init, Pc.begun, Pc.idx, runsIn]
  · rintro tr s e s' _ ⟨ihs, ihf⟩ ⟨c₀, -, hstep⟩
    have hm := step_moved hstep
    by_cases hc : c = c₀
    · subst hc
      cases hm with
      | @skip i b ins ph' hpc hi hcode hfirst =>
        have hrun : ins.runsOn S c ph = false := by
          simp [Instr.runsOn, hcode, hfirst]
        rw [hpc] at ihs ihf
        rw [goto_pc, Option.toList_none, List.append_nil, ihs, ihf]
        cases b <;> simp [Pc.begun, Pc.idx, runsIn_succ_of_not c ph hi hrun]
      | @start i ins f ph' hpc hi hcode hfirst =>
        rw [hpc] at ihs ihf
        rw [goto_pc, Option.toList_some, List.count_append, List.count_append, ihs, ihf]
        have hrun := Instr.runsOn_of_code hcode hfirst ph
        constructor
        · simp only [Pc.begun]
          rw [runsIn_succ c ph hi, hrun, List.count_singleton]
          simp
        · simp [Pc.idx]
      | @finish i ins f ph' hpc hi hcode hfirst _ =>
        rw [hpc] at ihs ihf
        rw [goto_pc, Option.toList_some, List.count_append, List.count_append, ihs, ihf]
        have hrun := Instr.runsOn_of_code hcode hfirst ph
        constructor
        · simp [Pc.begun]
        · simp only [Pc.idx]
          rw [runsIn_succ c ph hi, hrun, List.count_singleton]
          simp
      | @fail i f ph' hpc hi hfirst _ =>
        rw [hpc] at ihs ihf
        rw [goto_pc, Option.toList_some, List.count_append, List.count_append, ihs, ihf]
        have hcode : (Instr.check f ph' : Instr κ φ).code = some (f, ph') := rfl
        have hrun := Instr.runsOn_of_code hcode hfirst ph
        constructor
        · simp [Pc.begun]
        · simp only [Pc.idx]
          rw [runsIn_succ c ph hi, hrun, List.count_singleton]
          simp
      | @dec i b k hpc hi | @pass i b k hpc hi _ | @go i b ks hpc hi _
      | @abort i b ks hpc hi _ =>
        rw [hpc] at ihs ihf
        rw [goto_pc, Option.toList_none, List.append_nil, ihs, ihf]
        cases b <;> simp [Pc.begun, Pc.idx, runsIn_succ_of_not c ph hi rfl]
      | swap hpc | drain hpc =>
        rw [hpc] at ihs ihf
        rw [goto_pc, Option.toList_none, List.append_nil, ihs, ihf]
        exact ⟨rfl, rfl⟩
    · -- an event of another process
      rw [hm.pc_of_ne hc]
      have hevent : ∀ x ∈ e.toList, x ≠ .start c ph ∧ x ≠ .finish c ph := by
        intro x hx
        cases hm with
        | start | finish | fail =>
          rw [Option.toList_some, List.mem_singleton] at hx
          subst hx
          simp [Ne.symm hc]
        | _ => simp at hx
      have hs : e.toList.count (.start c ph) = 0 :=
        List.count_eq_zero.mpr fun hmem => (hevent _ hmem).1 rfl
      have hf : e.toList.count (.finish c ph) = 0 :=
        List.count_eq_zero.mpr fun hmem => (hevent _ hmem).2 rfl
      rw [List.count_append, List.count_append, hs, hf]
      exact ⟨ihs, ihf⟩

/-- A process that has passed an instruction has finished its phase. -/
theorem finish_mem (h : Run (next S) S.init tr s) {i : ℕ} {ins : Instr κ φ} {f : Bool}
    {ph : φ} {c : ι} (hi : S.prog[i]? = some ins) (hcode : ins.code = some (f, ph))
    (hfirst : f = true → S.first c = true) (hpast : i < (s.pc c).idx) :
    Event.finish c ph ∈ tr := by
  refine List.count_pos_iff.mp ?_
  rw [(trace_eq h c ph).2]
  refine runsIn_pos hi ?_ hpast
  rw [Instr.runsOn_of_code hcode hfirst, beq_self_eq_true]

omit [DecidableEq φ] in
/-- A process begins a phase at an instruction that runs it, inside the
program. -/
theorem next_start {e : Option (Event ι φ)} {ph : φ} (h : next S s e s')
    (he : e = some (.start c ph)) :
    ∃ i ins f, c ∈ S.procs ∧ s.pc c = .run i false ∧ S.prog[i]? = some ins ∧
      ins.code = some (f, ph) ∧ (f = true → S.first c = true) := by
  obtain ⟨c₀, hc₀, hstep⟩ := h
  cases step_moved hstep with
  | @start i ins f ph' hpc hi hcode hfirst =>
    cases he
    exact ⟨i, ins, f, hc₀, hpc, hi, hcode, hfirst⟩
  | _ => cases he

omit [DecidableEq φ] in
/-- A process ends a phase at an instruction that runs it, inside the program. -/
theorem next_finish {e : Option (Event ι φ)} {ph : φ} (h : next S s e s')
    (he : e = some (.finish c ph)) :
    ∃ (i : ℕ) (ins : Instr κ φ) (f : Bool), c ∈ S.procs ∧ S.prog[i]? = some ins ∧
      ins.code = some (f, ph) ∧ (f = true → S.first c = true) := by
  obtain ⟨c₀, hc₀, hstep⟩ := h
  cases step_moved hstep with
  | @finish i ins f ph' _ hi hcode hfirst _ =>
    cases he
    exact ⟨i, ins, f, hc₀, hi, hcode, hfirst⟩
  | @fail i f ph' _ hi hfirst _ =>
    cases he
    exact ⟨i, _, f, hc₀, hi, rfl, hfirst⟩
  | _ => cases he

/-- The phases that process `c` has ended, oldest first. -/
def finished (c : ι) (tr : List (Event ι φ)) : List φ :=
  tr.filterMap fun
    | .finish c' ph => if c' = c then some ph else none
    | .start _ _ => none

/-- The phase that process `c` runs at this instruction. -/
def Instr.phaseOn (S : System ι κ φ) (c : ι) (ins : Instr κ φ) : Option φ :=
  match ins.code with
  | some (f, ph) => if f = true → S.first c = true then some ph else none
  | none => none

omit [DecidableEq ι] [DecidableEq κ] [DecidableEq φ] in
theorem filterMap_take_succ {i : ℕ} {ins : Instr κ φ} (c : ι) (hi : S.prog[i]? = some ins) :
    (S.prog.take (i + 1)).filterMap (Instr.phaseOn S c) =
      (S.prog.take i).filterMap (Instr.phaseOn S c) ++ (ins.phaseOn S c).toList := by
  rw [List.take_add_one, hi, Option.toList_some, List.filterMap_append]
  cases hph : ins.phaseOn S c <;> simp [hph]

omit [DecidableEq φ] in
/-- A process ends the phases of the program in their order. -/
theorem finished_eq (h : Run (next S) S.init tr s) (c : ι) :
    finished c tr = (S.prog.take (s.pc c).idx).filterMap (Instr.phaseOn S c) := by
  refine h.invariant (I := fun tr s =>
    finished c tr = (S.prog.take (s.pc c).idx).filterMap (Instr.phaseOn S c)) ?_ ?_
  · simp [System.init, Pc.idx, finished]
  · rintro tr s e s' _ ih ⟨c₀, -, hstep⟩
    have hm := step_moved hstep
    have happ : finished c (tr ++ e.toList) = finished c tr ++ finished c e.toList :=
      List.filterMap_append
    rw [happ, ih]
    by_cases hc : c = c₀
    · subst hc
      cases hm with
      | @skip i b ins ph hpc hi hcode hfirst =>
        have hph : ins.phaseOn S c = none := by simp [Instr.phaseOn, hcode, hfirst]
        rw [hpc, goto_pc]
        simp only [Pc.idx]
        rw [filterMap_take_succ c hi, hph]
        rfl
      | @finish i ins f ph hpc hi hcode hfirst _ =>
        have hph : ins.phaseOn S c = some ph := by
          simp only [Instr.phaseOn, hcode]
          exact if_pos hfirst
        rw [hpc, goto_pc]
        simp only [Pc.idx]
        rw [filterMap_take_succ c hi, hph]
        simp [finished]
      | @fail i f ph hpc hi hfirst _ =>
        have hph : (Instr.check f ph : Instr κ φ).phaseOn S c = some ph := if_pos hfirst
        rw [hpc, goto_pc]
        simp only [Pc.idx]
        rw [filterMap_take_succ c hi, hph]
        simp [finished]
      | @dec i b k hpc hi | @pass i b k hpc hi _ | @go i b ks hpc hi _ =>
        rw [hpc, goto_pc]
        simp only [Pc.idx]
        rw [filterMap_take_succ c hi]
        rfl
      | start hpc _ _ _ | swap hpc | abort hpc _ _ | drain hpc =>
        rw [hpc, goto_pc]
        simp [Pc.idx, finished]
    · -- an event of another process
      have hnil : finished c e.toList = [] := by
        cases hm with
        | finish | fail => simp [finished, Ne.symm hc]
        | _ => rfl
      rw [hm.pc_of_ne hc, hnil, List.append_nil]

/-- What the phases of a trace do to data, in the order in which they end. -/
def traceEffect {δ : Type*} (effect : φ → δ → δ) (tr : List (Event ι φ)) (d : δ) : δ :=
  tr.foldl (fun d e =>
    match e with
    | .finish _ ph => effect ph d
    | .start _ _ => d) d

omit [DecidableEq φ] in
/-- Data that only process `c₀` changes is changed by its phases in their order. -/
theorem traceEffect_eq {δ : Type*} (effect : φ → δ → δ) {c₀ : ι}
    (hother : ∀ c ph, Event.finish c ph ∈ tr → c ≠ c₀ → ∀ d, effect ph d = d) (d : δ) :
    traceEffect effect tr d = (finished c₀ tr).foldl (fun d ph => effect ph d) d := by
  induction tr generalizing d with
  | nil => rfl
  | cons e tr ih =>
    have htail := ih fun c ph hmem => hother c ph (List.mem_cons_of_mem e hmem)
    cases e with
    | start c ph => exact htail d
    | finish c ph =>
      show traceEffect effect tr (effect ph d) = _
      rw [htail]
      by_cases hc : c = c₀
      · simp [finished, hc]
      · rw [hother c ph List.mem_cons_self hc d]
        simp [finished, hc]

omit [DecidableEq ι] [DecidableEq κ] [DecidableEq φ] in
theorem traceEffect_of_unchanged {δ : Type*} {effect : φ → δ → δ} {tr : List (Event ι φ)}
    (hid : ∀ c ph, Event.finish c ph ∈ tr → ∀ d, effect ph d = d) (d : δ) :
    traceEffect effect tr d = d := by
  induction tr with
  | nil => rfl
  | cons e tr ih =>
    have htail := ih fun c ph hmem => hid c ph (List.mem_cons_of_mem e hmem)
    cases e with
    | start c ph => exact htail
    | finish c ph =>
      show traceEffect effect tr (effect ph d) = d
      rw [hid c ph List.mem_cons_self d]
      exact htail

/-- What was ended was begun. -/
theorem start_mem_of_finish (h : Run (next S) S.init tr s) {c : ι} {ph : φ}
    (hmem : Event.finish c ph ∈ tr) : Event.start c ph ∈ tr := by
  have hle : (s.pc c).idx ≤ (s.pc c).begun := by
    cases s.pc c with
    | run i b => cases b <;> simp [Pc.idx, Pc.begun]
    | _ => exact le_rfl
  have hsub : S.prog.take (s.pc c).idx <+: S.prog.take (s.pc c).begun :=
    List.take_prefix_take_left hle
  have hpos : 0 < tr.count (.finish c ph) := List.count_pos_iff.mpr hmem
  rw [(trace_eq h c ph).2] at hpos
  refine List.count_pos_iff.mp ?_
  rw [(trace_eq h c ph).1]
  exact hpos.trans_le hsub.sublist.countP_le

/-- The beginnings of a phase, on whatever process. -/
def Event.starts (ph : φ) : Event ι φ → Bool
  | .start _ ph' => ph' == ph
  | .finish _ _ => false

/-- A phase that one process runs at most once is run at most once. -/
theorem countP_starts_le (h : Run (next S) S.init tr s) {ph : φ} {c₀ : ι}
    (hc₀ : ∀ c, Event.start c ph ∈ tr → c = c₀)
    (hone : S.prog.countP (Instr.runsOn S c₀ ph) ≤ 1) : tr.countP (Event.starts ph) ≤ 1 := by
  have hcount : tr.countP (Event.starts ph) = tr.count (.start c₀ ph) := by
    refine List.countP_congr ?_
    intro x hx
    cases x with
    | start c ph' =>
      by_cases hph : ph' = ph
      · subst hph
        simp [Event.starts, hc₀ c hx]
      · simp [Event.starts, hph]
    | finish c ph' => simp [Event.starts]
  rw [hcount, (trace_eq h c₀ ph).1]
  exact (runsIn_le S c₀ ph _).trans hone

end Rules

end BarrierProgram
