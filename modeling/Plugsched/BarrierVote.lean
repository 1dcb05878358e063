/-
Voting through the error word.

In a `Voting` program all checks come before one barrier and all `abort`s after
it.  Every process that reads the error word then reads the same, final value:

* `agree` — a process that went on past an `abort` read 0, one that left reads
  what the error word still holds;
* `error_outcome` — the error word holds what some check has returned;
* `error_ne_zero_iff` — once all processes are past the barrier, the error word
  is set exactly if some check failed;
* `not_start_of_fails`, `returned_of_fails`, `returned_of_not_fails` — all or
  nothing.
-/
import Plugsched.BarrierRules

open Runs

namespace BarrierProgram

variable {ι κ φ : Type*} [DecidableEq ι] [DecidableEq κ] {S : System ι κ φ}
  {a : κ} {d w : ℕ} {c : ι} {s s' : State ι κ} {e : Option (Event ι φ)}
  {tr : List (Event ι φ)}

/-- All checks before the barrier on `a` (decremented at `d`, awaited at `w`),
all `abort`s after it. -/
structure Voting (S : System ι κ φ) (a : κ) (d w : ℕ) : Prop where
  dec : S.prog[d]? = some (.dec a)
  wait : S.prog[w]? = some (.wait a)
  lt : d < w
  check_lt : ∀ i f ph, S.prog[i]? = some (.check f ph) → i < d
  lt_abort : ∀ i ks, S.prog[i]? = some (.abort ks) → w < i

/-- Some check that is made fails on its process. -/
def Fails (S : System ι κ φ) : Prop :=
  ∃ c ∈ S.procs, ∃ (i : ℕ) (f : Bool) (ph : φ), S.prog[i]? = some (.check f ph) ∧
    (f = true → S.first c = true) ∧ S.outcome ph c ≠ 0

/-- What the position of a process says about its checks. -/
def PcOk (S : System ι κ φ) (c : ι) : Pc κ → Prop
  | .run _ _ => True
  | .swap i e => ∃ (j : ℕ) (f : Bool) (ph : φ), i = j + 1 ∧ S.prog[j]? = some (.check f ph) ∧
      (f = true → S.first c = true) ∧ e = S.outcome ph c ∧ e ≠ 0
  | .leave i e _ => e ≠ 0 ∧ ∃ ks, S.prog[i]? = some (.abort ks)

theorem pcOk (h : Run (next S) S.init tr s) (c : ι) : PcOk S c (s.pc c) := by
  refine h.invariant (I := fun _ s => PcOk S c (s.pc c)) ?_ ?_
  · trivial
  rintro tr s e s' _ ih ⟨c₀, -, hstep⟩
  have hm := step_moved hstep
  by_cases hc : c = c₀
  · subst hc
    cases hm with
    | @fail i f ph hpc hi hfirst hfail =>
      rw [goto_pc]
      exact ⟨i, f, ph, rfl, hi, hfirst, rfl, hfail⟩
    | @abort i b ks hpc hi he =>
      rw [goto_pc]
      exact ⟨he, ks, hi⟩
    | drain hpc =>
      rw [hpc] at ih
      rw [goto_pc]
      exact ih
    | _ =>
      rw [goto_pc]
      trivial
  · rw [hm.pc_of_ne hc]
    exact ih

/-- The error word is never cleared. -/
theorem Moved.error_ne_zero (h : Moved S c s e s') (he : s.error ≠ 0) : s'.error ≠ 0 := by
  cases h with
  | swap hpc =>
    simp only [State.goto]
    rw [if_neg he]
    exact he
  | _ => exact he

/-- Only a process on its way from a failed check writes the error word. -/
theorem Moved.error_eq (h : Moved S c s e s') (hne : ∀ i v, s.pc c ≠ .swap i v) :
    s'.error = s.error := by
  cases h with
  | swap hpc => exact absurd hpc (hne _ _)
  | _ => rfl

/-- Past an `abort`, having read 0. -/
def WentOn (S : System ι κ φ) : Pc κ → Prop
  | .run i _ => ∃ v ks, v < i ∧ S.prog[v]? = some (.abort ks)
  | _ => False

/-- A process that has read the error word is past the barrier. -/
theorem Voting.lt_idx (hv : Voting S a d w) (h : Run (next S) S.init tr s)
    (hread : WentOn S (s.pc c) ∨ ∃ i v ks, s.pc c = .leave i v ks) : w < (s.pc c).idx := by
  rcases hread with hon | ⟨i, v, ks, hpc⟩
  · cases hpc : s.pc c with
    | run i b =>
      rw [hpc] at hon
      obtain ⟨v, ks, hlt, habort⟩ := hon
      exact (hv.lt_abort v ks habort).trans hlt
    | swap i v => rw [hpc] at hon; exact hon.elim
    | leave i v ks => rw [hpc] at hon; exact hon.elim
  · have hok := pcOk h c
    rw [hpc] at hok ⊢
    obtain ⟨-, ks', habort⟩ := hok
    exact hv.lt_abort i ks' habort

/-- Once some process is past the barrier, every process has made its checks
and recorded their results. -/
theorem Voting.voted (hv : Voting S a d w) (hwf : WellFormed S)
    (h : Run (next S) S.init tr s) (hc : c ∈ S.procs) (hpast : w < (s.pc c).idx) :
    ∀ c' ∈ S.procs, d < (s.pc c').idx ∧ ∀ i v, s.pc c' ≠ .swap i v := by
  intro c' hc'
  have howes := owes_eq_zero_of_passed hwf h hv.wait hc hpast c' hc'
  have hok := pcOk h c'
  cases hpc : s.pc c' with
  | run i b =>
    rw [hpc] at howes
    exact ⟨lt_idx_of_owes_eq_zero hv.dec (by simp) howes, by simp⟩
  | swap i v =>
    -- a process that still has an error to record has not reached `dec a`
    rw [hpc] at howes hok
    obtain ⟨j, f, ph, rfl, hcheck, -, -⟩ := hok
    have hlt := lt_idx_of_owes_eq_zero (S := S) hv.dec (by simp) howes
    have hj := hv.check_lt j f ph hcheck
    simp only [Pc.idx] at hlt
    omega
  | leave i v ks =>
    rw [hpc] at hok
    obtain ⟨-, ks', habort⟩ := hok
    have hlt := hv.lt_abort i ks' habort
    exact ⟨hv.lt.trans hlt, by simp⟩

/-- **Agreement.**  Whoever went on has read 0 and whoever leaves has read
what the error word holds, now and for the rest of the run. -/
theorem agree (hwf : WellFormed S) (hv : Voting S a d w) (h : Run (next S) S.init tr s) :
    ∀ c ∈ S.procs, (WentOn S (s.pc c) → s.error = 0) ∧
      ∀ i v ks, s.pc c = .leave i v ks → s.error = v := by
  refine h.invariant (I := fun _ s => ∀ c ∈ S.procs, (WentOn S (s.pc c) → s.error = 0) ∧
    ∀ i v ks, s.pc c = .leave i v ks → s.error = v) ?_ ?_
  · intro c _
    refine ⟨?_, by simp [System.init]⟩
    rintro ⟨v, ks, hlt, -⟩
    exact absurd hlt (Nat.not_lt_zero v)
  · rintro tr s e s' hrun ih ⟨c₀, hc₀, hstep⟩ c hc
    have hm := step_moved hstep
    have hrun' : Run (next S) S.init (tr ++ e.toList) s' := hrun.snoc ⟨c₀, hc₀, hstep⟩
    by_cases hread : WentOn S (s'.pc c) ∨ ∃ i v ks, s'.pc c = .leave i v ks
    · -- all votes are in, so this step did not change the error word
      have hvoted := hv.voted hwf hrun' hc (hv.lt_idx hrun' hread)
      have herr : s'.error = s.error := by
        refine hm.error_eq ?_
        intro i v hpc
        obtain ⟨hlt, -⟩ := hvoted c₀ hc₀
        have hok := pcOk hrun c₀
        cases hm with
        | swap hpc' =>
          rw [hpc'] at hok
          rw [goto_pc] at hlt
          obtain ⟨j, f, ph, rfl, hcheck, -, -⟩ := hok
          have hj := hv.check_lt j f ph hcheck
          simp only [Pc.idx] at hlt
          omega
        | skip hpc' | start hpc' | finish hpc' | fail hpc' | dec hpc' | pass hpc'
        | go hpc' | abort hpc' | drain hpc' => rw [hpc'] at hpc; cases hpc
      rw [herr]
      by_cases hcc : c = c₀
      · subst hcc
        obtain ⟨ihon, ihleave⟩ := ih c hc
        cases hm with
        | @skip i b ins ph hpc hi hcode _ | @finish i ins f ph hpc hi hcode _ _ =>
          rw [goto_pc]
          refine ⟨?_, by simp⟩
          rintro ⟨v, ks, hlt, habort⟩
          refine ihon ?_
          rw [hpc]
          refine ⟨v, ks, lt_of_le_of_ne (Nat.le_of_lt_succ hlt) ?_, habort⟩
          rintro rfl
          rw [hi, Option.some_inj] at habort
          rw [habort] at hcode
          cases hcode
        | @dec i b k hpc hi | @pass i b k hpc hi _ =>
          rw [goto_pc]
          refine ⟨?_, by simp⟩
          rintro ⟨v, ks, hlt, habort⟩
          refine ihon ?_
          rw [hpc]
          refine ⟨v, ks, lt_of_le_of_ne (Nat.le_of_lt_succ hlt) ?_, habort⟩
          rintro rfl
          rw [hi] at habort
          cases habort
        | @start i ins f ph hpc hi hcode _ =>
          rw [goto_pc]
          rw [hpc] at ihon
          exact ⟨ihon, by simp⟩
        | fail hpc =>
          rw [goto_pc]
          exact ⟨False.elim, by simp⟩
        | @swap i v hpc =>
          rw [goto_pc] at hread
          rcases hread with ⟨v', ks, hlt, habort⟩ | ⟨_, _, _, hcon⟩
          · have hok := pcOk hrun c
            rw [hpc] at hok
            obtain ⟨j, f, ph, rfl, hcheck, -, -⟩ := hok
            have := hv.check_lt j f ph hcheck
            have := hv.lt
            have := hv.lt_abort v' ks habort
            omega
          · cases hcon
        | go hpc hi he => exact ⟨fun _ => he, by simp [goto_pc]⟩
        | @abort i b ks hpc hi he =>
          rw [goto_pc]
          refine ⟨False.elim, ?_⟩
          rintro i' v' ks' hcon
          cases hcon
          rfl
        | @drain i v k ks hpc =>
          rw [goto_pc]
          refine ⟨False.elim, ?_⟩
          rintro i' v' ks' hcon
          cases hcon
          exact ihleave i v (k :: ks) hpc
      · rw [hm.pc_of_ne hcc]
        exact ih c hc
    · rw [not_or] at hread
      exact ⟨fun hon => absurd hon hread.1, fun i v ks hpc => absurd ⟨i, v, ks, hpc⟩ hread.2⟩

/-- A failed check whose process has recorded it has set the error word. -/
theorem error_ne_zero_of_checked (h : Run (next S) S.init tr s) {i : ℕ} {f : Bool} {ph : φ}
    (hi : S.prog[i]? = some (.check f ph)) (hfirst : f = true → S.first c = true)
    (hfail : S.outcome ph c ≠ 0) (hlt : i < (s.pc c).idx)
    (hswap : ∀ i v, s.pc c ≠ .swap i v) : s.error ≠ 0 := by
  suffices hor : s.error ≠ 0 ∨ ∃ v, v ≠ 0 ∧ s.pc c = .swap (i + 1) v by
    rcases hor with he | ⟨v, -, hpc⟩
    · exact he
    · exact absurd hpc (hswap _ _)
  clear hswap
  refine h.invariant (I := fun _ s => i < (s.pc c).idx →
    s.error ≠ 0 ∨ ∃ v, v ≠ 0 ∧ s.pc c = .swap (i + 1) v) ?_ ?_ hlt
  · intro hlt
    exact absurd hlt (Nat.not_lt_zero i)
  · rintro tr s e s' hrun ih ⟨c₀, -, hstep⟩ hlt
    have hm := step_moved hstep
    by_cases hc : c = c₀
    · subst hc
      by_cases hold : i < (s.pc c).idx
      · rcases ih hold with he | ⟨v, hv0, hpc⟩
        · exact .inl (hm.error_ne_zero he)
        · -- the pending error is recorded now
          left
          cases hm with
          | @swap j v' hpc' =>
            rw [hpc'] at hpc
            cases hpc
            simp only [State.goto]
            split
            · exact hv0
            · assumption
          | skip hpc' | start hpc' | finish hpc' | fail hpc' | dec hpc' | pass hpc'
          | go hpc' | abort hpc' | drain hpc' => rw [hpc'] at hpc; cases hpc
      · obtain rfl : (s.pc c).idx = i := by
          have := hm.idx_bounds
          omega
        cases hm with
        | @skip j b ins ph' hpc hj hcode hno =>
          rw [hpc, Pc.idx, hj, Option.some_inj] at hi
          subst hi
          cases hcode
          rw [hfirst rfl] at hno
          cases hno
        | @finish j ins f' ph' hpc hj hcode _ hok =>
          rw [hpc, Pc.idx, hj, Option.some_inj] at hi
          subst hi
          cases hcode
          exact absurd (hok rfl) hfail
        | @fail j f' ph' hpc hj _ hfail' =>
          rw [goto_pc, hpc]
          exact .inr ⟨_, hfail', rfl⟩
        | dec hpc hj | pass hpc hj | go hpc hj =>
          rw [hpc, Pc.idx, hj] at hi
          cases hi
        | start hpc | swap hpc | abort hpc | drain hpc =>
          rw [hpc, goto_pc] at hlt
          exact absurd hlt (lt_irrefl _)
    · rw [hm.pc_of_ne hc] at hlt ⊢
      rcases ih hlt with he | hpc
      · exact .inl (hm.error_ne_zero he)
      · exact .inr hpc

/-- What the error word holds is the result of a failed check. -/
theorem error_outcome (h : Run (next S) S.init tr s) (he : s.error ≠ 0) :
    ∃ c ∈ S.procs, ∃ (i : ℕ) (f : Bool) (ph : φ), S.prog[i]? = some (.check f ph) ∧
      (f = true → S.first c = true) ∧ s.error = S.outcome ph c := by
  refine h.invariant (I := fun _ s => s.error ≠ 0 →
    ∃ c ∈ S.procs, ∃ (i : ℕ) (f : Bool) (ph : φ), S.prog[i]? = some (.check f ph) ∧
      (f = true → S.first c = true) ∧ s.error = S.outcome ph c) ?_ ?_ he
  · intro h0
    exact absurd rfl h0
  · rintro tr s e s' hrun ih ⟨c, hc, hstep⟩ he
    by_cases h0 : s.error = 0
    · cases step_moved hstep with
      | @swap i v hpc =>
        have hok := pcOk hrun c
        rw [hpc] at hok
        obtain ⟨j, f, ph, -, hi, hfirst, rfl, -⟩ := hok
        exact ⟨c, hc, j, f, ph, hi, hfirst, if_pos h0⟩
      | _ => exact absurd h0 he
    · -- the word keeps the first error
      have hkeep : s'.error = s.error := by
        cases step_moved hstep with
        | swap hpc => exact if_neg h0
        | _ => rfl
      rw [hkeep]
      exact ih h0

/-- The error word is set only after a failed check. -/
theorem fails_of_error (h : Run (next S) S.init tr s) (he : s.error ≠ 0) : Fails S := by
  obtain ⟨c, hc, i, f, ph, hi, hfirst, heq⟩ := error_outcome h he
  exact ⟨c, hc, i, f, ph, hi, hfirst, heq ▸ he⟩

/-! ### All or nothing -/

/-- Past the barrier, the error word is set exactly if some check failed. -/
theorem error_ne_zero_iff (hwf : WellFormed S) (hv : Voting S a d w)
    (h : Run (next S) S.init tr s) (hc : c ∈ S.procs) (hpast : w < (s.pc c).idx) :
    s.error ≠ 0 ↔ Fails S := by
  constructor
  · exact fails_of_error h
  · rintro ⟨c', hc', i, f, ph, hi, hfirst, hfail⟩
    obtain ⟨hlt, hswap⟩ := hv.voted hwf h hc hpast c' hc'
    exact error_ne_zero_of_checked h hi hfirst hfail
      ((hv.check_lt i f ph hi).trans hlt) hswap

/-- Nobody goes on when a check failed, and nobody leaves when none did. -/
theorem wentOn_not_fails (hwf : WellFormed S) (hv : Voting S a d w)
    (h : Run (next S) S.init tr s) (hc : c ∈ S.procs) (hon : WentOn S (s.pc c)) :
    ¬ Fails S := by
  intro hfails
  have hne := (error_ne_zero_iff hwf hv h hc (hv.lt_idx h (.inl hon))).mpr hfails
  exact hne ((agree hwf hv h c hc).1 hon)

/-- The code of phase `ph` stands behind an `abort` only. -/
def Late (S : System ι κ φ) (ph : φ) : Prop :=
  ∀ (i : ℕ) (ins : Instr κ φ) (f : Bool), S.prog[i]? = some ins →
    ins.code = some (f, ph) → ∃ (v : ℕ) (ks : List κ), v < i ∧ S.prog[v]? = some (.abort ks)

/-- When a check fails, no process ever begins a phase behind an `abort`. -/
theorem not_start_of_fails (hwf : WellFormed S) (hv : Voting S a d w)
    (h : Run (next S) S.init tr s) (hfails : Fails S) {ph : φ} (hlate : Late S ph) (c : ι) :
    Event.start c ph ∉ tr := by
  intro hmem
  obtain ⟨t, s₁, s₂, h1, h12⟩ := h.exists_step hmem
  obtain ⟨i, ins, f, hc, hpc, hi, hcode, -⟩ := next_start h12 rfl
  refine wentOn_not_fails hwf hv h1 hc ?_ hfails
  rw [hpc]
  exact hlate i ins f hi hcode

omit [DecidableEq ι] [DecidableEq κ] in
/-- What a returned process says about its position. -/
theorem returned_cases {r : ℤ} (hr : returned S s c = some r) :
    (∃ i b, s.pc c = .run i b ∧ S.prog.length ≤ i ∧ r = 0) ∨
      ∃ i, s.pc c = .leave i r [] := by
  unfold returned at hr
  split at hr
  · rename_i i b hpc
    split at hr
    · rename_i hlen
      cases hr
      exact .inl ⟨i, b, hpc, hlen, rfl⟩
    · cases hr
  · cases hr
  · rename_i i e hpc
    cases hr
    exact .inr ⟨i, hpc⟩
  · cases hr

/-- When a check fails, every process that returns returns the non-zero value
of the error word. -/
theorem returned_of_fails (hwf : WellFormed S) (hv : Voting S a d w)
    (h : Run (next S) S.init tr s) (hfails : Fails S)
    (habort : ∃ (v : ℕ) (ks : List κ), S.prog[v]? = some (.abort ks)) (hc : c ∈ S.procs) {r : ℤ}
    (hr : returned S s c = some r) : r = s.error ∧ r ≠ 0 := by
  rcases returned_cases hr with ⟨i, b, hpc, hlen, -⟩ | ⟨i, hpc⟩
  · obtain ⟨v, ks, hv'⟩ := habort
    have hlt := (List.getElem?_eq_some_iff.mp hv').choose
    refine absurd hfails (wentOn_not_fails hwf hv h hc ?_)
    rw [hpc]
    exact ⟨v, ks, hlt.trans_le hlen, hv'⟩
  · have hok := pcOk h c
    rw [hpc] at hok
    exact ⟨((agree hwf hv h c hc).2 i r [] hpc).symm, hok.1⟩

/-- When no check fails, every process that returns has gone through the whole
program. -/
theorem length_le_of_not_fails (hwf : WellFormed S) (hv : Voting S a d w)
    (h : Run (next S) S.init tr s) (hno : ¬ Fails S) (hc : c ∈ S.procs) {r : ℤ}
    (hr : returned S s c = some r) : S.prog.length ≤ (s.pc c).idx ∧ r = 0 := by
  rcases returned_cases hr with ⟨i, b, hpc, hlen, hr0⟩ | ⟨i, hpc⟩
  · rw [hpc]
    exact ⟨hlen, hr0⟩
  · have hok := pcOk h c
    rw [hpc] at hok
    have herr := (agree hwf hv h c hc).2 i r [] hpc
    exact absurd (fails_of_error h (herr ▸ hok.1)) hno

/-- When no check fails, every process that returns returns 0. -/
theorem returned_of_not_fails (hwf : WellFormed S) (hv : Voting S a d w)
    (h : Run (next S) S.init tr s) (hno : ¬ Fails S) (hc : c ∈ S.procs) {r : ℤ}
    (hr : returned S s c = some r) : r = 0 :=
  (length_le_of_not_fails hwf hv h hno hc hr).2

/-! ### Ordering phases by a barrier -/

/-- When one process has gone on past `wait k`, all of them are past `dec k`:
none has left the program. -/
theorem lt_idx_of_wentOn (hwf : WellFormed S) (hv : Voting S a d w)
    (h : Run (next S) S.init tr s) {k : κ} {d' w' : ℕ}
    (hd : S.prog[d']? = some (.dec k)) (hw : S.prog[w']? = some (.wait k))
    (hc : c ∈ S.procs) (hon : WentOn S (s.pc c)) (hpast : w' < (s.pc c).idx) :
    ∀ c' ∈ S.procs, d' < (s.pc c').idx := by
  intro c' hc'
  refine lt_idx_of_owes_eq_zero hd ?_ (owes_eq_zero_of_passed hwf h hw hc hpast c' hc')
  intro i v ks hpc
  have hok := pcOk h c'
  rw [hpc] at hok
  have hzero := (agree hwf hv h c hc).1 hon
  exact hok.1 (((agree hwf hv h c' hc').2 i v ks hpc).symm.trans hzero)

/-- A phase behind `wait k` begins only after every process has finished the
phases it runs before `dec k`. -/
theorem finish_before_start [DecidableEq φ] (hwf : WellFormed S) (hv : Voting S a d w)
    (h : Run (next S) S.init tr s) {k : κ} {d' w' i' : ℕ} {ph ph' : φ} {ins' : Instr κ φ}
    {f' : Bool} (hd : S.prog[d']? = some (.dec k)) (hw : S.prog[w']? = some (.wait k))
    (hlate : Late S ph)
    (hafter : ∀ i ins f, S.prog[i]? = some ins → ins.code = some (f, ph) → w' < i)
    (hi' : S.prog[i']? = some ins') (hcode' : ins'.code = some (f', ph')) (hlt : i' < d')
    {c' : ι} (hc' : c' ∈ S.procs) (hfirst' : f' = true → S.first c' = true) (c : ι) :
    Before tr (.finish c' ph') (.start c ph) := by
  refine before_of_run h ?_
  intro t s₁ s₂ h1 h12
  obtain ⟨i, ins, f, hc, hpc, hi, hcode, -⟩ := next_start h12 rfl
  have hon : WentOn S (s₁.pc c) := by
    rw [hpc]
    exact hlate i ins f hi hcode
  have hpast : w' < (s₁.pc c).idx := by
    rw [hpc]
    exact hafter i ins f hi hcode
  have hidx := lt_idx_of_wentOn hwf hv h1 hd hw hc hon hpast c' hc'
  exact finish_mem h1 hi' hcode' hfirst' (hlt.trans hidx)

end BarrierProgram
