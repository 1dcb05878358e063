/-
A stop-machine handler with the checks it really makes.

`recheckSmps` asks every pool whether it still has enough objects, `stackCheck` looks at
the tasks; what they return is what the barrier program of the handler is run with.  The
code takes the first error that any CPU records, and `printError` tells the user its
cause.

* `finds_cause` — every error has a cause, and no cause goes unnoticed;
* `syncSched_verdict` — when an update happens, and what is said when it does not.
-/
import Plugsched.PercpuMempool
import Plugsched.StackCheck
import Plugsched.SyncEffect

open Runs BarrierProgram

namespace Plugsched

/-! ### The checks -/

/-- A line of `recheck_smps`: what the pool must hold at least, and the pool. -/
inductive PoolUse where
  | simple (require : BitVec 32) (smpool : SimpleMempool)
  | percpu (require : BitVec 32) (psmpool : SimplePercpuMempool)

/-- `recheck_mempool_..`, of `DEFINE_RESERVE` or of `DEFINE_RESERVE_PERCPU`. -/
def PoolUse.recheck : PoolUse → ℤ
  | .simple require smpool => recheckMempool require smpool
  | .percpu require psmpool => recheckPercpuMempool require psmpool

/-- The numbers of objects have grown beyond the pool since it was created. -/
def PoolUse.Short : PoolUse → Prop
  | .simple require smpool => require > smpool.objNum
  | .percpu require psmpool => require > psmpool.areas * psmpool.objsPerArea

theorem PoolUse.recheck_eq (r : PoolUse) :
    (r.recheck = 0 ∧ ¬ r.Short) ∨ (r.recheck = -ENOMEM ∧ r.Short) := by
  cases r with
  | simple require smpool =>
    by_cases h : require > smpool.objNum
    · exact .inr ⟨if_pos h, h⟩
    · exact .inl ⟨if_neg h, h⟩
  | percpu require psmpool =>
    by_cases h : require > psmpool.areas * psmpool.objsPerArea
    · exact .inr ⟨if_pos h, h⟩
    · exact .inl ⟨if_neg h, h⟩

/-- `recheck_smps`.  The pools are those that the developer lists; without
`SCHEDMOD_MEMPOOL` there are none. -/
def recheckSmps : List PoolUse → ℤ
  | [] => 0
  | r :: rest => if r.recheck ≠ 0 then r.recheck else recheckSmps rest

/-- What a handler looks at: the pools, and all tasks with what the kernel knows about
their stacks. -/
structure Scene (Task : Type*) (n : ℕ) where
  archStackwalk : Bool
  unwinder : Unwinder Task
  documented : unwinder.Documented
  fns : SchedFns n
  threads : List Task
  idleTask : ℕ → Task
  reserves : List PoolUse

/-- The argument `install` that a handler passes to `stack_check`. -/
def SyncOp.installs (op : SyncOp) : Bool := op = .install

variable {Task : Type*} {n : ℕ} (K : Scene Task n)

/-- `stack_check_task` in this scene. -/
def Scene.checkTask (op : SyncOp) (t : Task) : ℤ :=
  stackCheckTask K.archStackwalk K.unwinder (stackCheckInit K.fns) t op.installs

/-- What the checks of a handler return on a CPU. -/
def Scene.outcome (op : SyncOp) (o : OnlineCpus) (processId : ℕ → ℕ) : Phase → ℕ → ℤ
  | .recheckSmps, _ => recheckSmps K.reserves
  | .stackCheck, cpu => stackCheck o processId (K.checkTask op) K.threads K.idleTask cpu
  | _, _ => 0

/-- The handler with its checks. -/
def Scene.syncSched (op : SyncOp) (o : OnlineCpus) (processId : ℕ → ℕ) :
    System ℕ Counter Phase :=
  stopMachine op o processId (K.outcome op o processId)

/-! ### The messages -/

def notEnoughMemory : String := "scheduler: Error: not enough memory for mempool!\n"

def resourcesBusy : String := "scheduler: Error: Device or resources busy!\n"

def unknownError : String := "scheduler: Error: Unknown\n"

/-- `print_error`, on the first process. -/
def printError (error : ℤ) : String :=
  if error = -ENOMEM then notEnoughMemory
  else if error = -EBUSY then resourcesBusy
  else unknownError

/-- What the handlers have printed: the first process prints when it leaves with an
error. -/
def printed (o : OnlineCpus) (s : State ℕ Counter) : Option String :=
  match s.pc (firstCpu o) with
  | .leave _ error _ => some (printError error)
  | _ => none

/-! ### The causes -/

/-- Some pool is too small for an install. -/
def Scene.Short (op : SyncOp) : Prop := op = .install ∧ ∃ r ∈ K.reserves, r.Short

/-- A task is inside a redirected function, with one of the first `MAX_STACK_ENTRIES`
entries of its trace: the check takes no more than these 100. -/
def Scene.Caught (op : SyncOp) (t : Task) : Prop :=
  ∃ a ∈ (K.unwinder.frames t).take MAX_STACK_ENTRIES, K.fns.InRedirected op.installs a

/-- The check catches some thread, or the idle task of some online CPU. -/
def Scene.Busy (op : SyncOp) (o : OnlineCpus) : Prop :=
  (∃ t ∈ K.threads, K.Caught op t) ∨ ∃ cpu ∈ o.cpus, K.Caught op (K.idleTask cpu)

section Causes

variable {K} {op : SyncOp} {o : OnlineCpus} {processId : ℕ → ℕ}

theorem recheckSmps_eq (rs : List PoolUse) :
    (recheckSmps rs = 0 ∧ ¬ ∃ r ∈ rs, r.Short) ∨
      (recheckSmps rs = -ENOMEM ∧ ∃ r ∈ rs, r.Short) := by
  induction rs with
  | nil => exact .inl ⟨rfl, by simp⟩
  | cons r rs ih =>
    rw [recheckSmps]
    rcases r.recheck_eq with ⟨hr, hfits⟩ | ⟨hr, hshort⟩
    · rw [if_neg (not_not.mpr hr)]
      simp only [List.mem_cons, exists_eq_or_imp, hfits, false_or]
      exact ih
    · have hne : r.recheck ≠ 0 := by
        rw [hr]
        decide
      rw [if_pos hne]
      exact .inr ⟨hr, r, List.mem_cons_self, hshort⟩

theorem checkTask_ne_zero_iff (t : Task) : K.checkTask op t ≠ 0 ↔ K.Caught op t := by
  rw [Scene.checkTask, ne_eq, stackCheckTask_eq_zero_iff K.fns K.documented, Scene.Caught]
  push Not
  exact Iff.rfl

variable (processId) in
theorem busy_iff : K.Busy op o ↔
    ∃ cpu ∈ o.cpus, stackCheck o processId (K.checkTask op) K.threads K.idleTask cpu ≠ 0 := by
  rw [exists_stackCheck_iff]
  simp only [checkTask_ne_zero_iff]
  exact Iff.rfl

variable (o processId) in
theorem stackCheck_eq_or (check : Task → ℤ) (threads : List Task) (idleTask : ℕ → Task)
    (cpu : ℕ) :
    stackCheck o processId check threads idleTask cpu = 0 ∨
      stackCheck o processId check threads idleTask cpu = -EBUSY := by
  rw [stackCheck]
  split
  · exact .inr rfl
  · split
    · exact .inr rfl
    · exact .inl rfl

variable (processId) in
/-- A check of the scene fails exactly if there is a cause. -/
theorem checksFail_scene_iff :
    ChecksFail op o.toCpuMask (K.outcome op o processId) ↔ K.Short op ∨ K.Busy op o := by
  rw [ChecksFail, busy_iff processId]
  refine or_congr (and_congr_right fun _ => ?_) Iff.rfl
  rcases recheckSmps_eq K.reserves with ⟨hzero, hfits⟩ | ⟨herr, hshort⟩
  · exact iff_of_false (fun h => h hzero) hfits
  · refine iff_of_true ?_ hshort
    show recheckSmps K.reserves ≠ 0
    rw [herr]
    decide

/-- An error that a check returns tells its cause. -/
structure Cause (K : Scene Task n) (op : SyncOp) (o : OnlineCpus) (error : ℤ) : Prop where
  known : error = -ENOMEM ∨ error = -EBUSY
  short : error = -ENOMEM → K.Short op
  busy : error = -EBUSY → K.Busy op o

theorem cause_of_short (h : K.Short op) : Cause K op o (-ENOMEM) where
  known := .inl rfl
  short _ := h
  busy heq := by cases heq

theorem cause_of_busy (h : K.Busy op o) : Cause K op o (-EBUSY) where
  known := .inr rfl
  short heq := by cases heq
  busy _ := h

/-- The message names the cause as well. -/
theorem Cause.printed {error : ℤ} (h : Cause K op o error) :
    (printError error = notEnoughMemory ∧ K.Short op) ∨
      (printError error = resourcesBusy ∧ K.Busy op o) := by
  rcases h.known with heq | heq
  · exact .inl ⟨if_pos heq, h.short heq⟩
  · refine .inr ⟨?_, h.busy heq⟩
    rw [printError, if_neg (by rw [heq]; decide), if_pos heq]

/-! ### The runs -/

variable {tr : List (Event ℕ Phase)} {s : State ℕ Counter}

/-- Whatever the error word holds has a cause. -/
theorem finds_cause
    (h : Run (next (K.syncSched op o processId)) (K.syncSched op o processId).init tr s)
    (he : s.error ≠ 0) : Cause K op o s.error := by
  obtain ⟨cpu, hcpu, i, f, ph, hi, -, heq⟩ := error_outcome h he
  have hcpu : cpu ∈ o.cpus := mem_procs.mp hcpu
  rw [heq] at he ⊢
  -- the handlers make two checks only
  have hcheck : (op = .install ∧ ph = .recheckSmps) ∨ ph = .stackCheck := by
    have hmem := List.mk_mem_zipIdx_iff_getElem?.mpr hi
    cases op
    · simp [Scene.syncSched, stopMachine, stopMachineOn, SyncOp.handler, syncSchedInstall] at hmem
      rcases hmem with ⟨⟨-, rfl⟩, -⟩ | ⟨⟨-, rfl⟩, -⟩
      · exact .inl ⟨rfl, rfl⟩
      · exact .inr rfl
    · simp [Scene.syncSched, stopMachine, stopMachineOn, SyncOp.handler, syncSchedRestore] at hmem
      exact .inr hmem.1.2
  rcases hcheck with ⟨rfl, rfl⟩ | rfl
  · have hne : recheckSmps K.reserves ≠ 0 := he
    show Cause K .install o (recheckSmps K.reserves)
    rcases recheckSmps_eq K.reserves with ⟨hzero, -⟩ | ⟨herr, hshort⟩
    · exact absurd hzero hne
    · rw [herr]
      exact cause_of_short ⟨rfl, hshort⟩
  · have hne : stackCheck o processId (K.checkTask op) K.threads K.idleTask cpu ≠ 0 := he
    show Cause K op o (stackCheck o processId (K.checkTask op) K.threads K.idleTask cpu)
    rcases stackCheck_eq_or o processId (K.checkTask op) K.threads
      K.idleTask cpu with hzero | hbusy
    · exact absurd hzero hne
    · rw [hbusy]
      exact cause_of_busy ((busy_iff processId).mpr ⟨cpu, hcpu, hne⟩)

/-- A CPU that leaves has read an error with a cause. -/
theorem cause_of_leave
    (h : Run (next (K.syncSched op o processId)) (K.syncSched op o processId).init tr s)
    {cpu : ℕ} (hcpu : cpu ∈ o.cpus) {i : ℕ} {error : ℤ} {ks : List Counter}
    (hpc : s.pc cpu = .leave i error ks) : Cause K op o error := by
  have hread := (agree stopMachine_wellFormed stopMachine_voting h cpu (mem_procs.mpr hcpu)).2
    i error ks hpc
  have hok := pcOk h cpu
  rw [hpc] at hok
  rw [← hread]
  exact finds_cause h (hread ▸ hok.1)

/-- A CPU that has returned a non-zero value has left with it. -/
theorem cause_of_returned
    (h : Run (next (K.syncSched op o processId)) (K.syncSched op o processId).init tr s)
    {cpu : ℕ} (hcpu : cpu ∈ o.cpus) {ret : ℤ}
    (hret : returned (K.syncSched op o processId) s cpu = some ret) :
    ret = 0 ∨ Cause K op o ret := by
  rcases returned_cases hret with ⟨i, b, -, -, hzero⟩ | ⟨i, hpc⟩
  · exact .inl hzero
  · exact .inr (cause_of_leave h hcpu hpc)

/-- All CPUs that return agree on whether there was a cause. -/
theorem returned_eq_zero_iff
    (h : Run (next (K.syncSched op o processId)) (K.syncSched op o processId).init tr s)
    {cpu : ℕ} (hcpu : cpu ∈ o.cpus) {ret : ℤ}
    (hret : returned (K.syncSched op o processId) s cpu = some ret) :
    ret = 0 ↔ ¬ K.Short op ∧ ¬ K.Busy op o := by
  rw [← not_or, ← checksFail_scene_iff processId]
  have hfails : Fails (K.syncSched op o processId) ↔
      ChecksFail op o.toCpuMask (K.outcome op o processId) :=
    fails_iff
  rw [← hfails]
  constructor
  · intro hzero hfail
    exact (returned_of_fails stopMachine_wellFormed stopMachine_voting h hfail
      ⟨_, _, handler_abort op⟩ (mem_procs.mpr hcpu) hret).2 hzero
  · intro hno
    exact returned_of_not_fails stopMachine_wellFormed stopMachine_voting h hno
      (mem_procs.mpr hcpu) hret

/-- All CPUs return the same value. -/
theorem returned_agree
    (h : Run (next (K.syncSched op o processId)) (K.syncSched op o processId).init tr s)
    {cpu cpu' : ℕ} (hcpu : cpu ∈ o.cpus) (hcpu' : cpu' ∈ o.cpus) {ret ret' : ℤ}
    (hret : returned (K.syncSched op o processId) s cpu = some ret)
    (hret' : returned (K.syncSched op o processId) s cpu' = some ret') : ret = ret' := by
  by_cases hfail : Fails (K.syncSched op o processId)
  · -- both have read the final value of the error word
    have hword : ∀ {c : ℕ} {r : ℤ}, c ∈ o.cpus →
        returned (K.syncSched op o processId) s c = some r → r = s.error :=
      fun hc hr => (returned_of_fails stopMachine_wellFormed stopMachine_voting h hfail
        ⟨_, _, handler_abort op⟩ (mem_procs.mpr hc) hr).1
    rw [hword hcpu hret, hword hcpu' hret']
  · rw [returned_of_not_fails stopMachine_wellFormed stopMachine_voting h hfail
      (mem_procs.mpr hcpu) hret, returned_of_not_fails stopMachine_wellFormed stopMachine_voting h
      hfail (mem_procs.mpr hcpu') hret']

end Causes

/-- **The verdict of a stop-machine handler.**  In every interleaving of the CPUs, whose
ids are below `MAX_CPU_NR`:

* no CPU begins to change the scheduler unless all pools suffice and no thread, and
  no idle task of an online CPU, has a redirected function among the first
  `MAX_STACK_ENTRIES` (100) entries of its trace;
* every value that a CPU returns is 0, or an error with its cause, and so is the message;
* when no CPU can step any more, all have returned one value, which is 0 exactly if
  there was no cause; the kernel was changed by the whole handler then, else by nothing. -/
theorem syncSched_verdict {T : Type*} (M : SchedMod T) (jumps : List (Jump M.arch)) (img : Image T)
    (op : SyncOp) (o : OnlineCpus) (processId : ℕ → ℕ) (tr : List (Event ℕ Phase))
    (s : State ℕ Counter)
    (h : Run (next (K.syncSched op o processId)) (parallelStateCheckInit o.cpus.length) tr s) :
    (∀ cpu, ∀ ph ∈ updatePhases, Event.start cpu ph ∈ tr → ¬ K.Short op ∧ ¬ K.Busy op o) ∧
    (∀ cpu ∈ o.cpus, ∀ ret, returned (K.syncSched op o processId) s cpu = some ret →
      (ret = 0 ∧ ¬ K.Short op ∧ ¬ K.Busy op o) ∨ (ret = -ENOMEM ∧ K.Short op) ∨
        (ret = -EBUSY ∧ K.Busy op o)) ∧
    (∀ msg, printed o s = some msg →
      (msg = notEnoughMemory ∧ K.Short op) ∨ (msg = resourcesBusy ∧ K.Busy op o)) ∧
    (Stuck (K.syncSched op o processId) s →
      ∃ ret, (∀ cpu ∈ o.cpus, returned (K.syncSched op o processId) s cpu = some ret) ∧
        (ret = 0 ↔ ¬ K.Short op ∧ ¬ K.Busy op o) ∧
        traceEffect (phaseEffect M jumps op) tr img =
          if ret = 0 then syncEffect M jumps op img else img) := by
  have hinit : parallelStateCheckInit o.cpus.length = (K.syncSched op o processId).init :=
    parallelStateCheckInit_eq
  have hrun := h
  rw [hinit] at hrun
  refine ⟨?_, ?_, ?_, ?_⟩
  · intro cpu ph hph hmem
    rw [← not_or, ← checksFail_scene_iff processId]
    intro hfail
    have hall : ∀ ph ∈ updatePhases, op.abortPos < op.pos ph := by
      cases op <;> decide
    exact not_start_of_fails stopMachine_wellFormed stopMachine_voting hrun (fails_iff.mpr hfail)
      (stopMachine_late (hall ph hph)) cpu hmem
  · intro cpu hcpu ret hret
    have hiff := returned_eq_zero_iff hrun hcpu hret
    rcases cause_of_returned hrun hcpu hret with hzero | hcause
    · exact .inl ⟨hzero, hiff.mp hzero⟩
    · rcases hcause.known with heq | heq
      · exact .inr (.inl ⟨heq, hcause.short heq⟩)
      · exact .inr (.inr ⟨heq, hcause.busy heq⟩)
  · intro msg hmsg
    rw [printed] at hmsg
    split at hmsg
    · next i error ks hpc =>
      obtain rfl := Option.some.inj hmsg
      exact (cause_of_leave hrun (List.head_mem o.ne_nil) hpc).printed
    · cases hmsg
  · intro hstuck
    have hall : ∀ cpu ∈ o.cpus, ∃ ret, returned (K.syncSched op o processId) s cpu = some ret :=
      fun cpu hcpu => returned_of_stuck stopMachine_wellFormed stopMachine_ordered hrun hstuck cpu
        (mem_procs.mpr hcpu)
    obtain ⟨ret, hret⟩ := hall _ (List.head_mem o.ne_nil)
    have hiff := returned_eq_zero_iff hrun (List.head_mem o.ne_nil) hret
    have hsame : ∀ cpu ∈ o.cpus, returned (K.syncSched op o processId) s cpu = some ret := by
      intro cpu hcpu
      obtain ⟨ret', hret'⟩ := hall cpu hcpu
      rw [hret', returned_agree hrun hcpu (List.head_mem o.ne_nil) hret' hret]
    exact ⟨ret, hsame, hiff, stopMachine_effect M jumps h hsame img⟩

/-- Two CPUs that have no threads, and a pool with four objects where five are needed. -/
def shortScene : Scene (List ℕ) 2 where
  archStackwalk := true
  unwinder := listUnwinder
  documented := listUnwinder_documented
  fns := twoFns
  threads := []
  idleTask := fun _ => []
  reserves := [.simple 5 ⟨0x1000, 0x1020, 0x1000, 8, 4⟩]

/-- An install in this scene, with CPU 3 ahead of CPU 0. -/
def shortRun : List (Event ℕ Phase) × State ℕ Counter :=
  exec (shortScene.syncSched .install twoCpus fun _ => 7)
    [3, 3, 3, 3, 0, 0, 0, 0, 0, 0, 0, 0, 3, 3, 3, 3, 0, 0, 0] ([], parallelStateCheckInit 2)

theorem syncSched_verdict_shortRun :
    returned (shortScene.syncSched .install twoCpus fun _ => 7) shortRun.2 3 = some (-12) ∧
      printed twoCpus shortRun.2 = some notEnoughMemory ∧
      ∀ cpu, ∀ ph ∈ updatePhases, Event.start cpu ph ∉ shortRun.1 := by
  have h := syncSched_verdict shortScene x86Sched [] x86Image .install twoCpus (fun _ => 7)
    shortRun.1 shortRun.2 (exec_run (by decide) .nil)
  refine ⟨by decide, rfl, ?_⟩
  intro cpu ph hph hmem
  have hshort : shortScene.Short .install := ⟨rfl, _, List.mem_cons_self, by
    show (5 : BitVec 32) > 4
    decide⟩
  exact (h.1 cpu ph hph hmem).1 hshort

end Plugsched
