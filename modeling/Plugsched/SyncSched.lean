/-
The stop-machine handlers `__sync_sched_install` and `__sync_sched_restore`.

Both are barrier programs: `syncSchedInstall` and `syncSchedRestore` list their
statements in source order, the counters are `cpu_finished`, `clear_finished`
and `redirect_finished`, the error word is `global_error`.  Reading the clock
and printing are left out.  `parallel_state_check_init` sets the counters to
the number of online CPUs, `process_id_init` then numbers these CPUs, in an array
of `MAX_CPU_NR` words and without a look at its bound.

Each of these holds exactly if the ids of all online CPUs are below the bound:

* `syncSched_all_or_nothing` — a failed check on any CPU stops all of them;
* `syncSched_phases` — the phases of an update never overlap;
* `syncSched_cannot_hang` — every CPU decrements each counter once, and the CPUs
  never all wait.
-/
import Mathlib.Data.List.Sort
import Plugsched.BarrierProgress
import Plugsched.BarrierVote

open Runs BarrierProgram

namespace Plugsched

def ENOMEM : ℤ := 12

def EBUSY : ℤ := 16

def MAX_CPU_NR : ℕ := 1024

/-- The online CPUs in ascending order, as `for_each_online_cpu` visits them.  A
kernel may be built for more of them than `MAX_CPU_NR`. -/
structure CpuMask where
  cpus : List ℕ
  sorted : cpus.Pairwise (· < ·)
  ne_nil : cpus ≠ []

theorem CpuMask.nodup (mask : CpuMask) : mask.cpus.Nodup :=
  mask.sorted.imp fun h => ne_of_lt h

/-- Online CPUs which all have a word in `process_id`. -/
structure OnlineCpus extends CpuMask where
  lt_max : ∀ cpu ∈ cpus, cpu < MAX_CPU_NR

/-- A store behind the end of an array.  C says nothing about what it does. -/
inductive StoreFailure where
  | outOfBounds (i : ℕ)
  deriving DecidableEq

/-- `process_id_init`: the array `process_id` after numbering the online CPUs
from `idx` on. -/
def processIdInit : List ℕ → ℕ → (ℕ → ℕ) → Except StoreFailure (ℕ → ℕ)
  | [], _, processId => .ok processId
  | cpu :: cpus, idx, processId =>
    if cpu < MAX_CPU_NR then processIdInit cpus (idx + 1) (Function.update processId cpu idx)
    else .error (.outOfBounds cpu)

/-- All stores hit the array exactly if all ids are below its length. -/
theorem processIdInit_isOk_iff (cpus : List ℕ) (idx : ℕ) (processId : ℕ → ℕ) :
    (∃ ids, processIdInit cpus idx processId = .ok ids) ↔ ∀ cpu ∈ cpus, cpu < MAX_CPU_NR := by
  induction cpus generalizing idx processId with
  | nil => simp [processIdInit]
  | cons cpu cpus ih =>
    rw [processIdInit, List.forall_mem_cons]
    split
    · next hlt =>
      rw [ih]
      exact (and_iff_right hlt).symm
    · next hge => simp [hge]

theorem processIdInit_of_notMem {cpus : List ℕ} {cpu idx : ℕ} {processId ids : ℕ → ℕ}
    (h : processIdInit cpus idx processId = .ok ids) (hcpu : cpu ∉ cpus) :
    ids cpu = processId cpu := by
  induction cpus generalizing idx processId with
  | nil =>
    cases h
    rfl
  | cons c cpus ih =>
    rw [List.mem_cons, not_or] at hcpu
    rw [processIdInit] at h
    split at h
    · rw [ih h hcpu.2, Function.update_of_ne hcpu.1]
    · cases h

/-- The `k`-th online CPU gets number `k`. -/
theorem processIdInit_getElem {cpus : List ℕ} (hnd : cpus.Nodup) {idx : ℕ}
    {processId ids : ℕ → ℕ} (h : processIdInit cpus idx processId = .ok ids) {k : ℕ}
    (hk : k < cpus.length) : ids cpus[k] = idx + k := by
  induction cpus generalizing idx processId k with
  | nil => simp at hk
  | cons c cpus ih =>
    rw [List.nodup_cons] at hnd
    rw [processIdInit] at h
    split at h
    · cases k with
      | zero =>
        rw [List.getElem_cons_zero, processIdInit_of_notMem h hnd.1, Function.update_self]
        rfl
      | succ k =>
        rw [List.getElem_cons_succ, ih hnd.2 h (Nat.lt_of_succ_lt_succ hk)]
        omega
    · cases h

/-- `process_id` after `process_id_init`, which has room for all online CPUs. -/
def OnlineCpus.processId (o : OnlineCpus) (processId : ℕ → ℕ) : ℕ → ℕ :=
  (processIdInit o.cpus 0 processId).toOption.getD processId

theorem OnlineCpus.processIdInit_eq (o : OnlineCpus) (processId : ℕ → ℕ) :
    processIdInit o.cpus 0 processId = .ok (o.processId processId) := by
  obtain ⟨ids, hids⟩ := (processIdInit_isOk_iff o.cpus 0 processId).mpr o.lt_max
  rw [OnlineCpus.processId, hids]
  rfl

theorem OnlineCpus.processId_eq (o : OnlineCpus) {processId ids : ℕ → ℕ}
    (h : processIdInit o.cpus 0 processId = .ok ids) : o.processId processId = ids := by
  rw [o.processIdInit_eq] at h
  exact Except.ok.inj h

theorem OnlineCpus.processId_getElem (o : OnlineCpus) (processId : ℕ → ℕ) {k : ℕ}
    (hk : k < o.cpus.length) : o.processId processId o.cpus[k] = k := by
  rw [processIdInit_getElem o.nodup (o.processIdInit_eq processId) hk, Nat.zero_add]

/-- The CPU with the least id, which gets the number 0. -/
def firstCpu (o : OnlineCpus) : ℕ := o.cpus.head o.ne_nil

/-- `is_first_process`, on CPU `cpu`. -/
def isFirstProcess (ids : ℕ → ℕ) (cpu : ℕ) : Bool := ids cpu == 0

/-- Exactly one online CPU is the first process: the one with the least id. -/
theorem isFirstProcess_iff (o : OnlineCpus) (processId : ℕ → ℕ) {cpu : ℕ}
    (hcpu : cpu ∈ o.cpus) :
    isFirstProcess (o.processId processId) cpu = true ↔ cpu = o.cpus.head o.ne_nil := by
  obtain ⟨k, hk, rfl⟩ := List.getElem_of_mem hcpu
  rw [isFirstProcess, beq_iff_eq, o.processId_getElem processId hk, List.head_eq_getElem,
    List.Nodup.getElem_inj_iff o.nodup]

inductive Counter where
  | cpuFinished | clearFinished | redirectFinished
  deriving DecidableEq

/-- The calls of the handlers.  `jumpOperation` is `JUMP_OPERATION(install)` or
`JUMP_OPERATION(remove)`. -/
inductive Phase where
  | recheckSmps | stackCheck | schedAllocExtrapad | clearSchedState | switchSchedClass
  | jumpOperation | disableStackProtector | resetBalanceCallback | rebuildSchedState
  | schedFreeExtrapad
  deriving DecidableEq

/-- `__sync_sched_install`. -/
def syncSchedInstall : List (Instr Counter Phase) :=
  [ .check true .recheckSmps,
    .check false .stackCheck,
    .dec .cpuFinished,
    .wait .cpuFinished,
    .abort [.clearFinished, .redirectFinished],
    .phase true .schedAllocExtrapad,
    .phase false .clearSchedState,
    .dec .clearFinished,
    .wait .clearFinished,
    .phase true .switchSchedClass,
    .phase true .jumpOperation,
    .phase true .disableStackProtector,
    .phase true .resetBalanceCallback,
    .dec .redirectFinished,
    .wait .redirectFinished,
    .phase false .rebuildSchedState ]

/-- `__sync_sched_restore`. -/
def syncSchedRestore : List (Instr Counter Phase) :=
  [ .check false .stackCheck,
    .dec .cpuFinished,
    .wait .cpuFinished,
    .abort [.clearFinished, .redirectFinished],
    .phase false .clearSchedState,
    .dec .clearFinished,
    .wait .clearFinished,
    .phase true .switchSchedClass,
    .phase true .jumpOperation,
    .phase true .resetBalanceCallback,
    .dec .redirectFinished,
    .wait .redirectFinished,
    .phase false .rebuildSchedState,
    .phase true .schedFreeExtrapad ]

/-- The two operations of `sync_sched_mod`. -/
inductive SyncOp where
  | install | restore
  deriving DecidableEq

def SyncOp.handler : SyncOp → List (Instr Counter Phase)
  | .install => syncSchedInstall
  | .restore => syncSchedRestore

/-- `stop_machine(func, NULL, cpu_online_mask)` with `ids` in `process_id`:
`res ph cpu` is what the check `ph` returns on `cpu`. -/
def stopMachineOn (op : SyncOp) (mask : CpuMask) (ids : ℕ → ℕ) (res : Phase → ℕ → ℤ) :
    System ℕ Counter Phase where
  procs := mask.cpus.toFinset
  first := isFirstProcess ids
  prog := op.handler
  outcome := res

/-- The handlers after `process_id_init`; `processId` is what was in the array. -/
def stopMachine (op : SyncOp) (o : OnlineCpus) (processId : ℕ → ℕ) (res : Phase → ℕ → ℤ) :
    System ℕ Counter Phase :=
  stopMachineOn op o.toCpuMask (o.processId processId) res

/-- The shared words after `parallel_state_check_init`, with `n` CPUs online
and all of them at the start of the handler. -/
def parallelStateCheckInit (n : ℕ) : State ℕ Counter where
  pc := fun _ => .run 0 false
  counter := fun _ => n
  error := 0

/-- Some check of the handler fails on some CPU. -/
def ChecksFail (op : SyncOp) (mask : CpuMask) (res : Phase → ℕ → ℤ) : Prop :=
  (op = .install ∧ res .recheckSmps (mask.cpus.head mask.ne_nil) ≠ 0) ∨
    ∃ cpu ∈ mask.cpus, res .stackCheck cpu ≠ 0

/-! ### What an update has to keep -/

/-- The parts of an update that change the running scheduler. -/
def updatePhases : List Phase :=
  [.schedAllocExtrapad, .clearSchedState, .switchSchedClass, .jumpOperation,
    .rebuildSchedState]

/-- The parts that one CPU does for all. -/
def redirectPhases : List Phase :=
  [.switchSchedClass, .jumpOperation, .resetBalanceCallback]

/-- All or nothing: the CPUs are numbered, and whatever the checks find, no
interleaving goes on for ever, and where no CPU can step all have returned.  If a
check fails on some CPU, no CPU ever begins to change the scheduler and all CPUs
return one non-zero error; otherwise every CPU that returns returns 0. -/
def AllOrNothing (op : SyncOp) (mask : CpuMask) (processId : ℕ → ℕ) : Prop :=
  ∃ ids, processIdInit mask.cpus 0 processId = .ok ids ∧
    ∀ (res : Phase → ℕ → ℤ) (tr : List (Event ℕ Phase)) (s : State ℕ Counter),
      Run (next (stopMachineOn op mask ids res)) (parallelStateCheckInit mask.cpus.length) tr s →
      (WellFounded fun s' s => ∃ e, next (stopMachineOn op mask ids res) s e s') ∧
      (Stuck (stopMachineOn op mask ids res) s → ∀ cpu ∈ mask.cpus, ∃ ret,
        returned (stopMachineOn op mask ids res) s cpu = some ret) ∧
      (ChecksFail op mask res →
        (∀ cpu, ∀ ph ∈ updatePhases, Event.start cpu ph ∉ tr) ∧
        ∃ error, error ≠ 0 ∧ ∀ cpu ∈ mask.cpus, ∀ ret,
          returned (stopMachineOn op mask ids res) s cpu = some ret → ret = error) ∧
      (¬ ChecksFail op mask res → ∀ cpu ∈ mask.cpus, ∀ ret,
        returned (stopMachineOn op mask ids res) s cpu = some ret → ret = 0)

/-- The phases of an update are apart: the CPUs are numbered, and no CPU begins to
clear its run queue before all stack checks are done; one CPU, with `process_id` 0,
switches the classes, patches the jumps and resets the callbacks, at most once and
after every run queue was cleared; no CPU begins to rebuild before that is done. -/
def PhasesApart (op : SyncOp) (mask : CpuMask) (processId : ℕ → ℕ) : Prop :=
  ∃ ids, processIdInit mask.cpus 0 processId = .ok ids ∧
    ∀ (res : Phase → ℕ → ℤ) (tr : List (Event ℕ Phase)) (s : State ℕ Counter),
      Run (next (stopMachineOn op mask ids res)) (parallelStateCheckInit mask.cpus.length) tr s →
      (∀ cpu, ∀ cpu' ∈ mask.cpus,
        Before tr (.finish cpu' .stackCheck) (.start cpu .clearSchedState)) ∧
      ∀ ph ∈ redirectPhases,
        tr.countP (Event.starts ph) ≤ 1 ∧
        (∀ cpu, Event.start cpu ph ∈ tr → cpu ∈ mask.cpus ∧ ids cpu = 0) ∧
        (∀ cpu, ∀ cpu' ∈ mask.cpus,
          Before tr (.finish cpu' .clearSchedState) (.start cpu ph)) ∧
        ∀ cpu, ∀ cpu' ∈ mask.cpus, ids cpu' = 0 →
          Before tr (.finish cpu' ph) (.start cpu .rebuildSchedState)

/-- No hang: the CPUs are numbered, the counters stay between 0 and the number of
CPUs, every CPU decrements each of them exactly once before it returns, and as long
as some CPU has not returned one of them can step. -/
def CannotHang (op : SyncOp) (mask : CpuMask) (processId : ℕ → ℕ) : Prop :=
  ∃ ids, processIdInit mask.cpus 0 processId = .ok ids ∧
    ∀ (res : Phase → ℕ → ℤ) (ds : List (ℕ × Counter)) (s : State ℕ Counter),
      Run (nextDec (stopMachineOn op mask ids res)) (parallelStateCheckInit mask.cpus.length)
        ds s →
      (∀ k, 0 ≤ s.counter k ∧ s.counter k ≤ mask.cpus.length ∧
        s.counter k + (ds.countP (·.2 = k) : ℤ) = mask.cpus.length) ∧
      (∀ cpu ∈ mask.cpus, ∀ k, ds.count (cpu, k) ≤ 1 ∧ ∀ ret,
        returned (stopMachineOn op mask ids res) s cpu = some ret → ds.count (cpu, k) = 1) ∧
      ((∃ cpu ∈ mask.cpus, returned (stopMachineOn op mask ids res) s cpu = none) →
        ∃ cpu ∈ mask.cpus, (step (stopMachineOn op mask ids res) cpu s).isSome)

section Handlers

variable {op : SyncOp} {o : OnlineCpus} {processId : ℕ → ℕ} {res : Phase → ℕ → ℤ}
  {tr : List (Event ℕ Phase)} {s : State ℕ Counter}

theorem parallelStateCheckInit_eq :
    parallelStateCheckInit o.cpus.length = (stopMachine op o processId res).init := by
  rw [parallelStateCheckInit, System.init]
  simp [stopMachine, stopMachineOn, List.toFinset_card_of_nodup o.nodup]

theorem stopMachine_wellFormed : WellFormed (stopMachine op o processId res) := by
  constructor
  · cases op <;> exact ⟨List.Perm.refl _, trivial⟩
  · intro k
    cases op <;> cases k <;> rfl

/-! ### Positions in the handlers -/

/-- Where a handler runs a phase. -/
def SyncOp.pos (op : SyncOp) (ph : Phase) : ℕ :=
  op.handler.findIdx fun ins => ins.code.map Prod.snd == some ph

/-- Where a handler decrements a counter; it waits for it right afterwards. -/
def SyncOp.decPos (op : SyncOp) (k : Counter) : ℕ :=
  op.handler.findIdx fun ins => ins == .dec k

/-- Where a handler reads `global_error`. -/
def SyncOp.abortPos (op : SyncOp) : ℕ := op.decPos .cpuFinished + 2

theorem handler_dec (op : SyncOp) (k : Counter) :
    op.handler[op.decPos k]? = some (.dec k) := by
  cases op <;> cases k <;> rfl

theorem handler_wait (op : SyncOp) (k : Counter) :
    op.handler[op.decPos k + 1]? = some (.wait k) := by
  cases op <;> cases k <;> rfl

theorem handler_abort (op : SyncOp) :
    op.handler[op.abortPos]? = some (.abort [.clearFinished, .redirectFinished]) := by
  cases op <;> rfl

theorem handler_stackCheck (op : SyncOp) :
    op.handler[op.pos .stackCheck]? = some (.check false .stackCheck) := by
  cases op <;> rfl

theorem handler_clearSchedState (op : SyncOp) :
    op.handler[op.pos .clearSchedState]? = some (.phase false .clearSchedState) := by
  cases op <;> rfl

/-- A phase stands at one position only. -/
theorem eq_pos_of_code {i : ℕ} {ins : Instr Counter Phase} {f : Bool} {ph : Phase}
    (hi : op.handler[i]? = some ins) (hcode : ins.code = some (f, ph)) : i = op.pos ph := by
  have hall : ∀ p ∈ op.handler.zipIdx, ∀ q ∈ p.1.code, p.2 = op.pos q.2 := by
    cases op <;> decide
  exact hall (ins, i) (List.mk_mem_zipIdx_iff_getElem?.mpr hi) (f, ph) hcode

/-- `cpu_finished` separates the checks from everything else. -/
theorem stopMachine_voting :
    Voting (stopMachine op o processId res) .cpuFinished (op.decPos .cpuFinished)
      (op.decPos .cpuFinished + 1) where
  dec := handler_dec op .cpuFinished
  wait := handler_wait op .cpuFinished
  lt := Nat.lt_succ_self _
  check_lt := by
    intro i f ph hi
    have hall : ∀ p ∈ op.handler.zipIdx, ∀ q ∈ p.1.code,
        p.1 = .check q.1 q.2 → p.2 < op.decPos .cpuFinished := by
      cases op <;> decide
    exact hall (_, i) (List.mk_mem_zipIdx_iff_getElem?.mpr hi) (f, ph) rfl rfl
  lt_abort := by
    intro i ks hi
    have hmem := List.mk_mem_zipIdx_iff_getElem?.mpr hi
    cases op
    · simp [stopMachine, stopMachineOn, SyncOp.handler, syncSchedInstall] at hmem
      obtain ⟨-, rfl⟩ := hmem
      decide
    · simp [stopMachine, stopMachineOn, SyncOp.handler, syncSchedRestore] at hmem
      obtain ⟨-, rfl⟩ := hmem
      decide

theorem stopMachine_ordered : Ordered (stopMachine op o processId res) := by
  intro w k hw
  have hall : ∀ p ∈ op.handler.zipIdx, p.1 = .wait k → op.decPos k < p.2 := by
    cases op <;> cases k <;> decide
  exact ⟨op.decPos k, hall (_, w) (List.mk_mem_zipIdx_iff_getElem?.mpr hw) rfl, handler_dec op k⟩

/-- A phase that stands behind the reading of `global_error`. -/
theorem stopMachine_late {ph : Phase} (hpos : op.abortPos < op.pos ph) :
    Late (stopMachine op o processId res) ph := by
  intro i ins f hi hcode
  rw [eq_pos_of_code hi hcode]
  exact ⟨op.abortPos, _, hpos, handler_abort op⟩

theorem mem_procs {cpu : ℕ} :
    cpu ∈ (stopMachine op o processId res).procs ↔ cpu ∈ o.cpus := by
  simp [stopMachine, stopMachineOn]

theorem fails_iff : Fails (stopMachine op o processId res) ↔ ChecksFail op o.toCpuMask res := by
  have hhead : o.cpus.head o.ne_nil ∈ o.cpus := List.head_mem o.ne_nil
  constructor
  · rintro ⟨cpu, hcpu, i, f, ph, hi, hfirst, hfail⟩
    rw [mem_procs] at hcpu
    have hmem := List.mk_mem_zipIdx_iff_getElem?.mpr hi
    cases op
    · simp [stopMachine, stopMachineOn, SyncOp.handler, syncSchedInstall] at hmem
      rcases hmem with ⟨⟨rfl, rfl⟩, -⟩ | ⟨⟨rfl, rfl⟩, -⟩
      · rw [(isFirstProcess_iff o processId hcpu).mp (hfirst rfl)] at hfail
        exact .inl ⟨rfl, hfail⟩
      · exact .inr ⟨cpu, hcpu, hfail⟩
    · simp [stopMachine, stopMachineOn, SyncOp.handler, syncSchedRestore] at hmem
      obtain ⟨⟨rfl, rfl⟩, -⟩ := hmem
      exact .inr ⟨cpu, hcpu, hfail⟩
  · rintro (⟨rfl, hfail⟩ | ⟨cpu, hcpu, hfail⟩)
    · refine ⟨_, mem_procs.mpr hhead, 0, true, .recheckSmps, rfl, fun _ => ?_, hfail⟩
      exact (isFirstProcess_iff o processId hhead).mpr rfl
    · refine ⟨cpu, mem_procs.mpr hcpu, op.pos .stackCheck, false, .stackCheck, ?_, by simp,
        hfail⟩
      cases op <;> rfl

/-! ### The update as a whole -/

/-- A run of the handlers on CPUs below the bound. -/
theorem stopMachine_all_or_nothing
    (h : Run (next (stopMachine op o processId res)) (parallelStateCheckInit o.cpus.length)
      tr s) :
    (WellFounded fun s' s => ∃ e, next (stopMachine op o processId res) s e s') ∧
    (Stuck (stopMachine op o processId res) s → ∀ cpu ∈ o.cpus, ∃ ret,
      returned (stopMachine op o processId res) s cpu = some ret) ∧
    (ChecksFail op o.toCpuMask res →
      (∀ cpu, ∀ ph ∈ updatePhases, Event.start cpu ph ∉ tr) ∧
      ∃ error, error ≠ 0 ∧ ∀ cpu ∈ o.cpus, ∀ ret,
        returned (stopMachine op o processId res) s cpu = some ret → ret = error) ∧
    (¬ ChecksFail op o.toCpuMask res → ∀ cpu ∈ o.cpus, ∀ ret,
      returned (stopMachine op o processId res) s cpu = some ret → ret = 0) := by
  have hinit : parallelStateCheckInit o.cpus.length = (stopMachine op o processId res).init :=
    parallelStateCheckInit_eq
  rw [hinit] at h
  have hiff : Fails (stopMachine op o processId res) ↔ ChecksFail op o.toCpuMask res := fails_iff
  rw [← hiff]
  refine ⟨wellFounded_next stopMachine_wellFormed.balanced, fun hstuck cpu hcpu => ?_,
    fun hfails => ⟨?_, ?_⟩, fun hno cpu hcpu ret hret => ?_⟩
  · exact returned_of_stuck stopMachine_wellFormed stopMachine_ordered h hstuck cpu
      (mem_procs.mpr hcpu)
  · intro cpu ph hph
    refine not_start_of_fails stopMachine_wellFormed stopMachine_voting h hfails
      (stopMachine_late ?_) cpu
    have hall : ∀ ph ∈ updatePhases, op.abortPos < op.pos ph := by
      cases op <;> decide
    exact hall ph hph
  · have hret : ∀ cpu ∈ o.cpus, ∀ ret,
        returned (stopMachine op o processId res) s cpu = some ret → ret = s.error ∧ ret ≠ 0 :=
      fun cpu hcpu ret hret => returned_of_fails stopMachine_wellFormed stopMachine_voting h
        hfails ⟨_, _, handler_abort op⟩ (mem_procs.mpr hcpu) hret
    by_cases herr : s.error = 0
    · -- nobody has returned yet
      refine ⟨1, one_ne_zero, fun cpu hcpu ret hr => ?_⟩
      obtain ⟨heq, hne⟩ := hret cpu hcpu ret hr
      exact absurd (heq.trans herr) hne
    · exact ⟨s.error, herr, fun cpu hcpu ret hr => (hret cpu hcpu ret hr).1⟩
  · exact returned_of_not_fails stopMachine_wellFormed stopMachine_voting h hno
      (mem_procs.mpr hcpu) hret

/-- Only the first process runs the redirecting phases. -/
theorem redirect_first {i : ℕ} {ins : Instr Counter Phase} {f : Bool} {ph : Phase}
    (hph : ph ∈ redirectPhases) (hi : op.handler[i]? = some ins)
    (hcode : ins.code = some (f, ph)) : f = true := by
  have hall : ∀ p ∈ op.handler.zipIdx, ∀ q ∈ p.1.code, q.2 ∈ redirectPhases → q.1 = true := by
    cases op <;> decide
  exact hall (ins, i) (List.mk_mem_zipIdx_iff_getElem?.mpr hi) (f, ph) hcode hph

/-- The handlers run a phase in one instruction only. -/
theorem countP_runsOn_le (cpu : ℕ) (ph : Phase) :
    op.handler.countP (Instr.runsOn (stopMachine op o processId res) cpu ph) ≤ 1 := by
  have hall : ∀ ph, op.handler.countP (fun ins => ins.code.map Prod.snd == some ph) ≤ 1 := by
    intro ph
    cases op <;> cases ph <;> decide
  refine le_trans (List.countP_mono_left fun ins _ hrun => ?_) (hall ph)
  cases hcode : ins.code with
  | none => simp [Instr.runsOn, hcode] at hrun
  | some q =>
    simp only [Instr.runsOn, hcode, Bool.and_eq_true, beq_iff_eq] at hrun
    simp [hrun.1]

/-- A phase behind `wait k` begins after every CPU has finished the phases in
front of `dec k`. -/
theorem phase_before (h : Run (next (stopMachine op o processId res))
      (stopMachine op o processId res).init tr s) (k : Counter) {ph ph' : Phase} {i : ℕ}
    {ins : Instr Counter Phase} {f : Bool} (hlate : op.abortPos < op.pos ph)
    (hafter : op.decPos k + 1 < op.pos ph) (hi : op.handler[i]? = some ins)
    (hcode : ins.code = some (f, ph')) (hlt : i < op.decPos k) {cpu' : ℕ}
    (hcpu' : cpu' ∈ o.cpus) (hfirst : f = true → isFirstProcess (o.processId processId) cpu' = true)
    (cpu : ℕ) : Before tr (.finish cpu' ph') (.start cpu ph) := by
  refine finish_before_start stopMachine_wellFormed stopMachine_voting h (handler_dec op k)
    (handler_wait op k) (stopMachine_late hlate) ?_ hi hcode hlt (mem_procs.mpr hcpu') hfirst cpu
  intro i ins f hi hcode
  rw [eq_pos_of_code hi hcode]
  exact hafter

theorem stopMachine_phases
    (h : Run (next (stopMachine op o processId res)) (parallelStateCheckInit o.cpus.length)
      tr s) :
    (∀ cpu, ∀ cpu' ∈ o.cpus,
      Before tr (.finish cpu' .stackCheck) (.start cpu .clearSchedState)) ∧
    ∀ ph ∈ redirectPhases,
      tr.countP (Event.starts ph) ≤ 1 ∧
      (∀ cpu, Event.start cpu ph ∈ tr → cpu ∈ o.cpus ∧ o.processId processId cpu = 0) ∧
      (∀ cpu, ∀ cpu' ∈ o.cpus,
        Before tr (.finish cpu' .clearSchedState) (.start cpu ph)) ∧
      ∀ cpu, ∀ cpu' ∈ o.cpus, o.processId processId cpu' = 0 →
        Before tr (.finish cpu' ph) (.start cpu .rebuildSchedState) := by
  have hinit : parallelStateCheckInit o.cpus.length = (stopMachine op o processId res).init :=
    parallelStateCheckInit_eq
  rw [hinit] at h
  constructor
  · intro cpu cpu' hcpu'
    have hpos : op.abortPos < op.pos .clearSchedState ∧
        op.decPos .cpuFinished + 1 < op.pos .clearSchedState ∧
        op.pos .stackCheck < op.decPos .cpuFinished := by
      cases op <;> decide
    exact phase_before h .cpuFinished hpos.1 hpos.2.1 (handler_stackCheck op) rfl hpos.2.2
      hcpu' (by simp) cpu
  · intro ph hph
    have hfirst : ∀ cpu, Event.start cpu ph ∈ tr →
        cpu ∈ o.cpus ∧ isFirstProcess (o.processId processId) cpu = true := by
      intro cpu hmem
      obtain ⟨t, s₁, s₂, -, h12⟩ := h.exists_step hmem
      obtain ⟨i, ins, f, hcpu, -, hi, hcode, hf⟩ := next_start h12 rfl
      exact ⟨mem_procs.mp hcpu, hf (redirect_first hph hi hcode)⟩
    refine ⟨?_, ?_, ?_, ?_⟩
    · have hhead : ∀ cpu, Event.start cpu ph ∈ tr → cpu = o.cpus.head o.ne_nil := by
        intro cpu hmem
        obtain ⟨hcpu, hf⟩ := hfirst cpu hmem
        exact (isFirstProcess_iff o processId hcpu).mp hf
      exact countP_starts_le h hhead (countP_runsOn_le _ ph)
    · intro cpu hmem
      obtain ⟨hcpu, hf⟩ := hfirst cpu hmem
      exact ⟨hcpu, beq_iff_eq.mp hf⟩
    · intro cpu cpu' hcpu'
      have hpos : ∀ ph ∈ redirectPhases,
          op.abortPos < op.pos ph ∧ op.decPos .clearFinished + 1 < op.pos ph ∧
            op.pos .clearSchedState < op.decPos .clearFinished := by
        cases op <;> decide
      obtain ⟨hlate, hafter, hlt⟩ := hpos ph hph
      exact phase_before h .clearFinished hlate hafter (handler_clearSchedState op) rfl hlt
        hcpu' (by simp) cpu
    · intro cpu cpu' hcpu' hzero
      have hpos : ∀ ph ∈ redirectPhases, op.pos ph < op.decPos .redirectFinished ∧
          op.handler[op.pos ph]? = some (.phase true ph) := by
        cases op <;> decide
      have hrebuild : op.abortPos < op.pos .rebuildSchedState ∧
          op.decPos .redirectFinished + 1 < op.pos .rebuildSchedState := by
        cases op <;> decide
      obtain ⟨hlt, hi⟩ := hpos ph hph
      exact phase_before h .redirectFinished hrebuild.1 hrebuild.2 hi rfl hlt hcpu'
        (fun _ => beq_iff_eq.mpr hzero) cpu

theorem stopMachine_cannot_hang {ds : List (ℕ × Counter)}
    (h : Run (nextDec (stopMachine op o processId res))
      (parallelStateCheckInit o.cpus.length) ds s) :
    (∀ k, 0 ≤ s.counter k ∧ s.counter k ≤ o.cpus.length ∧
      s.counter k + (ds.countP (·.2 = k) : ℤ) = o.cpus.length) ∧
    (∀ cpu ∈ o.cpus, ∀ k, ds.count (cpu, k) ≤ 1 ∧ ∀ ret,
      returned (stopMachine op o processId res) s cpu = some ret → ds.count (cpu, k) = 1) ∧
    ((∃ cpu ∈ o.cpus, returned (stopMachine op o processId res) s cpu = none) →
      ∃ cpu ∈ o.cpus, (step (stopMachine op o processId res) cpu s).isSome) := by
  have hinit : parallelStateCheckInit o.cpus.length = (stopMachine op o processId res).init :=
    parallelStateCheckInit_eq
  rw [hinit] at h
  have hcard : (stopMachine op o processId res).procs.card = o.cpus.length :=
    List.toFinset_card_of_nodup o.nodup
  obtain ⟨tr, hrun⟩ := run_nextDec_iff.mp ⟨_, h⟩
  refine ⟨fun k => ?_, fun cpu _ k => ?_, fun hlate => ?_⟩
  · have hsum := counter_add_countP h k
    rw [hcard] at hsum
    have hnonneg : 0 ≤ s.counter k := by
      rw [counter_eq stopMachine_wellFormed hrun]
      exact Finset.sum_nonneg fun _ _ => Int.natCast_nonneg _
    exact ⟨hnonneg, by omega, hsum⟩
  · have hone := count_decremented stopMachine_wellFormed h cpu k
    refine ⟨by omega, fun ret hret => ?_⟩
    rw [owes_of_returned hret k] at hone
    exact hone
  · -- a state in which nobody can step would be stuck
    by_contra hno
    push Not at hno
    have hstuck : Stuck (stopMachine op o processId res) s := by
      rintro e s' ⟨cpu, hcpu, hstep⟩
      refine hno cpu (mem_procs.mp hcpu) ?_
      rw [hstep]
      rfl
    obtain ⟨cpu, hcpu, hnone⟩ := hlate
    obtain ⟨ret, hret⟩ := returned_of_stuck stopMachine_wellFormed stopMachine_ordered hrun
      hstuck cpu (mem_procs.mpr hcpu)
    rw [hret] at hnone
    cases hnone

end Handlers

/-! ### The bound on the CPU ids -/

section Bound

variable {mask : CpuMask} {processId : ℕ → ℕ} {P : (ℕ → ℕ) → Prop}

/-- What holds whenever the ids are bounded, holds of the numbers that the CPUs get exactly
if they are. -/
theorem exists_numbered_iff
    (h : ∀ o : OnlineCpus, o.toCpuMask = mask → P (o.processId processId)) :
    (∃ ids, processIdInit mask.cpus 0 processId = .ok ids ∧ P ids) ↔
      ∀ cpu ∈ mask.cpus, cpu < MAX_CPU_NR := by
  constructor
  · rintro ⟨ids, hids, -⟩
    exact (processIdInit_isOk_iff mask.cpus 0 processId).mp ⟨ids, hids⟩
  · intro hlt
    let o : OnlineCpus := { toCpuMask := mask, lt_max := hlt }
    exact ⟨o.processId processId, o.processIdInit_eq processId, h o rfl⟩

/-- After a store out of bounds nothing is promised of the numbers. -/
theorem not_exists_numbered {e : StoreFailure}
    (h : processIdInit mask.cpus 0 processId = .error e) :
    ¬ ∃ ids, processIdInit mask.cpus 0 processId = .ok ids ∧ P ids := by
  rintro ⟨ids, hids, -⟩
  rw [h] at hids
  cases hids

end Bound

/-- **All or nothing**, exactly if every online CPU has a word in `process_id`. -/
theorem syncSched_all_or_nothing (op : SyncOp) (mask : CpuMask) (processId : ℕ → ℕ) :
    AllOrNothing op mask processId ↔ ∀ cpu ∈ mask.cpus, cpu < MAX_CPU_NR := by
  refine exists_numbered_iff ?_
  rintro o rfl res _ s h
  exact stopMachine_all_or_nothing h

/-- Two online CPUs, numbers 0 and 3. -/
def twoCpus : OnlineCpus where
  cpus := [0, 3]
  sorted := by decide
  ne_nil := by decide
  lt_max := by decide

/-- CPU 3 finds a task inside a redirected function. -/
def busyOnThree : Phase → ℕ → ℤ
  | .stackCheck, 3 => -16
  | _, _ => 0

/-- A run of the install handler on two CPUs in which CPU 3 gives up. -/
def busyRun : List (Event ℕ Phase) × State ℕ Counter :=
  exec (stopMachine .install twoCpus (fun _ => 7) busyOnThree)
    [0, 3, 0, 0, 3, 0, 3, 3, 0, 3, 3, 3, 0, 3, 3, 3, 0, 0, 0, 0, 0, 0]
    ([], parallelStateCheckInit 2)

theorem syncSched_all_or_nothing_busyRun :
    returned (stopMachine .install twoCpus (fun _ => 7) busyOnThree) busyRun.2 0 = some (-16) ∧
      returned (stopMachine .install twoCpus (fun _ => 7) busyOnThree) busyRun.2 3 = some (-16) ∧
      ∀ cpu, ∀ ph ∈ updatePhases, Event.start cpu ph ∉ busyRun.1 := by
  obtain ⟨ids, hids, hall⟩ :=
    (syncSched_all_or_nothing .install twoCpus.toCpuMask fun _ => 7).mpr (by decide)
  obtain rfl : twoCpus.processId (fun _ => 7) = ids := twoCpus.processId_eq hids
  have hrun : Run (next (stopMachine .install twoCpus (fun _ => 7) busyOnThree))
      (parallelStateCheckInit 2) busyRun.1 busyRun.2 := exec_run (by decide) .nil
  exact ⟨by decide, by decide,
    ((hall busyOnThree busyRun.1 busyRun.2 hrun).2.2.1 (.inr ⟨3, by decide, by decide⟩)).1⟩

/-- The online CPUs 0 and 1024: the second one has no word in `process_id`. -/
def farCpus : CpuMask where
  cpus := [0, 1024]
  sorted := by decide
  ne_nil := by decide

/-- What they read as their numbers. -/
def farIds (cpu : ℕ) : ℕ := if cpu = 0 then 0 else 1

/-- The shared words of two CPUs when the number 1 was stored in the word behind
`process_id`: in the order of the declarations this is `cpu_finished`. -/
def overrun : State ℕ Counter :=
  { parallelStateCheckInit 2 with counter := Function.update (fun _ => 2) .cpuFinished 1 }

/-- CPU 1024 will find a task inside a redirected function. -/
def busyOnFar : Phase → ℕ → ℤ
  | .stackCheck, 1024 => -16
  | _, _ => 0

/-- CPU 0 finds `cpu_finished` at 0 when it has checked its own share. -/
def overrunRun : List (Event ℕ Phase) × State ℕ Counter :=
  exec (stopMachineOn .install farCpus farIds busyOnFar) (List.replicate 12 0) ([], overrun)

/-- The store for CPU 1024 is out of bounds; if it hits `cpu_finished`, CPU 0 begins to
change the scheduler although a check fails. -/
theorem farCpu_not_all_or_nothing :
    ¬ AllOrNothing .install farCpus (fun _ => 0) ∧
      processIdInit farCpus.cpus 0 (fun _ => 0) = .error (.outOfBounds 1024) ∧
      ChecksFail .install farCpus busyOnFar ∧
      Run (next (stopMachineOn .install farCpus farIds busyOnFar)) overrun overrunRun.1
        overrunRun.2 ∧
      Event.start 0 .clearSchedState ∈ overrunRun.1 := by
  have hinit : processIdInit farCpus.cpus 0 (fun _ => 0) = .error (.outOfBounds 1024) := rfl
  exact ⟨not_exists_numbered hinit, hinit, .inr ⟨1024, by decide, by decide⟩,
    exec_run (by decide) .nil, by decide⟩

/-- **The phases of an update never overlap**, exactly if every online CPU has a word
in `process_id`. -/
theorem syncSched_phases (op : SyncOp) (mask : CpuMask) (processId : ℕ → ℕ) :
    PhasesApart op mask processId ↔ ∀ cpu ∈ mask.cpus, cpu < MAX_CPU_NR := by
  refine exists_numbered_iff ?_
  rintro o rfl res _ s h
  exact stopMachine_phases h

/-- A complete run of the install handler on two CPUs, all checks passing. -/
def quietRun : List (Event ℕ Phase) × State ℕ Counter :=
  exec (stopMachine .install twoCpus (fun _ => 7) fun _ _ => 0)
    (List.replicate 40 [0, 3]).flatten ([], parallelStateCheckInit 2)

theorem syncSched_phases_quietRun :
    returned (stopMachine .install twoCpus (fun _ => 7) fun _ _ => 0) quietRun.2 0 = some 0 ∧
      returned (stopMachine .install twoCpus (fun _ => 7) fun _ _ => 0) quietRun.2 3 = some 0 ∧
      Before quietRun.1 (.finish 3 .clearSchedState) (.start 0 .switchSchedClass) ∧
      Before quietRun.1 (.finish 0 .jumpOperation) (.start 3 .rebuildSchedState) := by
  obtain ⟨ids, hids, hall⟩ :=
    (syncSched_phases .install twoCpus.toCpuMask fun _ => 7).mpr (by decide)
  obtain rfl : twoCpus.processId (fun _ => 7) = ids := twoCpus.processId_eq hids
  have hrun : Run (next (stopMachine .install twoCpus (fun _ => 7) fun _ _ => 0))
      (parallelStateCheckInit 2) quietRun.1 quietRun.2 := exec_run (by decide) .nil
  have h := hall (fun _ _ => 0) quietRun.1 quietRun.2 hrun
  exact ⟨by decide, by decide,
    (h.2 .switchSchedClass (by decide)).2.2.1 0 3 (by decide),
    (h.2 .jumpOperation (by decide)).2.2.2 3 0 (by decide) (by decide)⟩

/-- CPU 0 clears its run queue before CPU 1024 has checked its share of the tasks. -/
theorem farCpu_phases_overlap :
    ¬ PhasesApart .install farCpus (fun _ => 0) ∧
      processIdInit farCpus.cpus 0 (fun _ => 0) = .error (.outOfBounds 1024) ∧
      Run (next (stopMachineOn .install farCpus farIds busyOnFar)) overrun overrunRun.1
        overrunRun.2 ∧
      ¬ Before overrunRun.1 (.finish 1024 .stackCheck) (.start 0 .clearSchedState) := by
  have hinit : processIdInit farCpus.cpus 0 (fun _ => 0) = .error (.outOfBounds 1024) := rfl
  refine ⟨not_exists_numbered hinit, hinit, exec_run (by decide) .nil, fun hbefore => ?_⟩
  have hnot : Event.finish 1024 .stackCheck ∉ overrunRun.1 := by decide
  exact hnot (hbefore.mem (by decide))

/-- **The handlers cannot hang**, exactly if every online CPU has a word in
`process_id`. -/
theorem syncSched_cannot_hang (op : SyncOp) (mask : CpuMask) (processId : ℕ → ℕ) :
    CannotHang op mask processId ↔ ∀ cpu ∈ mask.cpus, cpu < MAX_CPU_NR := by
  refine exists_numbered_iff ?_
  rintro o rfl res _ s h
  exact stopMachine_cannot_hang h

/-- A run in which CPU 3 fails its stack check and CPU 0 has only begun its own. -/
def hastyRun : List (ℕ × Counter) × State ℕ Counter :=
  execDec (stopMachine .install twoCpus (fun _ => 7) busyOnThree) [0, 0, 0, 3, 3, 3, 3, 3]
    ([], parallelStateCheckInit 2)

/-- CPU 3 waits, CPU 0 goes on. -/
theorem syncSched_cannot_hang_hastyRun :
    step (stopMachine .install twoCpus (fun _ => 7) busyOnThree) 3 hastyRun.2 = none ∧
      hastyRun.1.count (3, .cpuFinished) ≤ 1 ∧
      ∃ cpu ∈ twoCpus.cpus,
        (step (stopMachine .install twoCpus (fun _ => 7) busyOnThree) cpu hastyRun.2).isSome := by
  obtain ⟨ids, hids, hall⟩ :=
    (syncSched_cannot_hang .install twoCpus.toCpuMask fun _ => 7).mpr (by decide)
  obtain rfl : twoCpus.processId (fun _ => 7) = ids := twoCpus.processId_eq hids
  have hrun : Run (nextDec (stopMachine .install twoCpus (fun _ => 7) busyOnThree))
      (parallelStateCheckInit 2) hastyRun.1 hastyRun.2 := execDec_run (by decide) .nil
  have h := hall busyOnThree hastyRun.1 hastyRun.2 hrun
  exact ⟨rfl, (h.2.1 3 (by decide) _).1, h.2.2 ⟨0, by decide, rfl⟩⟩

/-- Both CPUs have checked their shares before one of them looks at `cpu_finished`. -/
def hangingRun : List (Event ℕ Phase) × State ℕ Counter :=
  exec (stopMachineOn .install farCpus farIds fun _ _ => 0)
    [0, 0, 0, 0, 0, 1024, 1024, 1024, 1024] ([], overrun)

/-- The counter is then -1, and both wait for ever. -/
theorem farCpu_hangs :
    ¬ CannotHang .install farCpus (fun _ => 0) ∧
      processIdInit farCpus.cpus 0 (fun _ => 0) = .error (.outOfBounds 1024) ∧
      Run (next (stopMachineOn .install farCpus farIds fun _ _ => 0)) overrun hangingRun.1
        hangingRun.2 ∧
      hangingRun.2.counter .cpuFinished = -1 ∧
      ∀ cpu ∈ farCpus.cpus,
        step (stopMachineOn .install farCpus farIds fun _ _ => 0) cpu hangingRun.2 = none := by
  have hinit : processIdInit farCpus.cpus 0 (fun _ => 0) = .error (.outOfBounds 1024) := rfl
  refine ⟨not_exists_numbered hinit, hinit, exec_run (by decide) .nil, by decide, ?_⟩
  intro cpu hcpu
  rcases List.mem_cons.mp hcpu with rfl | hcpu
  · rfl
  · obtain rfl := List.mem_singleton.mp hcpu
    rfl

end Plugsched
