/-
Draining and refilling the run queues: `clear_sched_state` and
`rebuild_sched_state`, at work in the stop-machine handlers.

Each CPU walks the whole task list and takes its own tasks; the walks of
different CPUs interleave task by task.  What the class functions do to the
rest of the kernel is left open; they are found through the contents of the
class tables at the time of the call.  Run-queue locks, queue flags and the
restart of the bandwidth timers are left out.

* `schedBody` — the code of the phases, step by step;
* `clear_facts`, `rebuild_facts` — the barriers, seen from inside the walks.
-/
import Plugsched.BarrierWork
import Plugsched.ListHead
import Plugsched.SchedClass
import Plugsched.SyncSched

open Runs BarrierProgram ListHead

namespace Plugsched

/-- A `struct task_struct *`.  `walkEnd` is where `for_each_process_thread`
leaves its variable, the head of a thread list read as a task; `dyingHead` is
the head of a `dying_task_list` read as a task. -/
inductive Ptr where
  | task (t : ℕ)
  | walkEnd
  | dyingHead (cpu : ℕ)
  deriving DecidableEq

inductive ClassOp where
  | dequeueTask | enqueueTask
  deriving DecidableEq

/-- A call of `p->sched_class->dequeue_task` or `enqueue_task` on a run queue,
with the class, the contents of its table, and the kernel that makes the call. -/
structure Call (T σ : Type*) where
  op : ClassOp
  rq : ℕ
  task : Ptr
  cls : Fin NR_SCHED_CLASS
  via : T
  kernel : σ
  deriving DecidableEq

/-- The kernel around the module.  The run queue of CPU `cpu` is `cpu`; `tasks`
lists the threads in the order of `for_each_process_thread`.  Stop-machine
freezes the list, and no class function changes `task_rq` or `on_rq`. -/
structure Kernel (T σ : Type*) where
  tasks : List ℕ
  nodup : tasks.Nodup
  taskRq : ℕ → ℕ
  taskOnRqQueued : ℕ → Bool
  stop : ℕ → Option ℕ
  modClass : Fin NR_SCHED_CLASS → T
  schedClass : σ → Ptr → Fin NR_SCHED_CLASS
  dequeueTask : T → ℕ → Ptr → σ → σ
  enqueueTask : T → ℕ → Ptr → σ → σ
  putPrevTask : T → ℕ → Ptr → σ → σ
  pickNextTask : T → ℕ → σ → Option ℕ × σ
  nrRunning : σ → ℕ → ℕ
  /-- `__mod_update_rq_clock` or `__orig_update_rq_clock`, and so on. -/
  updateRqClock : Bool → ℕ → σ → σ
  setRqOffline : Bool → ℕ → σ → σ
  setRqOnline : Bool → ℕ → σ → σ

/-- What the handlers change; `log` lists the calls made so far. -/
structure World (T σ : Type*) where
  classes : ClassTables T
  kernel : σ
  links : Links Ptr
  log : List (Call T σ)

/-- Where a CPU is in a phase. -/
inductive Work where
  | prologue
  | walk (rest : List ℕ)
  | drainCheck
  | drain (classes : List (Fin NR_SCHED_CLASS))
  | dying (pos : Ptr)
  | done
  deriving DecidableEq

variable {T σ : Type*}

namespace World

def dequeue (K : Kernel T σ) (w : World T σ) (cpu : ℕ) (p : Ptr) (cls : Fin NR_SCHED_CLASS) :
    World T σ :=
  { w with
    kernel := K.dequeueTask (w.classes.orig cls) cpu p w.kernel
    log := w.log ++ [⟨.dequeueTask, cpu, p, cls, w.classes.orig cls, w.kernel⟩] }

def enqueue (K : Kernel T σ) (w : World T σ) (cpu : ℕ) (p : Ptr) (cls : Fin NR_SCHED_CLASS) :
    World T σ :=
  { w with
    kernel := K.enqueueTask (w.classes.orig cls) cpu p w.kernel
    log := w.log ++ [⟨.enqueueTask, cpu, p, cls, w.classes.orig cls, w.kernel⟩] }

end World

/-- The walks pass over tasks of other run queues, the stopper and tasks that
are not queued. -/
def Kernel.Picks (K : Kernel T σ) (cpu t : ℕ) : Prop :=
  K.taskRq t = cpu ∧ K.stop cpu ≠ some t ∧ K.taskOnRqQueued t = true

instance (K : Kernel T σ) (cpu t : ℕ) : Decidable (K.Picks cpu t) :=
  inferInstanceAs (Decidable (_ ∧ _))

/-- One step of `clear_sched_state(mod)`. -/
def clearSchedState (K : Kernel T σ) (mod : Bool) (cpu : ℕ) (work : Work) (w : World T σ) :
    Work × World T σ :=
  match work with
  | .prologue =>
    (.walk K.tasks, { w with
      kernel := K.setRqOffline mod cpu (K.updateRqClock mod cpu w.kernel) })
  | .walk (t :: rest) =>
    (.walk rest,
      if K.Picks cpu t then w.dequeue K cpu (.task t) (K.schedClass w.kernel (.task t)) else w)
  | .walk [] => (.drainCheck, { w with links := w.links.initListHead (.dyingHead cpu) })
  | .drainCheck =>
    if K.nrRunning w.kernel cpu = 1 then (.done, w)
    else (.drain (List.finRange NR_SCHED_CLASS), w)
  | .drain [] => (.drainCheck, w)
  | .drain (cls :: rest) =>
    let picked := K.pickNextTask (w.classes.orig cls) cpu w.kernel
    match picked.1 with
    | none => (.drain rest, { w with kernel := picked.2 })
    | some next =>
      let kernel := K.putPrevTask (w.classes.orig (K.schedClass picked.2 (.task next))) cpu
        (.task next) picked.2
      -- the task dequeued and linked is `p`, which the walk has left at its end
      let w := { w with kernel := kernel }.dequeue K cpu .walkEnd
        (K.schedClass kernel (.task next))
      (.drainCheck, { w with links := w.links.addTail .walkEnd (.dyingHead cpu) })
  | .dying pos => (.dying pos, w)
  | .done => (.done, w)

/-- One step of `rebuild_sched_state(mod)`. -/
def rebuildSchedState (K : Kernel T σ) (mod : Bool) (cpu : ℕ) (work : Work) (w : World T σ) :
    Work × World T σ :=
  match work with
  | .prologue =>
    (.walk K.tasks, { w with
      kernel := K.setRqOnline mod cpu (K.updateRqClock mod cpu w.kernel) })
  | .walk (t :: rest) =>
    (.walk rest,
      if K.Picks cpu t then w.enqueue K cpu (.task t) (K.schedClass w.kernel (.task t)) else w)
  | .walk [] => (.dying (w.links.next (.dyingHead cpu)), w)
  | .dying pos =>
    if pos = .dyingHead cpu then (.done, w)
    else
      let w := w.enqueue K cpu pos (K.schedClass w.kernel pos)
      let links := w.links.delInit pos
      (.dying (links.next pos), { w with links := links })
  | .drainCheck => (.drainCheck, w)
  | .drain classes => (.drain classes, w)
  | .done => (.done, w)

/-- The bodies of the phases.  The others touch neither tasks nor tables. -/
def schedBody (op : SyncOp) (K : Kernel T σ) : Body ℕ Phase Work (World T σ) where
  enter _ := .prologue
  step cpu ph work w :=
    match ph with
    | .clearSchedState => clearSchedState K (op == .restore) cpu work w
    | .switchSchedClass =>
      (.done, { w with classes := switchSchedClass K.modClass (op == .install) w.classes })
    | .rebuildSchedState => rebuildSchedState K (op == .install) cpu work w
    | _ => (.done, w)
  done work := work == .done

/-! ### The barriers, seen from inside the walks -/

section Facts

variable {op : SyncOp} {o : OnlineCpus} {processId : ℕ → ℕ} {res : Phase → ℕ → ℤ}
  {K : Kernel T σ} {w₀ : World T σ} {tr : List (Event ℕ Phase)}
  {s : WorkState ℕ Counter Phase Work (World T σ)} {cpu : ℕ}

/-- The phases that run queues and tables depend on. -/
theorem onlyAt_pos {ph : Phase} {f : Bool}
    (hget : op.handler[op.pos ph]? = some (.phase f ph)) :
    OnlyAt (stopMachine op o processId res) ph (op.pos ph) f where
  at_ := ⟨_, hget, rfl⟩
  only _ _ _ hi hcode := eq_pos_of_code hi hcode

theorem onlyAt_clear :
    OnlyAt (stopMachine op o processId res) .clearSchedState (op.pos .clearSchedState) false :=
  onlyAt_pos (handler_clearSchedState op)

theorem onlyAt_switch :
    OnlyAt (stopMachine op o processId res) .switchSchedClass (op.pos .switchSchedClass) true :=
  onlyAt_pos (by cases op <;> rfl)

theorem onlyAt_rebuild :
    OnlyAt (stopMachine op o processId res) .rebuildSchedState (op.pos .rebuildSchedState)
      false :=
  onlyAt_pos (by cases op <;> rfl)

/-- The order of the handlers. -/
theorem pos_order (op : SyncOp) :
    op.abortPos < op.pos .clearSchedState ∧
      op.pos .clearSchedState < op.decPos .clearFinished ∧
      op.decPos .clearFinished + 1 < op.pos .switchSchedClass ∧
      op.pos .switchSchedClass < op.decPos .redirectFinished ∧
      op.decPos .redirectFinished + 1 < op.pos .rebuildSchedState := by
  cases op <;> decide

theorem firstCpu_mem : firstCpu o ∈ (stopMachine op o processId res).procs :=
  mem_procs.mpr (List.head_mem o.ne_nil)

/-- While a CPU clears its run queue, the classes are not switched yet and it
has not begun to rebuild. -/
theorem clear_facts
    (h : Run (Working (stopMachine op o processId res) (schedBody op K))
      (workInit (stopMachine op o processId res).init w₀) tr s)
    (hcpu : cpu ∈ (stopMachine op o processId res).procs)
    (hin : Inside (stopMachine op o processId res) s.bar cpu .clearSchedState) :
    s.work cpu .rebuildSchedState = none ∧ s.work (firstCpu o) .switchSchedClass = none := by
  obtain ⟨-, hdec, hwait, hsw, hre⟩ := pos_order op
  have hpc := hin.pc_eq onlyAt_clear
  constructor
  · refine work_eq_none onlyAt_rebuild h ?_ ?_
    · rw [hpc, Pc.idx]
      omega
    · rw [hpc]
      intro heq
      injection heq with hpos
      omega
  · by_contra hbegun
    -- the first CPU would have passed the barrier that `cpu` still owes
    have hpast : op.decPos .clearFinished + 1 < (s.bar.pc (firstCpu o)).idx := by
      rcases inside_of_work onlyAt_switch h hbegun with hlt | heq
      · omega
      · rw [heq, Pc.idx]
        exact hwait
    have howes := owes_eq_zero_of_passed stopMachine_wellFormed (working_bar h)
      (handler_wait op .clearFinished) firstCpu_mem hpast cpu hcpu
    rw [hpc] at howes
    have hlt := lt_idx_of_owes_eq_zero (S := stopMachine op o processId res)
      (handler_dec op .clearFinished) (by simp) howes
    rw [Pc.idx] at hlt
    omega

/-- When a CPU rebuilds its run queue, the classes are switched and it is
through with clearing. -/
theorem rebuild_facts
    (h : Run (Working (stopMachine op o processId res) (schedBody op K))
      (workInit (stopMachine op o processId res).init w₀) tr s)
    (hcpu : cpu ∈ (stopMachine op o processId res).procs)
    (hpast : op.decPos .redirectFinished + 1 < (s.bar.pc cpu).idx)
    (hrun : ∃ i b, s.bar.pc cpu = .run i b) :
    s.work cpu .clearSchedState = some .done ∧
      s.work (firstCpu o) .switchSchedClass = some .done := by
  obtain ⟨habort, hdec, hwait, hsw, hre⟩ := pos_order op
  obtain ⟨i, b, hpc⟩ := hrun
  have hon : WentOn (stopMachine op o processId res) (s.bar.pc cpu) := by
    rw [hpc, Pc.idx] at hpast
    rw [hpc]
    exact ⟨op.abortPos, _, by omega, handler_abort op⟩
  have hall := lt_idx_of_wentOn stopMachine_wellFormed stopMachine_voting (working_bar h)
    (handler_dec op .redirectFinished) (handler_wait op .redirectFinished) hcpu hon hpast
  have hfirst : isFirstProcess (o.processId processId) (firstCpu o) = true :=
    (isFirstProcess_iff o processId (List.head_mem o.ne_nil)).mpr rfl
  constructor
  · obtain ⟨work, hwork, hdone⟩ := work_done onlyAt_clear (by simp) h
      (lt_trans (lt_trans (lt_trans hdec (Nat.lt_of_succ_lt hwait)) hsw) (hall cpu hcpu))
    rw [hwork, beq_iff_eq.mp hdone]
  · obtain ⟨work, hwork, hdone⟩ := work_done onlyAt_switch (fun _ => hfirst) h
      (hsw.trans (hall _ firstCpu_mem))
    rw [hwork, beq_iff_eq.mp hdone]

end Facts

end Plugsched
