/-
Dying tasks: the drain loop at the end of `clear_sched_state` and the loop over
`dying_task_list` in `rebuild_sched_state`.

Tasks that are about to die are off the global task list but may still be
queued.  The drain loop is to take them off the run queue and to link them
into a list, from which `rebuild_sched_state` puts them back.  Here the loops
run on one CPU, from the first statement behind the walk over the task list.

* `drain_calls` — the drain loop dequeues and links only the pointer that the
  walk has left behind;
* `drains_iff` — so it does its work only where there is no dying task;
* `refill_head` — the other loop never gets past the first task of the list;
* `refills_iff` — so it does its work only on an empty list.
-/
import Mathlib.Data.Finset.Card
import Mathlib.Data.Finset.Erase
import Mathlib.Logic.Function.Iterate
import Plugsched.SchedRebuild

open ListHead

namespace Plugsched

variable {T σ : Type*}

/-! ### The drain loop -/

/-- `k` steps of `clear_sched_state(mod)` on CPU `cpu` from the end of the walk. -/
def drainRun (K : Kernel T σ) (mod : Bool) (cpu : ℕ) (w : World T σ) (k : ℕ) : Work × World T σ :=
  (fun s => clearSchedState K mod cpu s.1 s.2)^[k] (.walk [], w)

/-- The run queue of `cpu` when the walk is over, seen through the set `queued` of
its tasks: they are counted in `nr_running`, the stopper, which is running, is one
of them, and the classes pick tasks of their own among them. -/
structure Walked (K : Kernel T σ) (queued : σ → ℕ → Finset ℕ) (cpu stopper : ℕ) (w : World T σ) :
    Prop where
  stop : K.stop cpu = some stopper
  mem : stopper ∈ queued w.kernel cpu
  nrRunning : K.nrRunning w.kernel cpu = (queued w.kernel cpu).card
  pick : ∀ cls next s, K.pickNextTask (w.classes.orig cls) cpu w.kernel = (some next, s) →
    next ∈ queued w.kernel cpu ∧ K.schedClass w.kernel (.task next) = cls

/-- The tasks besides the stopper that are still queued. -/
def dyingTasks (queued : σ → ℕ → Finset ℕ) (cpu stopper : ℕ) (w : World T σ) : Finset ℕ :=
  (queued w.kernel cpu).erase stopper

/-- The work of the drain loop: the stopper alone is left, every dying task has been
dequeued once and is on the list once, and nothing else is. -/
structure Drained (K : Kernel T σ) (queued : σ → ℕ → Finset ℕ) (cpu stopper : ℕ)
    (w w' : World T σ) : Prop where
  nrRunning : K.nrRunning w'.kernel cpu = 1
  left : queued w'.kernel cpu = {stopper}
  dequeued : ∃ calls, w'.log = w.log ++ calls ∧
    (∀ c ∈ calls, c.op = .dequeueTask ∧ c.rq = cpu ∧
      ∃ t ∈ dyingTasks queued cpu stopper w, c.task = .task t) ∧
    ∀ t ∈ dyingTasks queued cpu stopper w, (calls.map Call.task).count (.task t) = 1
  linked : ∃ nodes, IsList w'.links (.dyingHead cpu) nodes ∧
    ∀ p, p ∈ nodes ↔ ∃ t ∈ dyingTasks queued cpu stopper w, p = .task t

/-- The drain loop ends and has done its work. -/
def Drains (K : Kernel T σ) (mod : Bool) (queued : σ → ℕ → Finset ℕ) (cpu stopper : ℕ)
    (w : World T σ) : Prop :=
  ∃ k w', drainRun K mod cpu w k = (.done, w') ∧ Drained K queued cpu stopper w w'

/-- The CPU is behind the walk of `clear_sched_state`. -/
def Work.drains : Work → Bool
  | .walk [] => true
  | .drainCheck => true
  | .drain _ => true
  | .done => true
  | _ => false

/-- One step behind the walk calls at most `dequeue_task` for `walkEnd`. -/
theorem drain_step (K : Kernel T σ) (mod : Bool) (cpu : ℕ) {work : Work} (w : World T σ)
    (h : work.drains = true) :
    (clearSchedState K mod cpu work w).1.drains = true ∧
      ∃ calls, (clearSchedState K mod cpu work w).2.log = w.log ++ calls ∧
        ∀ c ∈ calls, c.op = .dequeueTask ∧ c.rq = cpu ∧ c.task = .walkEnd := by
  have hnone : ∃ calls, w.log = w.log ++ calls ∧
      ∀ c ∈ calls, c.op = .dequeueTask ∧ c.rq = cpu ∧ c.task = .walkEnd :=
    ⟨[], (List.append_nil _).symm, by simp⟩
  cases work with
  | prologue => cases h
  | dying pos => cases h
  | walk rest =>
    cases rest with
    | nil => exact ⟨rfl, hnone⟩
    | cons t rest => cases h
  | drainCheck =>
    rw [clearSchedState]
    split <;> exact ⟨rfl, hnone⟩
  | drain classes =>
    cases classes with
    | nil => exact ⟨rfl, hnone⟩
    | cons cls rest =>
      rw [clearSchedState]
      dsimp only
      split
      · exact ⟨rfl, hnone⟩
      · exact ⟨rfl, [_], rfl, by simp⟩
  | done => exact ⟨rfl, hnone⟩

/-- Whatever is queued, all calls of the drain loop are about `walkEnd`. -/
theorem drain_calls (K : Kernel T σ) (mod : Bool) (cpu : ℕ) (w : World T σ) (k : ℕ) :
    (drainRun K mod cpu w k).1.drains = true ∧
      ∃ calls, (drainRun K mod cpu w k).2.log = w.log ++ calls ∧
        ∀ c ∈ calls, c.op = .dequeueTask ∧ c.rq = cpu ∧ c.task = .walkEnd := by
  induction k with
  | zero => exact ⟨rfl, [], (List.append_nil _).symm, by simp⟩
  | succ k ih =>
    obtain ⟨hwork, calls, hlog, hcalls⟩ := ih
    obtain ⟨hwork', calls', hlog', hcalls'⟩ := drain_step K mod cpu (drainRun K mod cpu w k).2 hwork
    rw [drainRun, Function.iterate_succ_apply']
    refine ⟨hwork', calls ++ calls', ?_, fun c hc => ?_⟩
    · rw [← List.append_assoc, ← hlog]
      exact hlog'
    · rcases List.mem_append.mp hc with hc | hc
      · exact hcalls c hc
      · exact hcalls' c hc

/-- A dying task is never dequeued by the drain loop. -/
theorem not_drains_of_dying {K : Kernel T σ} {mod : Bool} {queued : σ → ℕ → Finset ℕ}
    {cpu stopper t : ℕ} {w : World T σ} (ht : t ∈ dyingTasks queued cpu stopper w) :
    ¬ Drains K mod queued cpu stopper w := by
  rintro ⟨k, w', hrun, hdrained⟩
  -- the call that dequeues `t` would be about `walkEnd`
  obtain ⟨calls, hlog, -, honce⟩ := hdrained.dequeued
  obtain ⟨-, calls', hlog', hcalls⟩ := drain_calls K mod cpu w k
  rw [hrun, hlog, List.append_cancel_left_eq] at hlog'
  have hpos : 0 < (calls.map Call.task).count (.task t) := by
    rw [honce t ht]
    exact Nat.one_pos
  obtain ⟨c, hc, htask⟩ := List.mem_map.mp (List.count_pos_iff.mp hpos)
  rw [hlog'] at hc
  rw [(hcalls c hc).2.2] at htask
  cases htask

/-- **The drain loop.**  It takes the dying tasks off the run queue, each once, and
links them, each once, exactly if there are none. -/
theorem drains_iff (K : Kernel T σ) (mod : Bool) (queued : σ → ℕ → Finset ℕ) (cpu stopper : ℕ)
    (w : World T σ) (h : Walked K queued cpu stopper w) :
    Drains K mod queued cpu stopper w ↔ dyingTasks queued cpu stopper w = ∅ := by
  constructor
  · intro hdrains
    exact Finset.eq_empty_of_forall_notMem fun t ht => not_drains_of_dying ht hdrains
  · intro hnone
    have hqueued : queued w.kernel cpu = {stopper} := by
      rw [← Finset.insert_erase h.mem]
      exact congrArg (insert stopper) hnone
    have hnr : K.nrRunning w.kernel cpu = 1 := by
      rw [h.nrRunning, hqueued, Finset.card_singleton]
    refine ⟨2, { w with links := w.links.initListHead (.dyingHead cpu) }, ?_, ?_⟩
    · simp [drainRun, clearSchedState, hnr]
    · exact
        { nrRunning := hnr
          left := hqueued
          dequeued := ⟨[], (List.append_nil _).symm, by simp, by simp [hnone]⟩
          linked := ⟨[], isList_initListHead _ _, by simp [hnone]⟩ }

/-- A kernel with one CPU: its state lists the queued tasks and holds `nr_running`.
Task 1 is the stopper, the others belong to the fair class.  As in the kernel the
stop class picks the stopper as long as it is queued, and its `dequeue_task`
counts `nr_running` down whatever the task is. -/
def smallKernel : Kernel ℕ (List ℕ × ℕ) where
  tasks := []
  nodup := List.nodup_nil
  taskRq _ := 0
  taskOnRqQueued _ := true
  stop _ := some 1
  modClass _ := 7
  schedClass _ p := if p = .task 1 then 0 else 3
  dequeueTask table _ p s :=
    match p with
    | .task t => (s.1.erase t, s.2 - 1)
    | _ => if table = 0 then (s.1, s.2 - 1) else s
  enqueueTask _ _ _ s := s
  putPrevTask _ _ _ s := s
  pickNextTask table _ s :=
    if table = 0 then (s.1.find? (· = 1), s)
    else if table = 3 then (s.1.find? (· ≠ 1), s)
    else (none, s)
  nrRunning s _ := s.2
  updateRqClock _ _ s := s
  setRqOffline _ _ s := s
  setRqOnline _ _ s := s

/-- The tables hold their own numbers, the tasks of the list are queued. -/
def smallWorld (tasks : List ℕ) : World ℕ (List ℕ × ℕ) where
  classes := { orig := fun cls => cls, bak := fun _ => 9 }
  kernel := (tasks, tasks.length)
  links := { next := fun p => p, prev := fun p => p }
  log := []

/-- The tasks queued in this kernel. -/
def smallQueued (s : List ℕ × ℕ) (_cpu : ℕ) : Finset ℕ := s.1.toFinset

theorem smallWorld_walked {tasks : List ℕ} (hnd : tasks.Nodup) (h : 1 ∈ tasks) :
    Walked smallKernel smallQueued 0 1 (smallWorld tasks) where
  stop := rfl
  mem := List.mem_toFinset.mpr h
  nrRunning := (List.toFinset_card_of_nodup hnd).symm
  pick cls next s hpick := by
    have hfound : ∀ p : ℕ → Bool, tasks.find? p = some next → next ∈ tasks ∧ p next = true :=
      fun p hp => ⟨List.mem_of_find?_eq_some hp, List.find?_some hp⟩
    simp only [smallKernel, smallWorld] at hpick
    split at hpick
    · next hcls =>
      obtain ⟨hmem, hone⟩ := hfound _ (Prod.mk.inj hpick).1
      refine ⟨List.mem_toFinset.mpr hmem, ?_⟩
      rw [decide_eq_true_iff.mp hone]
      exact (Fin.ext hcls).symm
    · split at hpick
      · next hcls =>
        obtain ⟨hmem, hne⟩ := hfound _ (Prod.mk.inj hpick).1
        refine ⟨List.mem_toFinset.mpr hmem, ?_⟩
        have hother : Ptr.task next ≠ .task 1 := fun heq =>
          decide_eq_true_iff.mp hne (Ptr.task.inj heq)
        simp only [smallKernel, if_neg hother]
        exact (Fin.ext hcls).symm
      · cases hpick

/-- Where only the stopper is queued, the loop does its work. -/
theorem drains_iff_stopperOnly : Drains smallKernel false smallQueued 0 1 (smallWorld [1]) :=
  (drains_iff smallKernel false smallQueued 0 1 (smallWorld [1])
    (smallWorld_walked (by decide) (by decide))).mpr rfl

/-- With a dying task the loop ends, but the task is still queued, and the list holds
`walkEnd` instead. -/
theorem dyingTask_not_drained :
    Walked smallKernel smallQueued 0 1 (smallWorld [1, 7]) ∧
      ¬ Drains smallKernel false smallQueued 0 1 (smallWorld [1, 7]) ∧
      (drainRun smallKernel false 0 (smallWorld [1, 7]) 5).1 = .done ∧
      (drainRun smallKernel false 0 (smallWorld [1, 7]) 5).2.kernel.1 = [1, 7] ∧
      (drainRun smallKernel false 0 (smallWorld [1, 7]) 5).2.links.next (.dyingHead 0) =
        .walkEnd :=
  ⟨smallWorld_walked (by decide) (by decide), not_drains_of_dying (t := 7) (by decide), rfl, rfl,
    rfl⟩

/-! ### The loop over the list of dying tasks -/

/-- `k` steps of `rebuild_sched_state(mod)` on CPU `cpu` from the end of the walk. -/
def refillRun (K : Kernel T σ) (mod : Bool) (cpu : ℕ) (w : World T σ) (k : ℕ) : Work × World T σ :=
  (fun s => rebuildSchedState K mod cpu s.1 s.2)^[k] (.walk [], w)

/-- The loop over the list ends, has enqueued each of its tasks once and nothing
else, and leaves the list empty. -/
def Refills (K : Kernel T σ) (mod : Bool) (cpu : ℕ) (w : World T σ) (nodes : List Ptr) : Prop :=
  ∃ k w', refillRun K mod cpu w k = (.done, w') ∧
    (∃ calls, w'.log = w.log ++ calls ∧ (∀ c ∈ calls, c.op = .enqueueTask ∧ c.rq = cpu) ∧
      (calls.map Call.task).Perm nodes) ∧
    IsList w'.links (.dyingHead cpu) []

/-- Deleting the node the loop stands on makes the loop find this node again. -/
theorem refill_step (K : Kernel T σ) (mod : Bool) (cpu : ℕ) {p : Ptr} (w : World T σ)
    (hne : p ≠ .dyingHead cpu) :
    (rebuildSchedState K mod cpu (.dying p) w).1 = .dying p ∧
      ∃ call, (rebuildSchedState K mod cpu (.dying p) w).2.log = w.log ++ [call] ∧
        call.task = p := by
  rw [rebuildSchedState, if_neg hne]
  exact ⟨congrArg Work.dying (next_delInit _ _), _, rfl, rfl⟩

/-- **The loop gets stuck on the first task**, which is enqueued once more in every
round. -/
theorem refill_head (K : Kernel T σ) (mod : Bool) (cpu : ℕ) (w : World T σ) {p : Ptr}
    {rest : List Ptr} (h : IsList w.links (.dyingHead cpu) (p :: rest)) (k : ℕ) :
    (refillRun K mod cpu w (k + 1)).1 = .dying p ∧
      ∃ calls, (refillRun K mod cpu w (k + 1)).2.log = w.log ++ calls ∧
        calls.map Call.task = List.replicate k p := by
  have hne : p ≠ .dyingHead cpu := by
    rintro rfl
    exact (List.nodup_cons.mp h.nodup).1 List.mem_cons_self
  induction k with
  | zero =>
    refine ⟨?_, [], (List.append_nil _).symm, rfl⟩
    show Work.dying (w.links.next (.dyingHead cpu)) = .dying p
    rw [h.next_head]
  | succ k ih =>
    obtain ⟨hwork, calls, hlog, htasks⟩ := ih
    obtain ⟨hwork', call, hlog', htask⟩ :=
      refill_step K mod cpu (refillRun K mod cpu w (k + 1)).2 hne
    have hsucc : refillRun K mod cpu w (k + 1 + 1) =
        rebuildSchedState K mod cpu (.dying p) (refillRun K mod cpu w (k + 1)).2 := by
      rw [← hwork]
      exact Function.iterate_succ_apply' ..
    rw [hsucc]
    refine ⟨hwork', calls ++ [call], ?_, ?_⟩
    · rw [hlog', hlog, List.append_assoc]
    · rw [List.map_append, htasks, List.replicate_succ', List.map_singleton, htask]

/-- A list with a task on it is never refilled. -/
theorem not_refills_of_cons {K : Kernel T σ} {mod : Bool} {cpu : ℕ} {w : World T σ} {p : Ptr}
    {rest nodes : List Ptr} (h : IsList w.links (.dyingHead cpu) (p :: rest)) :
    ¬ Refills K mod cpu w nodes := by
  rintro ⟨k, w', hrun, -⟩
  cases k with
  | zero => cases congrArg Prod.fst hrun
  | succ k =>
    have hwork := (refill_head K mod cpu w h k).1
    rw [hrun] at hwork
    cases hwork

/-- **The loop over the dying tasks.**  It ends, enqueues every task of the list
exactly once and leaves the list empty exactly if the list was empty. -/
theorem refills_iff (K : Kernel T σ) (mod : Bool) (cpu : ℕ) (w : World T σ) (nodes : List Ptr)
    (h : IsList w.links (.dyingHead cpu) nodes) : Refills K mod cpu w nodes ↔ nodes = [] := by
  cases nodes with
  | nil =>
    refine iff_of_true ⟨2, w, ?_, ⟨[], (List.append_nil _).symm, by simp, List.Perm.nil⟩, h⟩ rfl
    simp [refillRun, rebuildSchedState, (isList_nil_iff.mp h).1]
  | cons p rest =>
    exact iff_of_false (not_refills_of_cons h) (List.cons_ne_nil _ _)

/-- An empty list is left alone. -/
theorem refills_iff_empty : Refills smallKernel true 0 (smallWorld [1]) [] :=
  (refills_iff smallKernel true 0 (smallWorld [1]) []
    (isList_nil_iff.mpr ⟨rfl, rfl⟩)).mpr rfl

/-- The world with task 7 on the list of dying tasks. -/
def dyingWorld : World ℕ (List ℕ × ℕ) :=
  { smallWorld [1] with
    links := ((smallWorld [1]).links.initListHead (.dyingHead 0)).addTail (.task 7)
      (.dyingHead 0) }

/-- One dying task keeps the loop going for ever. -/
theorem dyingTask_refilled_forever :
    IsList dyingWorld.links (.dyingHead 0) [.task 7] ∧
      ¬ Refills smallKernel true 0 dyingWorld [.task 7] ∧
      ∀ k, (refillRun smallKernel true 0 dyingWorld (k + 1)).1 = .dying (.task 7) := by
  have hlist : IsList dyingWorld.links (.dyingHead 0) [.task 7] :=
    ⟨by decide, by simp only [List.cons_append, List.nil_append]; decide⟩
  exact ⟨hlist, not_refills_of_cons hlist,
    fun k => (refill_head smallKernel true 0 dyingWorld hlist k).1⟩

end Plugsched
