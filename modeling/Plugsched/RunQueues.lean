/-
Run queues are conserved over an update.

The calls of the class functions are followed through a run of a stop-machine
handler, whatever the interleaving of the CPUs:

* `suffix_of_walk` — a walk has the end of the task list before it;
* `classes_eq` — the tables hold the old contents until the switch is done and
  the new contents afterwards;
* `dying_ne_task` — the list of dying tasks never leads to a listed task;
* `calls_eq` — the calls about a listed task, from the progress of the walks;
* `run_queues_conserved` — one dequeue through the old table of the class and one
  enqueue through the new one, exactly if all CPU ids are below `MAX_CPU_NR`.
-/
import Plugsched.SchedRebuild

open Runs BarrierProgram ListHead

namespace Plugsched

variable {T σ : Type*}

section RunQueues

variable {op : SyncOp} {o : OnlineCpus} {processId : ℕ → ℕ} {res : Phase → ℕ → ℤ}
  {K : Kernel T σ} {w₀ : World T σ} {tr : List (Event ℕ Phase)}
  {s : WorkState ℕ Counter Phase Work (World T σ)}

/-! ### The walks -/

theorem walk_of_step {cpu : ℕ} {ph : Phase} {work : Work} {w : World T σ} {rest : List ℕ}
    (h : ((schedBody op K).step cpu ph work w).1 = .walk rest) :
    rest = K.tasks ∨ ∃ t, work = .walk (t :: rest) := by
  have hwalk : ∀ work' : Work, work' = .walk rest → (work' = .walk K.tasks ∨
      ∃ t rest', work = .walk (t :: rest') ∧ work' = .walk rest') →
      rest = K.tasks ∨ ∃ t, work = .walk (t :: rest) := by
    rintro work' rfl (heq | ⟨t, rest', rfl, heq⟩)
    · injection heq with heq
      exact .inl heq
    · injection heq with heq
      exact .inr ⟨t, by rw [heq]⟩
  cases ph with
  | clearSchedState =>
    cases work with
    | prologue => exact hwalk _ h (.inl rfl)
    | walk rest' =>
      cases rest' with
      | nil => cases h
      | cons t rest' => exact hwalk _ h (.inr ⟨t, rest', rfl, rfl⟩)
    | drainCheck =>
      simp only [schedBody, clearSchedState] at h
      split at h <;> cases h
    | drain classes =>
      cases classes with
      | nil => cases h
      | cons cls rest' =>
        simp only [schedBody, clearSchedState] at h
        split at h <;> cases h
    | dying pos => cases h
    | done => cases h
  | rebuildSchedState =>
    cases work with
    | prologue => exact hwalk _ h (.inl rfl)
    | walk rest' =>
      cases rest' with
      | nil => cases h
      | cons t rest' => exact hwalk _ h (.inr ⟨t, rest', rfl, rfl⟩)
    | dying pos =>
      simp only [schedBody, rebuildSchedState] at h
      split at h <;> cases h
    | drainCheck => cases h
    | drain classes => cases h
    | done => cases h
  | _ => cases h

theorem suffix_of_walk
    (h : Run (Working (stopMachine op o processId res) (schedBody op K))
      (workInit (stopMachine op o processId res).init w₀) tr s) {cpu : ℕ} {ph : Phase}
    {rest : List ℕ} (hw : s.work cpu ph = some (.walk rest)) : rest <:+ K.tasks := by
  refine Working.invariant (J := fun work _ => ∀ cpu ph rest,
    work cpu ph = some (.walk rest) → rest <:+ K.tasks) ?_ ?_ ?_ h cpu ph rest hw
  · intro cpu ph rest hw
    cases hw
  · intro tr s bar' c ph' _ _ ih cpu ph rest hw
    by_cases heq : (cpu, ph) = (c, ph')
    · cases heq
      rw [setWork_self] at hw
      cases hw
    · rw [setWork_of_ne _ _ heq] at hw
      exact ih cpu ph rest hw
  · intro tr s c ph' work _ ih _ _ hwork _ cpu ph rest hw
    by_cases heq : (cpu, ph) = (c, ph')
    · cases heq
      rw [setWork_self, Option.some_inj] at hw
      rcases walk_of_step hw with rfl | ⟨t, rfl⟩
      · exact List.suffix_refl _
      · exact (List.suffix_cons t rest).trans (ih _ _ _ hwork)
    · rw [setWork_of_ne _ _ heq] at hw
      exact ih cpu ph rest hw

/-! ### The tables -/

/-- Only the switch changes the tables. -/
theorem step_classes {cpu : ℕ} {ph : Phase} (hph : ph ≠ .switchSchedClass) (work : Work)
    (w : World T σ) : ((schedBody op K).step cpu ph work w).2.classes = w.classes := by
  cases ph with
  | clearSchedState =>
    cases work with
    | walk rest =>
      cases rest with
      | nil => rfl
      | cons t rest =>
        simp only [schedBody, clearSchedState]
        split <;> rfl
    | drainCheck =>
      simp only [schedBody, clearSchedState]
      split <;> rfl
    | drain classes =>
      cases classes with
      | nil => rfl
      | cons cls rest =>
        simp only [schedBody, clearSchedState]
        split <;> rfl
    | _ => rfl
  | rebuildSchedState =>
    cases work with
    | walk rest =>
      cases rest with
      | nil => rfl
      | cons t rest =>
        simp only [schedBody, rebuildSchedState]
        split <;> rfl
    | dying pos =>
      simp only [schedBody, rebuildSchedState]
      split <;> rfl
    | _ => rfl
  | switchSchedClass => exact absurd rfl hph
  | _ => rfl

/-- The tables after the switch. -/
def switched (op : SyncOp) (K : Kernel T σ) (w₀ : World T σ) : ClassTables T :=
  switchSchedClass K.modClass (op == .install) w₀.classes

/-- Only the first CPU switches. -/
theorem eq_firstCpu_of_inside {b : State ℕ Counter} {cpu : ℕ}
    (hcpu : cpu ∈ (stopMachine op o processId res).procs)
    (hin : Inside (stopMachine op o processId res) b cpu .switchSchedClass) :
    cpu = firstCpu o := by
  obtain ⟨i, ins, f, -, hi, hcode, hfirst⟩ := hin
  refine (isFirstProcess_iff o processId (mem_procs.mp hcpu)).mp ?_
  exact hfirst (redirect_first (by decide) hi hcode)

theorem classes_eq
    (h : Run (Working (stopMachine op o processId res) (schedBody op K))
      (workInit (stopMachine op o processId res).init w₀) tr s) :
    s.data.classes = if s.work (firstCpu o) .switchSchedClass = some .done then switched op K w₀
      else w₀.classes := by
  refine Working.invariant (J := fun work w => w.classes =
    if work (firstCpu o) .switchSchedClass = some .done then switched op K w₀
    else w₀.classes) ?_ ?_ ?_ h
  · rfl
  · intro tr s bar' c ph hrun hstart ih
    by_cases heq : (firstCpu o, Phase.switchSchedClass) = (c, ph)
    · cases heq
      -- the phase begins once
      rw [setWork_self, ih, work_eq_none_of_start onlyAt_switch hrun hstart]
      rfl
    · rw [setWork_of_ne _ _ heq]
      exact ih
  · intro tr s c ph work _ ih hc hin hwork hgo
    by_cases hph : ph = .switchSchedClass
    · subst hph
      obtain rfl := eq_firstCpu_of_inside hc hin
      have hnot : s.work (firstCpu o) .switchSchedClass ≠ some .done := by
        rw [hwork]
        rintro ⟨⟩
        cases hgo
      have hdone : ((schedBody op K).step (firstCpu o) .switchSchedClass work s.data).1 = .done :=
        rfl
      rw [if_neg hnot] at ih
      rw [setWork_self, hdone, if_pos rfl, switched, ← ih]
      rfl
    · have hne : (firstCpu o, Phase.switchSchedClass) ≠ (c, ph) := by
        rintro ⟨⟩
        exact hph rfl
      rw [setWork_of_ne _ _ hne, step_classes hph]
      exact ih

/-! ### The dying tasks -/

/-- The CPU has initialised its list of dying tasks. -/
def Work.linked : Option Work → Bool
  | some .drainCheck => true
  | some (.drain _) => true
  | some .done => true
  | _ => false

/-- A closed set of list nodes that holds everything reached from the lists of
dying tasks, and no listed task. -/
structure DyingOk (work : ℕ → Phase → Option Work) (l : Links Ptr) (G : Set Ptr) : Prop where
  closed : Closed l G
  notTask : ∀ t, Ptr.task t ∉ G
  head : ∀ cpu, Work.linked (work cpu .clearSchedState) = true → Ptr.dyingHead cpu ∈ G
  pos : ∀ cpu pos, work cpu .rebuildSchedState = some (.dying pos) → pos ∈ G

theorem DyingOk.set {work : ℕ → Phase → Option Work} {l l' : Links Ptr} {G G' : Set Ptr}
    (h : DyingOk work l G) (hclosed : Closed l' G') (hsub : G ⊆ G')
    (hnot : ∀ t, Ptr.task t ∉ G') {cpu : ℕ} {ph : Phase} {w : Work}
    (hhead : ph = .clearSchedState → Work.linked (some w) = true → Ptr.dyingHead cpu ∈ G')
    (hpos : ph = .rebuildSchedState → ∀ pos, w = .dying pos → pos ∈ G') :
    DyingOk (setWork work cpu ph w) l' G' where
  closed := hclosed
  notTask := hnot
  head c hc := by
    by_cases heq : (c, Phase.clearSchedState) = (cpu, ph)
    · cases heq
      rw [setWork_self] at hc
      exact hhead rfl hc
    · rw [setWork_of_ne _ _ heq] at hc
      exact hsub (h.head c hc)
  pos c pos hc := by
    by_cases heq : (c, Phase.rebuildSchedState) = (cpu, ph)
    · cases heq
      rw [setWork_self, Option.some_inj] at hc
      exact hpos rfl pos hc
    · rw [setWork_of_ne _ _ heq] at hc
      exact hsub (h.pos c pos hc)

/-- A step that leaves the links alone. -/
theorem DyingOk.set_same {work : ℕ → Phase → Option Work} {l : Links Ptr} {G : Set Ptr}
    (h : DyingOk work l G) {cpu : ℕ} {ph : Phase} {w : Work}
    (hhead : ph = .clearSchedState → Work.linked (some w) = true → Ptr.dyingHead cpu ∈ G)
    (hpos : ph = .rebuildSchedState → ∀ pos, w = .dying pos → pos ∈ G) :
    DyingOk (setWork work cpu ph w) l G :=
  h.set h.closed (Set.Subset.refl G) h.notTask hhead hpos

theorem exists_dyingOk
    (h : Run (Working (stopMachine op o processId res) (schedBody op K))
      (workInit (stopMachine op o processId res).init w₀) tr s) :
    ∃ G, DyingOk s.work s.data.links G := by
  refine Working.invariant (J := fun work w => ∃ G, DyingOk work w.links G) ?_ ?_ ?_ h
  · refine ⟨∅, closed_empty _, fun t ht => ht, fun cpu hc => ?_, fun cpu pos hc => ?_⟩
    · cases hc
    · cases hc
  · rintro tr s bar' c ph _ _ ⟨G, hG⟩
    exact ⟨G, hG.set_same (fun _ hlinked => by cases hlinked) fun _ pos heq => by cases heq⟩
  · rintro tr s c ph work hrun ⟨G, hG⟩ hc hin hwork hgo
    cases ph with
    | clearSchedState =>
      have hlinked : Work.linked (some work) = true → Ptr.dyingHead c ∈ G := fun hw =>
        hG.head c (by rw [hwork]; exact hw)
      cases work with
      | prologue => exact ⟨G, hG.set_same (fun _ hw => by cases hw) (by simp)⟩
      | walk rest =>
        cases rest with
        | nil =>
          refine ⟨insert (.dyingHead c) G, hG.set (hG.closed.initListHead _)
            (Set.subset_insert _ _) (fun t ht => ?_) (fun _ _ => Set.mem_insert _ _) (by simp)⟩
          rcases Set.mem_insert_iff.mp ht with heq | hmem
          · cases heq
          · exact hG.notTask t hmem
        | cons t rest =>
          refine ⟨G, ?_⟩
          simp only [schedBody, clearSchedState]
          split <;> exact hG.set_same (fun _ hw => by cases hw) (by simp)
      | drainCheck =>
        refine ⟨G, ?_⟩
        simp only [schedBody, clearSchedState]
        split <;> exact hG.set_same (fun _ _ => hlinked rfl) (by simp)
      | drain classes =>
        cases classes with
        | nil => exact ⟨G, hG.set_same (fun _ _ => hlinked rfl) (by simp)⟩
        | cons cls rest =>
          simp only [schedBody, clearSchedState]
          split
          · exact ⟨G, hG.set_same (fun _ _ => hlinked rfl) (by simp)⟩
          · -- `walkEnd` joins the list of this CPU
            refine ⟨insert .walkEnd G, hG.set (hG.closed.addTail (hlinked rfl) _)
              (Set.subset_insert _ _) (fun t ht => ?_)
              (fun _ _ => Set.mem_insert_of_mem _ (hlinked rfl)) (by simp)⟩
            rcases Set.mem_insert_iff.mp ht with heq | hmem
            · cases heq
            · exact hG.notTask t hmem
      | dying pos => exact ⟨G, hG.set_same (fun _ hw => by cases hw) (by simp)⟩
      | done => cases hgo
    | rebuildSchedState =>
      cases work with
      | prologue => exact ⟨G, hG.set_same (by simp) fun _ pos heq => by cases heq⟩
      | walk rest =>
        cases rest with
        | nil =>
          have hpc := hin.pc_eq onlyAt_rebuild
          have hclear := (rebuild_facts hrun hc (by rw [hpc]; exact (pos_order op).2.2.2.2)
            ⟨_, _, hpc⟩).1
          have hhead : Ptr.dyingHead c ∈ G := hG.head c (by rw [hclear]; rfl)
          refine ⟨G, hG.set_same (by simp) fun _ pos heq => ?_⟩
          cases heq
          exact (hG.closed _ hhead).1
        | cons t rest =>
          refine ⟨G, ?_⟩
          simp only [schedBody, rebuildSchedState]
          split <;> exact hG.set_same (by simp) fun _ pos heq => by cases heq
      | dying pos =>
        have hpos : pos ∈ G := hG.pos c pos hwork
        refine ⟨G, ?_⟩
        simp only [schedBody, rebuildSchedState]
        split
        · exact hG.set_same (by simp) fun _ pos heq => by cases heq
        · refine hG.set (hG.closed.delInit hpos) (Set.Subset.refl G) hG.notTask (by simp)
            fun _ pos' heq => ?_
          cases heq
          exact (hG.closed.delInit hpos pos hpos).1
      | drainCheck => exact ⟨G, hG.set_same (by simp) fun _ pos heq => by cases heq⟩
      | drain classes => exact ⟨G, hG.set_same (by simp) fun _ pos heq => by cases heq⟩
      | done => cases hgo
    | _ => exact ⟨G, hG.set_same (by simp) (by simp)⟩

/-- The loop over the dying tasks never meets a listed task. -/
theorem dying_ne_task
    (h : Run (Working (stopMachine op o processId res) (schedBody op K))
      (workInit (stopMachine op o processId res).init w₀) tr s) {cpu : ℕ} {pos : Ptr}
    (hw : s.work cpu .rebuildSchedState = some (.dying pos)) (t : ℕ) : pos ≠ .task t := by
  obtain ⟨G, hG⟩ := exists_dyingOk h
  rintro rfl
  exact hG.notTask t (hG.pos cpu _ hw)

/-! ### The calls -/

/-- The calls about a task, in order. -/
def callsOf (t : ℕ) (log : List (Call T σ)) : List (Call T σ) :=
  log.filter fun c => c.task == .task t

/-- The task is queued on the run queue of an online CPU and is not its stopper. -/
def Kernel.Requeued (K : Kernel T σ) (mask : CpuMask) (t : ℕ) : Prop :=
  K.taskRq t ∈ mask.cpus ∧ K.Picks (K.taskRq t) t

instance (K : Kernel T σ) (mask : CpuMask) (t : ℕ) : Decidable (K.Requeued mask t) :=
  inferInstanceAs (Decidable (_ ∧ _))

/-- The walk of a phase has passed task `t`. -/
def Work.passed (t : ℕ) : Option Work → Bool
  | none => false
  | some .prologue => false
  | some (.walk rest) => t ∉ rest
  | some _ => true

/-- The class of the task, looked up by the kernel that makes the call. -/
def Kernel.classOf (K : Kernel T σ) (kernel : σ) (t : ℕ) : Fin NR_SCHED_CLASS :=
  K.schedClass kernel (.task t)

/-- `p->sched_class->dequeue_task` through the tables from before the switch. -/
def dequeueCall (K : Kernel T σ) (w₀ : World T σ) (t : ℕ) (kernel : σ) : Call T σ :=
  ⟨.dequeueTask, K.taskRq t, .task t, K.classOf kernel t,
    w₀.classes.orig (K.classOf kernel t), kernel⟩

/-- `p->sched_class->enqueue_task` through the tables from after the switch. -/
def enqueueCall (op : SyncOp) (K : Kernel T σ) (w₀ : World T σ) (t : ℕ) (kernel : σ) :
    Call T σ :=
  ⟨.enqueueTask, K.taskRq t, .task t, K.classOf kernel t,
    (switched op K w₀).orig (K.classOf kernel t), kernel⟩

/-- The calls about `t` when the clearing and the rebuilding walk have passed
it or not. -/
def expectedCalls (op : SyncOp) (o : OnlineCpus) (K : Kernel T σ) (w₀ : World T σ) (t : ℕ)
    (k k' : σ) (cleared rebuilt : Bool) : List (Call T σ) :=
  (if K.Requeued o.toCpuMask t ∧ cleared = true then [dequeueCall K w₀ t k] else []) ++
    if K.Requeued o.toCpuMask t ∧ rebuilt = true then [enqueueCall op K w₀ t k'] else []

/-- What the log says about `t`, given the progress of the walks. -/
def CallsOk (op : SyncOp) (o : OnlineCpus) (K : Kernel T σ) (w₀ : World T σ)
    (work : ℕ → Phase → Option Work) (log : List (Call T σ)) (t : ℕ) : Prop :=
  ∃ k k', callsOf t log = expectedCalls op o K w₀ t k k'
    (Work.passed t (work (K.taskRq t) .clearSchedState))
    (Work.passed t (work (K.taskRq t) .rebuildSchedState))

theorem callsOf_append_of_ne {t : ℕ} {log : List (Call T σ)} {c : Call T σ}
    (h : c.task ≠ .task t) : callsOf t (log ++ [c]) = callsOf t log := by
  simp [callsOf, h]

theorem callsOf_append_self {t : ℕ} {log : List (Call T σ)} {c : Call T σ}
    (h : c.task = .task t) : callsOf t (log ++ [c]) = callsOf t log ++ [c] := by
  simp [callsOf, h]

/-- The progress of `cpu` in a phase matters only to its own tasks. -/
theorem passed_setWork {work : ℕ → Phase → Option Work} {cpu t : ℕ} {ph ph' : Phase} {w : Work}
    (h : ph = ph' → K.taskRq t = cpu → Work.passed t (some w) = Work.passed t (work cpu ph)) :
    Work.passed t (setWork work cpu ph w (K.taskRq t) ph') =
      Work.passed t (work (K.taskRq t) ph') := by
  by_cases heq : (K.taskRq t, ph') = (cpu, ph)
  · obtain ⟨hcpu, rfl⟩ := Prod.mk.inj heq
    rw [hcpu, setWork_self]
    exact h rfl hcpu
  · rw [setWork_of_ne _ _ heq]

/-- A step that neither calls a class function on `t` nor passes it. -/
theorem CallsOk.set {work : ℕ → Phase → Option Work} {log log' : List (Call T σ)} {t cpu : ℕ}
    {ph : Phase} {w : Work} (h : CallsOk op o K w₀ work log t)
    (hlog : callsOf t log' = callsOf t log)
    (hpass : ph ∈ [Phase.clearSchedState, .rebuildSchedState] → K.Requeued o.toCpuMask t →
      K.taskRq t = cpu → Work.passed t (some w) = Work.passed t (work cpu ph)) :
    CallsOk op o K w₀ (setWork work cpu ph w) log' t := by
  obtain ⟨k, k', heq⟩ := h
  refine ⟨k, k', ?_⟩
  rw [hlog, heq]
  by_cases hreq : K.Requeued o.toCpuMask t
  · rw [passed_setWork fun hph => hpass (by simp [hph]) hreq,
      passed_setWork fun hph => hpass (by simp [hph]) hreq]
  · simp [expectedCalls, hreq]

/-- Before the walk of `cpu` passes one of its tasks in the clearing phase. -/
theorem CallsOk.visit_clear {work : ℕ → Phase → Option Work} {log : List (Call T σ)} {t cpu : ℕ}
    {rest : List ℕ} {k : σ} (h : CallsOk op o K w₀ work log t)
    (hcpu : cpu ∈ o.cpus) (hpick : K.Picks cpu t)
    (hwork : work cpu .clearSchedState = some (.walk (t :: rest)))
    (hnone : work cpu .rebuildSchedState = none) (hrest : t ∉ rest) :
    CallsOk op o K w₀ (setWork work cpu .clearSchedState (.walk rest))
      (log ++ [⟨.dequeueTask, cpu, .task t, K.classOf k t,
        w₀.classes.orig (K.classOf k t), k⟩]) t := by
  obtain ⟨k₀, k', heq⟩ := h
  obtain rfl := hpick.1
  refine ⟨k, k', ?_⟩
  rw [hwork, hnone] at heq
  rw [callsOf_append_self rfl, heq, setWork_self, setWork_of_ne _ _ (by simp), hnone]
  simp [expectedCalls, Work.passed, Kernel.Requeued, hcpu, hpick, hrest, dequeueCall]

/-- The same in the rebuilding phase. -/
theorem CallsOk.visit_rebuild {work : ℕ → Phase → Option Work} {log : List (Call T σ)} {t cpu : ℕ}
    {rest : List ℕ} {k' : σ} (h : CallsOk op o K w₀ work log t)
    (hcpu : cpu ∈ o.cpus) (hpick : K.Picks cpu t)
    (hwork : work cpu .rebuildSchedState = some (.walk (t :: rest)))
    (hdone : work cpu .clearSchedState = some .done) (hrest : t ∉ rest) :
    CallsOk op o K w₀ (setWork work cpu .rebuildSchedState (.walk rest))
      (log ++ [⟨.enqueueTask, cpu, .task t, K.classOf k' t,
        (switched op K w₀).orig (K.classOf k' t), k'⟩]) t := by
  obtain ⟨k, k₀, heq⟩ := h
  obtain rfl := hpick.1
  refine ⟨k, k', ?_⟩
  rw [hwork, hdone] at heq
  rw [callsOf_append_self rfl, heq, setWork_self, setWork_of_ne _ _ (by simp), hdone]
  simp [expectedCalls, Work.passed, Kernel.Requeued, hcpu, hpick, hrest, enqueueCall]

theorem notMem_of_suffix {t : ℕ} {rest : List ℕ} (h : t :: rest <:+ K.tasks) : t ∉ rest :=
  (List.nodup_cons.mp (K.nodup.sublist h.sublist)).1

theorem passed_start {t : ℕ} (ht : t ∈ K.tasks) :
    Work.passed t (some (.walk K.tasks)) = Work.passed t (some .prologue) := by
  simp [Work.passed, ht]

/-- A walk passes only the task at its front. -/
theorem passed_walk {t t' : ℕ} (rest : List ℕ) (h : t ≠ t') :
    Work.passed t (some (.walk rest)) = Work.passed t (some (.walk (t' :: rest))) := by
  simp [Work.passed, h]

/-- A step that makes no call on `t` and leaves it on the same side of the walk. -/
theorem CallsOk.stay {work : ℕ → Phase → Option Work} {log log' : List (Call T σ)} {t cpu : ℕ}
    {ph : Phase} {w w' : Work} (h : CallsOk op o K w₀ work log t)
    (hwork : work cpu ph = some w) (hlog : callsOf t log' = callsOf t log)
    (hpass : Work.passed t (some w') = Work.passed t (some w)) :
    CallsOk op o K w₀ (setWork work cpu ph w') log' t := by
  refine h.set hlog ?_
  intro _ _ _
  rw [hwork]
  exact hpass

/-- A walk comes past `t'`, and makes a call on it if it picks it. -/
theorem CallsOk.walk {work : ℕ → Phase → Option Work} {log log' : List (Call T σ)}
    {t t' cpu : ℕ} {ph : Phase} {rest : List ℕ} (h : CallsOk op o K w₀ work log t)
    (hwork : work cpu ph = some (.walk (t' :: rest)))
    (hother : t ≠ t' → callsOf t log' = callsOf t log) (hskip : ¬ K.Picks cpu t' → log' = log)
    (hvisit : t = t' → K.Picks cpu t' →
      CallsOk op o K w₀ (setWork work cpu ph (.walk rest)) log' t) :
    CallsOk op o K w₀ (setWork work cpu ph (.walk rest)) log' t := by
  by_cases htt : t = t'
  · by_cases hpick : K.Picks cpu t'
    · exact hvisit htt hpick
    · -- then `t` is not to be requeued by this CPU
      refine h.set (by rw [hskip hpick]) ?_
      intro _ hreq hrq
      subst htt
      exact absurd (hrq ▸ hreq.2) hpick
  · exact h.stay hwork (hother htt) (passed_walk rest htt)

/-- A step of the clearing phase. -/
theorem CallsOk.clear {t cpu : ℕ} {work : Work} (ht : t ∈ K.tasks)
    (h : CallsOk op o K w₀ s.work s.data.log t)
    (hrun : Run (Working (stopMachine op o processId res) (schedBody op K))
      (workInit (stopMachine op o processId res).init w₀) tr s)
    (hcpu : cpu ∈ (stopMachine op o processId res).procs)
    (hin : Inside (stopMachine op o processId res) s.bar cpu .clearSchedState)
    (hwork : s.work cpu .clearSchedState = some work)
    (hgo : (schedBody op K).done work = false) :
    CallsOk op o K w₀
      (setWork s.work cpu .clearSchedState
        ((schedBody op K).step cpu .clearSchedState work s.data).1)
      ((schedBody op K).step cpu .clearSchedState work s.data).2.log t := by
  obtain ⟨hnone, hnotyet⟩ := clear_facts hrun hcpu hin
  have hclasses : s.data.classes = w₀.classes := by
    rw [classes_eq hrun, hnotyet]
    rfl
  cases work with
  | prologue => exact h.stay hwork rfl (passed_start ht)
  | walk rest =>
    cases rest with
    | nil => exact h.stay hwork rfl rfl
    | cons t' rest =>
      have hrest : t' ∉ rest := notMem_of_suffix (suffix_of_walk hrun hwork)
      simp only [schedBody, clearSchedState]
      refine h.walk hwork (fun htt => ?_) (fun hpick => by rw [if_neg hpick]) ?_
      · split
        · exact callsOf_append_of_ne fun heq => htt (Ptr.task.inj heq).symm
        · rfl
      · rintro rfl hpick
        rw [if_pos hpick, World.dequeue, hclasses]
        exact h.visit_clear (mem_procs.mp hcpu) hpick hwork hnone hrest
  | drainCheck =>
    simp only [schedBody, clearSchedState]
    split
    · exact h.stay hwork rfl rfl
    · exact h.stay hwork rfl rfl
  | drain classes =>
    cases classes with
    | nil => exact h.stay hwork rfl rfl
    | cons cls rest =>
      simp only [schedBody, clearSchedState]
      split
      · exact h.stay hwork rfl rfl
      · exact h.stay hwork (callsOf_append_of_ne (by simp)) rfl
  | dying pos => exact h.stay hwork rfl rfl
  | done => cases hgo

/-- A step of the rebuilding phase. -/
theorem CallsOk.rebuild {t cpu : ℕ} {work : Work} (ht : t ∈ K.tasks)
    (h : CallsOk op o K w₀ s.work s.data.log t)
    (hrun : Run (Working (stopMachine op o processId res) (schedBody op K))
      (workInit (stopMachine op o processId res).init w₀) tr s)
    (hcpu : cpu ∈ (stopMachine op o processId res).procs)
    (hin : Inside (stopMachine op o processId res) s.bar cpu .rebuildSchedState)
    (hwork : s.work cpu .rebuildSchedState = some work)
    (hgo : (schedBody op K).done work = false) :
    CallsOk op o K w₀
      (setWork s.work cpu .rebuildSchedState
        ((schedBody op K).step cpu .rebuildSchedState work s.data).1)
      ((schedBody op K).step cpu .rebuildSchedState work s.data).2.log t := by
  have hpc := hin.pc_eq onlyAt_rebuild
  obtain ⟨hdone, hswitch⟩ := rebuild_facts hrun hcpu
    (by rw [hpc]; exact (pos_order op).2.2.2.2) ⟨_, _, hpc⟩
  have hclasses : s.data.classes = switched op K w₀ := by
    rw [classes_eq hrun, hswitch]
    rfl
  cases work with
  | prologue => exact h.stay hwork rfl (passed_start ht)
  | walk rest =>
    cases rest with
    | nil => exact h.stay hwork rfl rfl
    | cons t' rest =>
      have hrest : t' ∉ rest := notMem_of_suffix (suffix_of_walk hrun hwork)
      simp only [schedBody, rebuildSchedState]
      refine h.walk hwork (fun htt => ?_) (fun hpick => by rw [if_neg hpick]) ?_
      · split
        · exact callsOf_append_of_ne fun heq => htt (Ptr.task.inj heq).symm
        · rfl
      · rintro rfl hpick
        rw [if_pos hpick, World.enqueue, hclasses]
        exact h.visit_rebuild (mem_procs.mp hcpu) hpick hwork hdone hrest
  | dying pos =>
    simp only [schedBody, rebuildSchedState]
    split
    · exact h.stay hwork rfl rfl
    · exact h.stay hwork (callsOf_append_of_ne (dying_ne_task hrun hwork t)) rfl
  | drainCheck | drain classes => exact h.stay hwork rfl rfl
  | done => cases hgo

/-- The calls about a listed task, at any point of a run. -/
theorem calls_eq (hlog : w₀.log = [])
    (h : Run (Working (stopMachine op o processId res) (schedBody op K))
      (workInit (stopMachine op o processId res).init w₀) tr s) :
    ∀ t ∈ K.tasks, CallsOk op o K w₀ s.work s.data.log t := by
  refine Working.invariant (J := fun work w => ∀ t ∈ K.tasks, CallsOk op o K w₀ work w.log t)
    ?_ ?_ ?_ h
  · intro t _
    refine ⟨w₀.kernel, w₀.kernel, ?_⟩
    simp [hlog, callsOf, expectedCalls, Work.passed]
  · intro tr s bar' c ph hrun hstart ih t ht
    refine (ih t ht).set rfl ?_
    intro hph _ _
    have hnone : s.work c ph = none := by
      rcases List.mem_cons.mp hph with rfl | hph
      · exact work_eq_none_of_start onlyAt_clear hrun hstart
      · obtain rfl := List.mem_singleton.mp hph
        exact work_eq_none_of_start onlyAt_rebuild hrun hstart
    rw [hnone]
    rfl
  · intro tr s c ph work hrun ih hc hin hwork hgo t ht
    cases ph with
    | clearSchedState => exact (ih t ht).clear ht hrun hc hin hwork hgo
    | rebuildSchedState => exact (ih t ht).rebuild ht hrun hc hin hwork hgo
    | _ => exact (ih t ht).set rfl (by simp)

/-- The calls about a listed task in a complete run. -/
theorem calls_conserved (hlog : w₀.log = [])
    (h : Run (Working (stopMachine op o processId res) (schedBody op K))
      (workInit (parallelStateCheckInit o.cpus.length) w₀) tr s)
    (hdone : ∀ cpu ∈ o.cpus, Event.finish cpu .rebuildSchedState ∈ tr) {t : ℕ}
    (ht : t ∈ K.tasks) :
    (K.Requeued o.toCpuMask t → ∃ k k',
      callsOf t s.data.log = [dequeueCall K w₀ t k, enqueueCall op K w₀ t k']) ∧
    (¬ K.Requeued o.toCpuMask t → callsOf t s.data.log = []) := by
  have hinit : parallelStateCheckInit o.cpus.length = (stopMachine op o processId res).init :=
    parallelStateCheckInit_eq
  rw [hinit] at h
  obtain ⟨k, k', heq⟩ := calls_eq hlog h t ht
  constructor
  · intro hreq
    have hcpu : K.taskRq t ∈ (stopMachine op o processId res).procs := mem_procs.mpr hreq.1
    have hpast := lt_idx_of_finish onlyAt_rebuild (working_bar h) (hdone _ hreq.1)
    obtain ⟨work, hrebuilt, hthrough⟩ := work_done onlyAt_rebuild (by simp) h hpast
    obtain rfl : work = .done := beq_iff_eq.mp hthrough
    obtain ⟨habort, hclear, hwait, hswitch, hrebuild⟩ := pos_order op
    obtain ⟨work, hcleared, hthrough⟩ := work_done onlyAt_clear (by simp) h
      (show op.pos .clearSchedState < (s.bar.pc (K.taskRq t)).idx by omega)
    obtain rfl : work = .done := beq_iff_eq.mp hthrough
    refine ⟨k, k', ?_⟩
    rw [heq, hcleared, hrebuilt]
    simp [expectedCalls, hreq, Work.passed]
  · intro hreq
    rw [heq]
    simp [expectedCalls, hreq]

end RunQueues

/-- Run queues are conserved: the CPUs are numbered, and once every online CPU has ended
`rebuild_sched_state`, each listed task that was queued on the run queue of an
online CPU, stoppers apart, was dequeued once through the old contents of the table of
its class and then enqueued once, on the same run queue, through the new contents;
no other listed task was dequeued or enqueued. -/
def RunQueuesConserved (op : SyncOp) (mask : CpuMask) (processId : ℕ → ℕ) (K : Kernel T σ)
    (w₀ : World T σ) : Prop :=
  ∃ ids, processIdInit mask.cpus 0 processId = .ok ids ∧
    ∀ (res : Phase → ℕ → ℤ) (tr : List (Event ℕ Phase))
      (s : WorkState ℕ Counter Phase Work (World T σ)),
      Run (Working (stopMachineOn op mask ids res) (schedBody op K))
        (workInit (parallelStateCheckInit mask.cpus.length) { w₀ with log := [] }) tr s →
      (∀ cpu ∈ mask.cpus, Event.finish cpu .rebuildSchedState ∈ tr) →
      ∀ t ∈ K.tasks,
        (K.Requeued mask t → ∃ k k',
          callsOf t s.data.log = [dequeueCall K w₀ t k, enqueueCall op K w₀ t k']) ∧
        (¬ K.Requeued mask t → callsOf t s.data.log = [])

/-- **Run queues are conserved**, exactly if every online CPU has a word in
`process_id`. -/
theorem run_queues_conserved (op : SyncOp) (mask : CpuMask) (processId : ℕ → ℕ)
    (K : Kernel T σ) (w₀ : World T σ) :
    RunQueuesConserved op mask processId K w₀ ↔ ∀ cpu ∈ mask.cpus, cpu < MAX_CPU_NR := by
  refine exists_numbered_iff ?_
  rintro o rfl res tr s h hdone t ht
  exact calls_conserved rfl h hdone ht

/-- Four threads on CPUs 0 and 3, of which 13 is the stopper of CPU 3 and 12 is
asleep.  A class table is its version number. -/
def fourTasks : Kernel ℕ Unit where
  tasks := [10, 11, 12, 13]
  nodup := by decide
  taskRq t := if t = 10 then 0 else 3
  taskOnRqQueued t := t ≠ 12
  stop cpu := if cpu = 3 then some 13 else none
  modClass i := 100 + i
  schedClass _ _ := 3
  dequeueTask _ _ _ := id
  enqueueTask _ _ _ := id
  putPrevTask _ _ _ := id
  pickNextTask _ _ kernel := (none, kernel)
  nrRunning _ _ := 1
  updateRqClock _ _ := id
  setRqOffline _ _ := id
  setRqOnline _ _ := id

def fourTasksWorld : World ℕ Unit where
  classes := { orig := fun i => i, bak := fun _ => 7 }
  kernel := ()
  links := { next := id, prev := id }
  log := []

/-- A complete installation on both CPUs. -/
def fourTasksRun : List (Event ℕ Phase) × WorkState ℕ Counter Phase Work (World ℕ Unit) :=
  execWork (stopMachine .install twoCpus (fun _ => 7) fun _ _ => 0) (schedBody .install fourTasks)
    (List.replicate 70 [0, 3]).flatten ([], workInit (parallelStateCheckInit 2) fourTasksWorld)

theorem run_queues_conserved_fourTasks :
    (∃ k k', callsOf 11 fourTasksRun.2.data.log =
      [⟨.dequeueTask, 3, .task 11, 3, 3, k⟩, ⟨.enqueueTask, 3, .task 11, 3, 103, k'⟩]) ∧
      callsOf 12 fourTasksRun.2.data.log = [] ∧ callsOf 13 fourTasksRun.2.data.log = [] := by
  obtain ⟨ids, hids, hall⟩ := (run_queues_conserved .install twoCpus.toCpuMask (fun _ => 7)
    fourTasks fourTasksWorld).mpr (by decide)
  obtain rfl : twoCpus.processId (fun _ => 7) = ids := twoCpus.processId_eq hids
  have hrun : Run (Working (stopMachine .install twoCpus (fun _ => 7) fun _ _ => 0)
      (schedBody .install fourTasks)) (workInit (parallelStateCheckInit 2) fourTasksWorld)
      fourTasksRun.1 fourTasksRun.2 := execWork_run (by decide +kernel) .nil
  have h := hall (fun _ _ => 0) fourTasksRun.1 fourTasksRun.2 hrun (by decide +kernel)
  exact ⟨(h 11 (by decide)).1 (by decide), (h 12 (by decide)).2 (by decide),
    (h 13 (by decide)).2 (by decide)⟩

/-- The online CPUs 0 and 1026.  In the order of the declarations the word that
`process_id_init` writes for CPU 1026 is `redirect_finished`. -/
def outerCpus : CpuMask where
  cpus := [0, 1026]
  sorted := by decide
  ne_nil := by decide

def outerIds (cpu : ℕ) : ℕ := if cpu = 0 then 0 else 1

/-- The shared words of the two CPUs with the number 1 in `redirect_finished`. -/
def outerWords : State ℕ Counter :=
  { parallelStateCheckInit 2 with counter := Function.update (fun _ => 2) .redirectFinished 1 }

/-- One thread, queued on CPU 1026. -/
def outerTask : Kernel ℕ Unit :=
  { fourTasks with tasks := [20], nodup := by decide, taskRq := fun _ => 1026 }

/-- CPU 0 has cleared its run queue; CPU 1026 goes on to the end. -/
def outerRun : List (Event ℕ Phase) × WorkState ℕ Counter Phase Work (World ℕ Unit) :=
  execWork (stopMachineOn .install outerCpus outerIds fun _ _ => 0) (schedBody .install outerTask)
    (List.replicate 8 0 ++ List.replicate 20 1026 ++ List.replicate 14 0 ++
      List.replicate 20 1026) ([], workInit outerWords fourTasksWorld)

/-- The store for CPU 1026 is out of bounds; if it hits `redirect_finished`, this CPU
puts its thread back through the table from before the switch. -/
theorem farCpu_enqueues_through_old_table :
    ¬ RunQueuesConserved .install outerCpus (fun _ => 0) outerTask fourTasksWorld ∧
      processIdInit outerCpus.cpus 0 (fun _ => 0) = .error (.outOfBounds 1026) ∧
      Run (Working (stopMachineOn .install outerCpus outerIds fun _ _ => 0)
        (schedBody .install outerTask)) (workInit outerWords fourTasksWorld) outerRun.1
        outerRun.2 ∧
      Event.finish 1026 .rebuildSchedState ∈ outerRun.1 ∧
      callsOf 20 outerRun.2.data.log =
        [⟨.dequeueTask, 1026, .task 20, 3, 3, ()⟩, ⟨.enqueueTask, 1026, .task 20, 3, 3, ()⟩] ∧
      (switched .install outerTask fourTasksWorld).orig 3 = 103 := by
  have hinit : processIdInit outerCpus.cpus 0 (fun _ => 0) = .error (.outOfBounds 1026) := rfl
  exact ⟨not_exists_numbered hinit, hinit, execWork_run (by decide +kernel) .nil,
    by decide +kernel, by decide +kernel, rfl⟩

end Plugsched
