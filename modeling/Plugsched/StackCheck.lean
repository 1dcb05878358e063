/-
The check of all tasks, shared between the CPUs: `stack_check`.

Every CPU walks the whole list of threads and checks those whose number,
modulo the number of online CPUs, is its `process_id`, and its own idle task.

* `exists_stackCheck_iff` — the CPUs together find what one CPU would;
* `checksFail_iff` — what makes a stop-machine handler give up;
* `stackCheck_parallel` — the shares are disjoint, and nothing is left out.
-/
import Plugsched.StackTrace
import Plugsched.SyncSched

namespace Plugsched

variable {Task : Type*} {n : ℕ}

/-- The test of `stack_check` that gives thread number `taskCount` to the CPU with
this `process_id`.  There are far fewer threads than an `int` can count. -/
def isAssigned (nrCpus processId taskCount : ℕ) : Bool := taskCount % nrCpus == processId

/-- The loop of `stack_check` from thread number `taskCount` on; `check` is
`stack_check_task`. -/
def stackCheckThreads (nrCpus processId : ℕ) (check : Task → ℤ) : ℕ → List Task → ℤ
  | _, [] => 0
  | taskCount, t :: rest =>
    if isAssigned nrCpus processId taskCount ∧ check t ≠ 0 then -EBUSY
    else stackCheckThreads nrCpus processId check (taskCount + 1) rest

/-- `stack_check`, on CPU `cpu` after `process_id_init`; `threads` lists the threads in
the order of `for_each_process_thread`. -/
def stackCheck (o : OnlineCpus) (processId : ℕ → ℕ) (check : Task → ℤ) (threads : List Task)
    (idleTask : ℕ → Task) (cpu : ℕ) : ℤ :=
  if stackCheckThreads o.cpus.length (o.processId processId cpu) check 0 threads ≠ 0
  then -EBUSY
  else if check (idleTask cpu) ≠ 0 then -EBUSY
  else 0

/-- The threads that `stack_check` assigns to a CPU. -/
def assignedThreads (o : OnlineCpus) (processId : ℕ → ℕ) (threads : List Task) (cpu : ℕ) :
    List Task :=
  (threads.zipIdx.filter fun p =>
    isAssigned o.cpus.length (o.processId processId cpu) p.2).map Prod.fst

section Threads

variable {o : OnlineCpus} {processId : ℕ → ℕ} {threads : List Task}

theorem mem_assignedThreads {t : Task} {cpu : ℕ} :
    t ∈ assignedThreads o processId threads cpu ↔ ∃ i, threads[i]? = some t ∧
      isAssigned o.cpus.length (o.processId processId cpu) i := by
  simp only [assignedThreads, List.mem_map, List.mem_filter, Prod.exists, exists_and_right,
    exists_eq_right, List.mk_mem_zipIdx_iff_getElem?]

/-- Every number falls to exactly one online CPU. -/
theorem existsUnique_isAssigned (o : OnlineCpus) (processId : ℕ → ℕ) (i : ℕ) :
    ∃! cpu, cpu ∈ o.cpus ∧
      isAssigned o.cpus.length (o.processId processId cpu) i := by
  have hlt : i % o.cpus.length < o.cpus.length :=
    Nat.mod_lt i (List.length_pos_iff.mpr o.ne_nil)
  refine ⟨o.cpus[i % o.cpus.length], ⟨List.getElem_mem hlt, ?_⟩, ?_⟩
  · rw [isAssigned, o.processId_getElem processId hlt, beq_iff_eq]
  · rintro cpu ⟨hcpu, hass⟩
    obtain ⟨k, hk, rfl⟩ := List.getElem_of_mem hcpu
    rw [isAssigned, o.processId_getElem processId hk, beq_iff_eq] at hass
    simp only [hass]

theorem stackCheckThreads_ne_zero_iff (nrCpus id : ℕ) (check : Task → ℤ) (taskCount : ℕ)
    (threads : List Task) :
    stackCheckThreads nrCpus id check taskCount threads ≠ 0 ↔
      ∃ i t, threads[i]? = some t ∧ isAssigned nrCpus id (taskCount + i) ∧ check t ≠ 0 := by
  induction threads generalizing taskCount with
  | nil => simp [stackCheckThreads]
  | cons t threads ih =>
    rw [stackCheckThreads]
    split
    · next hfail =>
      exact iff_of_true (by simp [EBUSY]) ⟨0, t, rfl, hfail.1, hfail.2⟩
    · next hpass =>
      rw [ih (taskCount + 1)]
      constructor
      · rintro ⟨i, t', hget, hass, hfail⟩
        exact ⟨i + 1, t', hget, by rwa [← Nat.succ_add_eq_add_succ], hfail⟩
      · rintro ⟨i, t', hget, hass, hfail⟩
        cases i with
        | zero =>
          -- the first thread has passed
          cases hget
          exact absurd ⟨hass, hfail⟩ hpass
        | succ i => exact ⟨i, t', hget, by rwa [Nat.succ_add_eq_add_succ], hfail⟩

theorem stackCheck_ne_zero_iff (check : Task → ℤ) (idleTask : ℕ → Task) (cpu : ℕ) :
    stackCheck o processId check threads idleTask cpu ≠ 0 ↔
      (∃ t ∈ assignedThreads o processId threads cpu, check t ≠ 0) ∨ check (idleTask cpu) ≠ 0 := by
  have hthreads := stackCheckThreads_ne_zero_iff o.cpus.length
    (o.processId processId cpu) check 0 threads
  have hex : (∃ t ∈ assignedThreads o processId threads cpu, check t ≠ 0) ↔
      stackCheckThreads o.cpus.length (o.processId processId cpu) check 0 threads ≠ 0 := by
    rw [hthreads]
    simp only [Nat.zero_add, mem_assignedThreads]
    constructor
    · rintro ⟨t, ⟨i, hget, hass⟩, hfail⟩
      exact ⟨i, t, hget, hass, hfail⟩
    · rintro ⟨i, t, hget, hass, hfail⟩
      exact ⟨t, ⟨i, hget, hass⟩, hfail⟩
  rw [hex, stackCheck]
  split
  · next hfail => exact iff_of_true (by simp [EBUSY]) (.inl hfail)
  · next hpass =>
    split
    · next hfail => exact iff_of_true (by simp [EBUSY]) (.inr hfail)
    · next hok => exact iff_of_false (not_not.mpr rfl) (not_or.mpr ⟨hpass, hok⟩)

/-- Together the CPUs fail where one CPU that looks at every task would. -/
theorem exists_stackCheck_iff (processId : ℕ → ℕ) (check : Task → ℤ) (idleTask : ℕ → Task) :
    (∃ cpu ∈ o.cpus, stackCheck o processId check threads idleTask cpu ≠ 0) ↔
      (∃ t ∈ threads, check t ≠ 0) ∨ ∃ cpu ∈ o.cpus, check (idleTask cpu) ≠ 0 := by
  simp only [stackCheck_ne_zero_iff]
  constructor
  · rintro ⟨cpu, hcpu, ⟨t, ht, hfail⟩ | hfail⟩
    · obtain ⟨i, hget, -⟩ := mem_assignedThreads.mp ht
      exact .inl ⟨t, List.mem_of_getElem? hget, hfail⟩
    · exact .inr ⟨cpu, hcpu, hfail⟩
  · rintro (⟨t, ht, hfail⟩ | ⟨cpu, hcpu, hfail⟩)
    · obtain ⟨i, hget⟩ := List.getElem?_of_mem ht
      obtain ⟨cpu, ⟨hcpu, hass⟩, -⟩ := existsUnique_isAssigned o processId i
      exact ⟨cpu, hcpu, .inl ⟨t, mem_assignedThreads.mpr ⟨i, hget, hass⟩, hfail⟩⟩
    · exact ⟨cpu, hcpu, .inr hfail⟩

/-- What makes a stop-machine handler give up, task by task. -/
theorem checksFail_iff {op : SyncOp} {res : Phase → ℕ → ℤ} {check : Task → ℤ}
    {idleTask : ℕ → Task}
    (hres : ∀ cpu, res .stackCheck cpu = stackCheck o processId check threads idleTask cpu) :
    ChecksFail op o.toCpuMask res ↔ (op = .install ∧ res .recheckSmps (o.cpus.head o.ne_nil) ≠ 0) ∨
      (∃ t ∈ threads, check t ≠ 0) ∨ ∃ cpu ∈ o.cpus, check (idleTask cpu) ≠ 0 := by
  rw [ChecksFail, ← exists_stackCheck_iff processId]
  simp only [hres]

end Threads

/-- **The parallel stack check.**  Every thread falls to exactly one online CPU, and
some CPU finds an error exactly if `stack_check_task` fails for some thread or for
the idle task of some online CPU. -/
theorem stackCheck_parallel (o : OnlineCpus) (processId : ℕ → ℕ) (archStackwalk : Bool)
    (U : Unwinder Task) (T : StackTables n) (install : Bool) (threads : List Task)
    (idleTask : ℕ → Task) :
    (∀ i < threads.length, ∃! cpu, cpu ∈ o.cpus ∧
      isAssigned o.cpus.length (o.processId processId cpu) i) ∧
    (threads.Nodup → ∀ cpu ∈ o.cpus, ∀ cpu' ∈ o.cpus, cpu ≠ cpu' →
      List.Disjoint (assignedThreads o processId threads cpu)
        (assignedThreads o processId threads cpu')) ∧
    (∀ t, t ∈ threads ↔ ∃ cpu ∈ o.cpus, t ∈ assignedThreads o processId threads cpu) ∧
    ((∃ cpu ∈ o.cpus, stackCheck o processId
        (fun t => stackCheckTask archStackwalk U T t install) threads idleTask cpu ≠ 0) ↔
      (∃ t ∈ threads, stackCheckTask archStackwalk U T t install ≠ 0) ∨
        ∃ cpu ∈ o.cpus, stackCheckTask archStackwalk U T (idleTask cpu) install ≠ 0) := by
  refine ⟨fun i _ => existsUnique_isAssigned o processId i, ?_, fun t => ⟨fun ht => ?_, ?_⟩,
    exists_stackCheck_iff _ _ idleTask⟩
  · intro hnd cpu hcpu cpu' hcpu' hne t ht ht'
    obtain ⟨i, hget, hass⟩ := mem_assignedThreads.mp ht
    obtain ⟨i', hget', hass'⟩ := mem_assignedThreads.mp ht'
    -- a thread has one number only
    have hi : i = i' := by
      have hlt := (List.getElem?_eq_some_iff.mp hget).1
      exact (List.getElem?_inj hlt hnd).mp (hget.trans hget'.symm)
    subst hi
    exact hne ((existsUnique_isAssigned o processId i).unique ⟨hcpu, hass⟩ ⟨hcpu', hass'⟩)
  · obtain ⟨i, hget⟩ := List.getElem?_of_mem ht
    obtain ⟨cpu, ⟨hcpu, hass⟩, -⟩ := existsUnique_isAssigned o processId i
    exact ⟨cpu, hcpu, mem_assignedThreads.mpr ⟨i, hget, hass⟩⟩
  · rintro ⟨cpu, -, ht⟩
    obtain ⟨i, hget, -⟩ := mem_assignedThreads.mp ht
    exact List.mem_of_getElem? hget

/-- Three threads on the CPUs 0 and 3; the last one is inside a redirected function. -/
theorem stackCheck_parallel_twoCpus :
    List.Disjoint (assignedThreads twoCpus (fun _ => 7) [[0x500], [0x501], [0x2010]] 0)
        (assignedThreads twoCpus (fun _ => 7) [[0x500], [0x501], [0x2010]] 3) ∧
      ∃ cpu ∈ twoCpus.cpus, stackCheck twoCpus (fun _ => 7)
        (fun t => stackCheckTask true listUnwinder (stackCheckInit twoFns) t true)
        [[0x500], [0x501], [0x2010]] (fun _ => []) cpu ≠ 0 := by
  have h := stackCheck_parallel twoCpus (fun _ => 7) true listUnwinder (stackCheckInit twoFns) true
    [[0x500], [0x501], [0x2010]] fun _ => []
  refine ⟨h.2.1 (by decide) 0 (by decide) 3 (by decide) (by decide),
    h.2.2.2.mpr (.inl ⟨[0x2010], by decide, ?_⟩)⟩
  intro hzero
  exact (stackCheckTask_eq_zero_iff twoFns listUnwinder_documented true _ true).mp hzero 0x2010
    (by decide) (by decide)

end Plugsched
