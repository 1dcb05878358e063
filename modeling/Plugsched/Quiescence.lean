/-
Why it is enough to look for redirected functions on the stacks.

The stack check knows the functions of `export_jump.h` only.  An insider is entered
through one of these, so a stack with an insider frame has a redirected one beneath it.

* `enters_guarded` — nothing else leads to an insider, pointers included;
* `exists_redirected_beneath` — what lies beneath an insider frame;
* `caught_iff` — what the check finds out about the stack of a task;
* `syncSched_quiescent` — when an update happens, no task is in the code that it replaces.
-/
import Plugsched.FuncClass
import Plugsched.SafeUpdate

open CutGraph Runs BarrierProgram

namespace Plugsched

/-! ### Call stacks -/

/-- Code that any pointer may lead to: what is not in the files of the scheduler, what was
collected as a callback or given as an interface, and what kernel modules may call. -/
def Exposed (fc : FuncClass) (b : Signature) : Prop :=
  b ∉ fc.modFns ∨ b ∈ fc.border ∨ b ∈ fc.exportFunc

/-- One function is entered from another: by a call that was collected, through a pointer to
exposed code, or, from code of the module, through any pointer.  The methods of a
`sched_class`, which are not collected as callbacks, are such pointers. -/
def Enters (fc : FuncClass) (edges : List (Signature × Signature)) (a b : Signature) : Prop :=
  (a, b) ∈ edges ∨ Exposed fc b ∨ a ∈ fc.insider ∪ fc.redirected

/-- The functions of a stack, from the outermost on.  None of them is an init function,
whose code is gone, or a definition that is not linked. -/
structure CallStack (fc : FuncClass) (edges : List (Signature × Signature))
    (stack : List Signature) : Prop where
  chain : stack.IsChain (Enters fc edges)
  outside : ∀ f ∈ stack.head?, f ∉ fc.insider
  linked : ∀ f ∈ stack, f ∉ fc.init ∧ f ∉ fc.fakeGlobal

variable {Task : Type*} {n : ℕ}

/-- The stack of a task, function by function with the address in it, and how the unwinder
and the tables of the check see it; `nr` is `NR_##fn`.  Above `__schedule` there is no code
of the scheduler: a task that does not run sleeps there. -/
structure StackOf (fc : FuncClass) (edges : List (Signature × Signature)) (K : Scene Task n)
    (nr : Signature → Fin n) (op : SyncOp) (t : Task) (stack : List (Signature × ℕ)) :
    Prop where
  calls : CallStack fc edges (stack.map Prod.fst)
  frames : K.unwinder.frames t = (stack.map Prod.snd).reverse
  short : stack.length ≤ MAX_STACK_ENTRIES
  inside : ∀ x ∈ stack, ∀ i, i ≠ K.fns.schedule → ((x.1 ∈ fc.redirected ∧ nr x.1 = i) ↔
    (K.fns.side op.installs).addr i ≤ x.2 ∧
      x.2 < (K.fns.side op.installs).addr i + (K.fns.side op.installs).size i)
  asleep : ∀ front x rest, stack = front ++ x :: rest → x.1 ∈ fc.redirected →
    nr x.1 = K.fns.schedule → ∀ y ∈ rest, y.1 ∉ fc.insider

/-! ### The way to an insider -/

section Entering

variable {config : Config} {limit : ℕ} {col : Collected} {info : VmlinuxInfo} {fc : FuncClass}

/-- No initial insider is exposed. -/
theorem not_exposed (h : funcClassArithmetics config limit col info = .ok fc) {b : Signature}
    (hb : b ∈ fc.initialInsider) : ¬ Exposed fc b := by
  obtain ⟨_, rfl⟩ := funcClassArithmetics_ok h
  obtain ⟨hmod, hexport⟩ := Finset.mem_sdiff.mp hb
  obtain ⟨hmod, hborder⟩ := Finset.mem_sdiff.mp hmod
  rintro (hno | hyes | hyes)
  · exact hno hmod
  · exact hborder hyes
  · exact hexport hyes

/-- What `inflect` leaves is entered through the cut only. -/
theorem enters_guarded (h : funcClassArithmetics config limit col info = .ok fc) :
    Guarded (Enters fc col.edges) ↑fc.inflectCut
      (↑(inflect fc.inflectCut fc.initialInsider col.edges) : Set Signature) := by
  intro a b hab hb
  rcases hab with hcall | hexposed | hmodule
  · exact inflect_guarded a b hcall hb
  · exact absurd hexposed (not_exposed h (inflect_subset hb))
  · rcases Finset.mem_union.mp hmodule with hinsider | hredirected
    · rw [insider_eq h] at hinsider
      exact .inl (Finset.mem_sdiff.mp (Finset.mem_sdiff.mp hinsider).1).1
    · rw [redirected_eq h, Finset.mem_union] at hredirected
      refine .inr ?_
      rw [Finset.mem_coe, inflectCut_eq h, Finset.union_right_comm]
      exact Finset.mem_union_left _ (Finset.mem_union.mpr hredirected)

/-- Beneath an insider frame there is a redirected one. -/
theorem exists_redirected_beneath (h : funcClassArithmetics config limit col info = .ok fc)
    {front rest : List Signature} {f : Signature}
    (hstack : CallStack fc col.edges (front ++ f :: rest)) (hf : f ∈ fc.insider) :
    ∃ g ∈ front, g ∈ fc.redirected := by
  by_contra hno
  push Not at hno
  have hlen : front.length < (front ++ f :: rest).length := by simp
  have hpath := isPath_of_isChain hstack.chain f hlen
  have hget : ∀ i < front.length, (front ++ f :: rest).getD i f ∈ front := by
    intro i hi
    rw [List.getD_eq_getElem _ _ (hi.trans hlen), List.getElem_append_left hi]
    exact List.getElem_mem hi
  have hlast : (front ++ f :: rest).getD front.length f = f := by
    rw [List.getD_eq_getElem _ _ hlen, List.getElem_append_right le_rfl]
    simp
  have hin : f ∈ inflect fc.inflectCut fc.initialInsider col.edges := by
    rw [insider_eq h] at hf
    exact (Finset.mem_sdiff.mp (Finset.mem_sdiff.mp hf).1).1
  -- no frame beneath is of the cut, so the outermost one is an insider too
  have hfirst : (front ++ f :: rest).getD 0 f ∈
      inflect fc.inflectCut fc.initialInsider col.edges := by
    refine (enters_guarded h).mem_of_isPath hpath ?_ (fun i hi hcut => ?_) (Nat.zero_le _)
    · rw [hlast]
      exact hin
    · have hmem := hget i hi
      have hinit := (hstack.linked _ (List.mem_append_left _ hmem)).1
      have hred := hno _ hmem
      rw [redirected_eq h, Finset.mem_union, not_or] at hred
      rw [Finset.mem_coe, inflectCut_eq h, Finset.mem_union, Finset.mem_union] at hcut
      tauto
  have hpos : 0 < (front ++ f :: rest).length := by omega
  have hhead : (front ++ f :: rest).head? = some ((front ++ f :: rest).getD 0 f) := by
    rw [List.head?_eq_getElem?, List.getElem?_eq_getElem hpos, List.getD_eq_getElem _ _ hpos]
  have hmem : (front ++ f :: rest).getD 0 f ∈ front ++ f :: rest := List.mem_of_mem_head? hhead
  obtain ⟨hinit, hfake⟩ := hstack.linked _ hmem
  refine hstack.outside _ hhead ?_
  rw [insider_eq h]
  exact Finset.mem_sdiff.mpr ⟨Finset.mem_sdiff.mpr ⟨hfirst, hinit⟩, hfake⟩

/-! ### What the check finds -/

variable {K : Scene Task n} {nr : Signature → Fin n} {op : SyncOp} {t : Task}
  {stack : List (Signature × ℕ)}

/-- The check of a task finds a redirected frame other than that of `__schedule`. -/
theorem caught_iff (hstack : StackOf fc col.edges K nr op t stack) :
    K.Caught op t ↔ ∃ x ∈ stack, x.1 ∈ fc.redirected ∧ nr x.1 ≠ K.fns.schedule := by
  have hlen : (K.unwinder.frames t).length ≤ MAX_STACK_ENTRIES := by
    rw [hstack.frames, List.length_reverse, List.length_map]
    exact hstack.short
  rw [Scene.Caught, List.take_of_length_le hlen, hstack.frames]
  constructor
  · rintro ⟨a, ha, i, hi, hle, hlt⟩
    obtain ⟨x, hx, rfl⟩ := List.mem_map.mp (List.mem_reverse.mp ha)
    obtain ⟨hred, rfl⟩ := (hstack.inside x hx i hi).mpr ⟨hle, hlt⟩
    exact ⟨x, hx, hred, hi⟩
  · rintro ⟨x, hx, hred, hne⟩
    obtain ⟨hle, hlt⟩ := (hstack.inside x hx (nr x.1) hne).mp ⟨hred, rfl⟩
    exact ⟨x.2, List.mem_reverse.mpr (List.mem_map_of_mem hx), nr x.1, hne, hle, hlt⟩

/-- The task has no frame in the code that is replaced, `__schedule` apart. -/
def Clear (fc : FuncClass) (nr : Signature → Fin n) (schedule : Fin n)
    (stack : List (Signature × ℕ)) : Prop :=
  ∀ x ∈ stack, x.1 ∈ fc.redirected ∪ fc.insider → x.1 ∈ fc.redirected ∧ nr x.1 = schedule

/-- The check of a task finds out whether its stack is clear of the insiders as well. -/
theorem not_caught_iff (h : funcClassArithmetics config limit col info = .ok fc)
    (hstack : StackOf fc col.edges K nr op t stack) :
    ¬ K.Caught op t ↔ Clear fc nr K.fns.schedule stack := by
  rw [caught_iff hstack]
  constructor
  · intro hno x hx hold
    have honly : ∀ y ∈ stack, y.1 ∈ fc.redirected → nr y.1 = K.fns.schedule := by
      intro y hy hred
      by_contra hne
      exact hno ⟨y, hy, hred, hne⟩
    rcases Finset.mem_union.mp hold with hred | hinsider
    · exact ⟨hred, honly x hx hred⟩
    · -- beneath the insider only `__schedule` is left, and a task sleeps above it
      obtain ⟨front, rest, rfl⟩ := List.append_of_mem hx
      have hcalls := hstack.calls
      rw [List.map_append, List.map_cons] at hcalls
      obtain ⟨g, hg, hred⟩ := exists_redirected_beneath h hcalls hinsider
      obtain ⟨y, hy, rfl⟩ := List.mem_map.mp hg
      obtain ⟨front₁, front₂, rfl⟩ := List.append_of_mem hy
      have hsched := honly y (by simp) hred
      exact absurd hinsider (hstack.asleep front₁ y (front₂ ++ x :: rest) (by simp) hred hsched x
        (by simp))
  · rintro hclear ⟨x, hx, hred, hne⟩
    exact hne (hclear x hx (Finset.mem_union_left _ hred)).2

end Entering

/-- **No task is in the code that is replaced.**  In every interleaving of the CPUs, whose
ids are below `MAX_CPU_NR`, a handler returns 0, and the update happens, exactly if the pools
suffice and the stack of every thread and of every idle task is clear of the redirected
functions and of the insiders, asleep in `__schedule` apart. -/
theorem syncSched_quiescent (config : Config) (limit : ℕ) (metas : List Meta)
    (info : VmlinuxInfo) (fc : FuncClass)
    (h : funcClassArithmetics config limit (collected config metas) info = .ok fc)
    (K : Scene Task n) (nr : Signature → Fin n) (op : SyncOp) (o : OnlineCpus)
    (stack : Task → List (Signature × ℕ))
    (hthreads : ∀ t ∈ K.threads, StackOf fc (collected config metas).edges K nr op t (stack t))
    (hidle : ∀ cpu ∈ o.cpus, StackOf fc (collected config metas).edges K nr op (K.idleTask cpu)
      (stack (K.idleTask cpu)))
    (processId : ℕ → ℕ) (tr : List (Event ℕ Phase)) (s : State ℕ Counter)
    (hrun : Run (next (K.syncSched op o processId)) (parallelStateCheckInit o.cpus.length) tr s) :
    ∀ cpu ∈ o.cpus, ∀ ret, returned (K.syncSched op o processId) s cpu = some ret →
      (ret = 0 ↔ ¬ K.Short op ∧
        (∀ t ∈ K.threads, Clear fc nr K.fns.schedule (stack t)) ∧
        ∀ cpu ∈ o.cpus, Clear fc nr K.fns.schedule (stack (K.idleTask cpu))) := by
  intro cpu hcpu ret hret
  have hinit : parallelStateCheckInit o.cpus.length = (K.syncSched op o processId).init :=
    parallelStateCheckInit_eq
  rw [hinit] at hrun
  rw [returned_eq_zero_iff hrun hcpu hret, Scene.Busy]
  push Not
  refine and_congr_right fun _ => and_congr ?_ ?_
  · exact forall₂_congr fun t ht => not_caught_iff h (hthreads t ht)
  · exact forall₂_congr fun cpu hcpu => not_caught_iff h (hidle cpu hcpu)

/-- A task that has called `schedule`, which has called an insider. -/
def pickingStack : List (Signature × ℕ) :=
  [(("do_exit", "kernel/exit.c"), 0x500), (("schedule", "kernel/sched/core.c"), 0x2010),
    (("pick_next", "kernel/sched/core.c"), 0x3000)]

/-- CPUs whose idle tasks have no frames, and this task. -/
def pickingScene : Scene (List ℕ) 2 where
  archStackwalk := true
  unwinder := listUnwinder
  documented := listUnwinder_documented
  fns := twoFns
  threads := [[0x3000, 0x2010, 0x500]]
  idleTask := fun _ => []
  reserves := []

/-- An install in this scene. -/
def pickingRun : List (Event ℕ Phase) × State ℕ Counter :=
  exec (pickingScene.syncSched .install twoCpus fun _ => 7)
    (List.replicate 40 [0, 3]).flatten ([], parallelStateCheckInit 2)

/-- The stacks of this scene: `schedule` is its second redirected function. -/
theorem pickingStack_stackOf :
    StackOf smallClass (collected smallConfig smallMetas).edges pickingScene (fun _ => 1) .install
      [0x3000, 0x2010, 0x500] pickingStack where
  calls := ⟨by unfold Enters Exposed; decide, by decide, by decide⟩
  frames := rfl
  short := by decide
  inside := by
    intro x hx i hi
    fin_cases i
    · exact absurd rfl hi
    · fin_cases hx <;> decide
  asleep _ _ _ _ _ hnr := absurd hnr (by decide)

theorem idle_stackOf :
    StackOf smallClass (collected smallConfig smallMetas).edges pickingScene (fun _ => 1) .install
      [] [] where
  calls := ⟨.nil, by simp, by simp⟩
  frames := rfl
  short := by decide
  inside := by simp
  asleep := by simp

/-- The insider is seen by the frame of `schedule` beneath it. -/
theorem syncSched_quiescent_pickingRun :
    returned (pickingScene.syncSched .install twoCpus fun _ => 7) pickingRun.2 3 = some (-16) ∧
      ¬ Clear smallClass (fun _ => (1 : Fin 2)) 0 pickingStack := by
  have hret : returned (pickingScene.syncSched .install twoCpus fun _ => 7) pickingRun.2 3 =
      some (-16) := by decide +kernel
  have hiff := syncSched_quiescent smallConfig 1000 smallMetas (plainInfo smallMetas) smallClass
    rfl pickingScene (fun _ => 1) .install twoCpus
    (fun t => if t = [] then [] else pickingStack)
    (fun t ht => by
      obtain rfl := List.mem_singleton.mp ht
      exact pickingStack_stackOf)
    (fun _ _ => idle_stackOf)
    (fun _ => 7) pickingRun.1 pickingRun.2 (exec_run (by decide) .nil) 3 (by decide) (-16) hret
  refine ⟨hret, fun hclear => ?_⟩
  have hshort : ¬ pickingScene.Short .install := by
    rintro ⟨-, P, hP, -⟩
    cases hP
  refine absurd (hiff.mpr ⟨hshort, ?_, ?_⟩) (by decide)
  · intro t ht
    obtain rfl := List.mem_singleton.mp ht
    exact hclear
  · intro cpu _ x hx
    cases hx

end Plugsched
