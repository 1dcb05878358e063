/-
What an update does to the text of the kernel and to the class tables.

An `Image` is the memory that `__sync_sched_install` and `__sync_sched_restore`
redirect.  `syncEffect` performs the phases of a handler on it in source order;
`stopMachine_effect` connects this with the interleaved runs of the handler: a
run in which a check fails changes nothing, and one in which every CPU has
returned 0 has done exactly `syncEffect`.

* `installRestore_text_inHead`, `installRestore_text_of_not_inHead`,
  `installRestore_classes` — what an install and a restore leave;
* `installRestore_exact_iff` — when that is what was there before.
-/
import Plugsched.HeadJump
import Plugsched.SchedClass
import Plugsched.SyncSched

open ByteMem BarrierProgram Runs

namespace Plugsched

/-- What an update redirects: the text of the kernel and the class tables. -/
structure Image (T : Type*) where
  text : Mem Byte
  classes : ClassTables T

/-- A scheduler module: `export_jump.h` and `mod_class`, built for one architecture. -/
structure SchedMod (T : Type*) where
  arch : Arch
  fns : List ExportFn
  modClass : Fin NR_SCHED_CLASS → T

/-- The calls of a handler in source order. -/
def SyncOp.phases (op : SyncOp) : List Phase :=
  op.handler.filterMap fun ins => ins.code.map Prod.snd

variable {T : Type*} (M : SchedMod T) (jumps : List (Jump M.arch))

/-- What a call of a handler does to the image. -/
def phaseEffect (op : SyncOp) (ph : Phase) (img : Image T) : Image T :=
  match ph with
  | .switchSchedClass =>
    { img with classes := switchSchedClass M.modClass (op = .install) img.classes }
  | .jumpOperation =>
    match op with
    | .install => { img with text := jumpInstall jumps img.text }
    | .restore => { img with text := jumpRemove jumps img.text }
  | .disableStackProtector => { img with text := disableStackProtector M.arch img.text }
  | _ => img

/-- All calls of a handler, one after the other. -/
def syncEffect (op : SyncOp) (img : Image T) : Image T :=
  op.phases.foldl (fun img ph => phaseEffect M jumps op ph img) img

/-! ### The runs of the handlers -/

/-- The calls that change the image. -/
def imagePhases : List Phase := [.switchSchedClass, .jumpOperation, .disableStackProtector]

theorem phaseEffect_of_notMem {op : SyncOp} {ph : Phase} (h : ph ∉ imagePhases)
    (img : Image T) : phaseEffect M jumps op ph img = img := by
  cases ph with
  | switchSchedClass | jumpOperation | disableStackProtector => simp [imagePhases] at h
  | _ => rfl

section Runs

variable {op : SyncOp} {o : OnlineCpus} {processId : ℕ → ℕ} {res : Phase → ℕ → ℤ}
  {tr : List (Event ℕ Phase)} {s : State ℕ Counter}

theorem finish_first {cpu : ℕ} {ph : Phase}
    (h : Run (next (stopMachine op o processId res)) (stopMachine op o processId res).init tr s)
    (hph : ph ∈ imagePhases) (hmem : Event.finish cpu ph ∈ tr) :
    cpu = o.cpus.head o.ne_nil := by
  obtain ⟨t, s₁, s₂, -, h12⟩ := h.exists_step hmem
  obtain ⟨i, ins, f, hcpu, hi, hcode, hfirst⟩ := next_finish h12 rfl
  have hall : ∀ p ∈ op.handler.zipIdx, ∀ q ∈ p.1.code, q.2 ∈ imagePhases → q.1 = true := by
    cases op <;> decide
  have hf : f = true :=
    hall (ins, i) (List.mk_mem_zipIdx_iff_getElem?.mpr hi) (f, ph) hcode hph
  exact (isFirstProcess_iff o processId (mem_procs.mp hcpu)).mp (hfirst hf)

/-- An update in which a check fails leaves the image alone, at any time. -/
theorem stopMachine_effect_of_fails
    (h : Run (next (stopMachine op o processId res)) (stopMachine op o processId res).init tr s)
    (hfails : ChecksFail op o.toCpuMask res) (img : Image T) :
    traceEffect (phaseEffect M jumps op) tr img = img := by
  refine traceEffect_of_unchanged (fun cpu ph hmem img => ?_) img
  by_cases hph : ph ∈ imagePhases
  · -- such a call stands behind the reading of `global_error`
    have hlate : ∀ ph ∈ imagePhases, op.abortPos < op.pos ph := by
      cases op <;> decide
    exact absurd (start_mem_of_finish h hmem) (not_start_of_fails stopMachine_wellFormed
      stopMachine_voting h (fails_iff.mpr hfails) (stopMachine_late (hlate ph hph)) cpu)
  · exact phaseEffect_of_notMem M jumps hph img

/-- The first process does all calls of the handler when it returns 0. -/
theorem finished_of_returned
    (h : Run (next (stopMachine op o processId res)) (stopMachine op o processId res).init tr s)
    (hno : ¬ ChecksFail op o.toCpuMask res) {ret : ℤ}
    (hret : returned (stopMachine op o processId res) s (o.cpus.head o.ne_nil) = some ret) :
    finished (o.cpus.head o.ne_nil) tr = op.phases := by
  have hhead : o.cpus.head o.ne_nil ∈ o.cpus := List.head_mem o.ne_nil
  have hfirst : isFirstProcess (o.processId processId) (o.cpus.head o.ne_nil) = true :=
    (isFirstProcess_iff o processId hhead).mpr rfl
  rw [finished_eq h]
  have htake : (stopMachine op o processId res).prog.take (s.pc (o.cpus.head o.ne_nil)).idx =
      op.handler := by
    have hwf : WellFormed (stopMachine op o processId res) := stopMachine_wellFormed
    exact List.take_of_length_le (length_le_of_not_fails hwf stopMachine_voting h
      (fails_iff.not.mpr hno) (mem_procs.mpr hhead) hret).1
  rw [htake]
  refine List.filterMap_congr ?_
  intro ins _
  cases hcode : ins.code with
  | none => simp [Instr.phaseOn, hcode]
  | some q => simp [Instr.phaseOn, hcode, stopMachine, stopMachineOn, hfirst]

/-- `sync_sched_mod` as a whole, when `stop_machine` returns `ret`. -/
def syncSchedMod (op : SyncOp) (ret : ℤ) (img : Image T) : Image T :=
  if ret = 0 then syncEffect M jumps op img else img

/-- However the CPUs interleave, an update they all return from has done all
calls of the handler in source order, or nothing. -/
theorem stopMachine_effect {ret : ℤ}
    (h : Run (next (stopMachine op o processId res)) (parallelStateCheckInit o.cpus.length)
      tr s)
    (hret : ∀ cpu ∈ o.cpus, returned (stopMachine op o processId res) s cpu = some ret)
    (img : Image T) :
    traceEffect (phaseEffect M jumps op) tr img = syncSchedMod M jumps op ret img := by
  have hhead : o.cpus.head o.ne_nil ∈ o.cpus := List.head_mem o.ne_nil
  have hone := hret _ hhead
  have hinit : parallelStateCheckInit o.cpus.length = (stopMachine op o processId res).init :=
    parallelStateCheckInit_eq
  rw [hinit] at h
  by_cases hfails : ChecksFail op o.toCpuMask res
  · have hne : ret ≠ 0 := (returned_of_fails stopMachine_wellFormed stopMachine_voting h
      (fails_iff.mpr hfails) ⟨_, _, handler_abort op⟩ (mem_procs.mpr hhead) hone).2
    rw [syncSchedMod, if_neg hne]
    exact stopMachine_effect_of_fails M jumps h hfails img
  · have hzero : ret = 0 := returned_of_not_fails stopMachine_wellFormed stopMachine_voting h
      (fails_iff.not.mpr hfails) (mem_procs.mpr hhead) hone
    have hother : ∀ cpu ph, Event.finish cpu ph ∈ tr → cpu ≠ o.cpus.head o.ne_nil →
        ∀ img : Image T, phaseEffect M jumps op ph img = img := by
      intro cpu ph hmem hne img
      by_cases hph : ph ∈ imagePhases
      · exact absurd (finish_first h hph hmem) hne
      · exact phaseEffect_of_notMem M jumps hph img
    rw [syncSchedMod, if_pos hzero, traceEffect_eq _ hother, finished_of_returned h hfails hone]
    rfl

end Runs

/-! ### Install and restore -/

/-- A successful install followed by a successful restore. -/
def installRestore (img : Image T) : Image T :=
  syncEffect M jumps .restore (syncEffect M jumps .install img)

variable {M jumps}

theorem installRestore_classes (img : Image T) :
    (installRestore M jumps img).classes.orig = img.classes.orig :=
  switchSchedClass_restore M.modClass img.classes

/-- `jump_remove` gives the heads the bytes that `jump_init_all` saved. -/
theorem jumpRemove_inHead (hM : M.arch.Documented) {text : Mem Byte}
    (hinit : jumpInitAll M.arch M.fns text = .ok jumps) {x : ℕ} (hx : InHead M.arch M.fns x)
    (text' : Mem Byte) : jumpRemove jumps text' x = text x := by
  obtain ⟨hfns, hsaved⟩ := jumpInitAll_ok hinit
  rw [jumpRemove_eq hM]
  refine applyAll_saved (fun p hp => ?_) ?_ _
  · obtain ⟨j, hj, rfl⟩ := List.mem_map.mp (List.mem_of_mem_filter hp)
    exact hsaved j hj
  · rw [covered_removePatches, hfns]
    exact hx

theorem installRestore_text_inHead (hM : M.arch.Documented) {text : Mem Byte}
    (hinit : jumpInitAll M.arch M.fns text = .ok jumps) {x : ℕ} (hx : InHead M.arch M.fns x)
    (img : Image T) : (installRestore M jumps img).text x = text x :=
  jumpRemove_inHead hM hinit hx _

/-- The instructions of the stack protector stay overwritten. -/
theorem installRestore_text_of_not_inHead (hM : M.arch.Documented) {text : Mem Byte}
    (hinit : jumpInitAll M.arch M.fns text = .ok jumps) {x : ℕ}
    (hx : ¬ InHead M.arch M.fns x) (img : Image T) :
    (installRestore M jumps img).text x = applyAll (nopPatches M.arch) img.text x := by
  obtain ⟨hfns, -⟩ := jumpInitAll_ok hinit
  have hremove : ¬ Covered (removePatches jumps) x := by rwa [covered_removePatches, hfns]
  have hinstall : ¬ Covered (installPatches jumps) x := by rwa [covered_installPatches, hfns]
  show jumpRemove jumps (disableStackProtector M.arch (jumpInstall jumps img.text)) x = _
  rw [jumpRemove_eq hM, applyAll_of_not_covered hremove, disableStackProtector_eq hM,
    jumpInstall_eq hM]
  -- only the last of the three writes of an install may have written `x`
  by_cases hnop : Covered (nopPatches M.arch) x
  · exact applyAll_of_covered hnop _ _
  · rw [applyAll_of_not_covered hnop, applyAll_of_not_covered hnop,
      applyAll_of_not_covered hinstall]

/-- Where `disable_stack_protector` overwrites something else than a head, there
are `NOP` instructions already. -/
def StackProtectorNops (A : Arch) (fns : List ExportFn) (text : Mem Byte) : Prop :=
  ∀ a ∈ A.canaryInsns, A.writable a = true → ∀ k < 4, ¬ InHead A fns (a + k) →
    (leBytes NOP)[k]? = some (text (a + k))

theorem stackProtectorNops_iff {A : Arch} {fns : List ExportFn} {text : Mem Byte} :
    StackProtectorNops A fns text ↔
      ∀ x, ¬ InHead A fns x → applyAll (nopPatches A) text x = text x := by
  constructor
  · intro h x hx
    by_cases hnop : Covered (nopPatches A) x
    · obtain ⟨a, ha, hw, k, hk, rfl⟩ := covered_nopPatches.mp hnop
      have hread := nopPatches_getElem? ha hw hk text
      rw [h a ha hw k hk hx] at hread
      exact (Option.some.inj hread).symm
    · exact applyAll_of_not_covered hnop text
  · intro h a ha hw k hk hx
    rw [nopPatches_getElem? ha hw hk text, h _ hx]

/-- **Restoring undoes installing, but for the stack protector.**  Any number of
times an install and a restore give back the text and the class tables they
found, if and only if the instructions that `disable_stack_protector` overwrites
outside the redirected heads are `NOP`s to begin with.  On x86-64, and on arm64
without `STACK_PROTECTOR`, there are no such instructions. -/
theorem installRestore_exact_iff (M : SchedMod T) (hM : M.arch.Documented) (img : Image T)
    (jumps : List (Jump M.arch)) (hinit : jumpInitAll M.arch M.fns img.text = .ok jumps) :
    (∀ n, let before := (installRestore M jumps)^[n] img
      (installRestore M jumps before).text = before.text ∧
        (installRestore M jumps before).classes.orig = before.classes.orig) ↔
      StackProtectorNops M.arch M.fns img.text := by
  rw [stackProtectorNops_iff]
  constructor
  · intro h x hx
    rw [← installRestore_text_of_not_inHead hM hinit hx img]
    exact congrFun (h 0).1 x
  · intro h n
    -- a text that is right in the heads and outside of them is the old one
    have hround : ∀ img' : Image T, img'.text = img.text →
        (installRestore M jumps img').text = img.text := by
      intro img' htext
      funext x
      by_cases hx : InHead M.arch M.fns x
      · exact installRestore_text_inHead hM hinit hx img'
      · rw [installRestore_text_of_not_inHead hM hinit hx, htext, h x hx]
    have htext : ((installRestore M jumps)^[n] img).text = img.text := by
      induction n with
      | zero => rfl
      | succ n ih =>
        rw [Function.iterate_succ_apply']
        exact hround _ ih
    exact ⟨(hround _ htext).trans htext.symm, installRestore_classes _⟩

/-- A module for x86-64 that replaces two functions. -/
def x86Sched : SchedMod ℕ where
  arch := .x86_64 0x2000
  fns := [⟨"__schedule", 0x1000, 0x9000⟩, ⟨"scheduler_tick", 0x1040, 0x9100⟩]
  modClass := fun i => 10 + i

/-- Its kernel: both functions begin with the five-byte `nop` of ftrace. -/
def x86Image : Image ℕ where
  text := fun x => [0x0f, 0x1f, 0x44, 0x00, 0x00].getD (x % 0x40) 0x90
  classes := { orig := fun i => i, bak := fun _ => 0 }

/-- The two functions of the arm64 kernel as they work on the kernel's own text. -/
def arm64Insn : Arm64Insn where
  genBranchImm := fun pc addr =>
    0x14000000 ||| (BitVec.ofInt 32 (((addr : ℤ) - pc) / 4) &&& 0x03ffffff)
  patchTextNosync := fun a w text => if 4 ∣ a then writeBytes text a (leBytes w) else text

theorem arm64Insn_documented : arm64Insn.Documented where
  aligned := fun _ _ _ h => if_pos h
  unaligned := fun _ _ _ h => if_neg h

/-- A module for arm64 that replaces `__schedule`. -/
def arm64Sched (stackProtector : Option (ℕ × ℕ)) : SchedMod ℕ where
  arch := .arm64 arm64Insn 0x1000 stackProtector
  fns := [⟨"__schedule", 0x1000, 0x9000⟩]
  modClass := fun i => 10 + i

/-- Its kernel: from the third instruction on `__schedule` loads the canary twice, compares
and jumps if the two differ (`ldr`, `ldr`, `subs`, `b.ne`). -/
def arm64Image : Image ℕ where
  text := fun x =>
    (leBytes 0xa9b67bfd ++ leBytes 0x910003fd ++ leBytes 0xf9404fe1 ++ leBytes 0xf9400002 ++
      leBytes 0xeb020021 ++ leBytes 0x54000101).getD (x - 0x1000) 0
  classes := { orig := fun i => i, bak := fun _ => 0 }

theorem installRestore_exact_iff_noCanary :
    (∃ jumps, jumpInitAll x86Sched.arch x86Sched.fns x86Image.text = .ok jumps ∧
      (syncEffect x86Sched jumps .install x86Image).text 0x1040 = 0xe9 ∧
      ∀ n, let before := (installRestore x86Sched jumps)^[n] x86Image
        (installRestore x86Sched jumps before).text = before.text ∧
          (installRestore x86Sched jumps before).classes.orig = before.classes.orig) ∧
    ∃ jumps, jumpInitAll (arm64Sched none).arch (arm64Sched none).fns arm64Image.text =
        .ok jumps ∧
      (syncEffect (arm64Sched none) jumps .install arm64Image).text 0x1003 = 0x14 ∧
      ∀ n, let before := (installRestore (arm64Sched none) jumps)^[n] arm64Image
        (installRestore (arm64Sched none) jumps before).text = before.text ∧
          (installRestore (arm64Sched none) jumps before).classes.orig = before.classes.orig := by
  constructor
  · refine ⟨_, rfl, by decide, ?_⟩
    refine (installRestore_exact_iff x86Sched trivial x86Image _ rfl).mpr ?_
    intro a ha
    exact absurd ha List.not_mem_nil
  · refine ⟨_, rfl, by decide, ?_⟩
    refine (installRestore_exact_iff (arm64Sched none) arm64Insn_documented arm64Image _ rfl).mpr ?_
    intro a ha
    exact absurd ha List.not_mem_nil

/-- With `STACK_PROTECTOR` the four instructions do not come back. -/
theorem stackProtector_not_restored :
    (arm64Sched (some (8, 4))).arch.Documented ∧
      ∃ jumps, jumpInitAll (arm64Sched (some (8, 4))).arch (arm64Sched (some (8, 4))).fns
          arm64Image.text = .ok jumps ∧
        ¬ ∀ n, let before := (installRestore (arm64Sched (some (8, 4))) jumps)^[n] arm64Image
          (installRestore (arm64Sched (some (8, 4))) jumps before).text = before.text ∧
            (installRestore (arm64Sched (some (8, 4))) jumps before).classes.orig =
              before.classes.orig := by
  refine ⟨arm64Insn_documented, _, rfl, ?_⟩
  intro h
  -- the first byte of the third instruction is that of `NOP` after one round
  have hbyte := congrFun (h 0).1 0x1008
  revert hbyte
  decide

end Plugsched
