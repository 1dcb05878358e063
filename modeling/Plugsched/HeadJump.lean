/-
The redirection of kernel functions to the module, as in `head_jump.h`.

`jumpInitAll` saves the first bytes of every redirected function and builds the
jump that replaces them, `jumpInstall` writes the jumps, `jumpRemove` writes the
saved bytes back.  On arm64 the instructions that check the stack canary of
`__schedule` are overwritten too (`disableStackProtector`).  The text of the
kernel is a byte memory; write protection is left out.

* `jumpInstall_eq`, `jumpRemove_eq`, `disableStackProtector_eq` — each of these
  writes is a list of patches;
* `jumpInitAll_ok` — what is saved;
* `jumpInitAll_ok_iff` — a hooked function is what makes it fail;
* `readBytes_jumpInstall_self` — what is installed.
-/
import Plugsched.ByteMem
import Plugsched.ExceptRules

open ByteMem ExceptRules

namespace Plugsched

abbrev Byte := BitVec 8

/-- A line of `export_jump.h`: the function in the kernel, and the function of the
module that replaces it (`__cb_` and the name for a callback, else the name). -/
structure ExportFn where
  name : String
  orig : ℕ
  mod : ℕ

/-- The instruction support of the arm64 kernel: `aarch64_insn_gen_branch_imm` for
`AARCH64_INSN_BRANCH_NOLINK`, and `aarch64_insn_patch_text_nosync`. -/
structure Arm64Insn where
  genBranchImm : ℕ → ℕ → BitVec 32
  patchTextNosync : ℕ → BitVec 32 → Mem Byte → Mem Byte

/-- Patching writes one instruction; instructions must be word aligned. -/
structure Arm64Insn.Documented (insn : Arm64Insn) : Prop where
  aligned : ∀ a w text, 4 ∣ a →
    insn.patchTextNosync a w text = writeBytes text a (leBytes w)
  unaligned : ∀ a w text, ¬ 4 ∣ a → insn.patchTextNosync a w text = text

/-- The two sets of macros of `head_jump.h`: for x86-64 with the address of
`__fentry__`, for arm64 with that of `__schedule` and, when `STACK_PROTECTOR` is
defined, with it and `STACK_PROTECTOR_LEN`. -/
inductive Arch where
  | x86_64 (fentry : ℕ)
  | arm64 (insn : Arm64Insn) (schedule : ℕ) (stackProtector : Option (ℕ × ℕ))

def Arch.Documented : Arch → Prop
  | .x86_64 _ => True
  | .arm64 insn _ _ => insn.Documented

/-- `HEAD_LEN` on x86-64, `AARCH64_INSN_SIZE` on arm64. -/
def Arch.headLen : Arch → ℕ
  | .x86_64 _ => 5
  | .arm64 _ _ _ => 4

/-- What `DEFINE_JUMP_FUNC` declares for a function, after `JUMP_INIT_FUNC`. -/
structure Jump (A : Arch) where
  fn : ExportFn
  storeOrig : List Byte
  storeJump : List Byte
  length_orig : storeOrig.length = A.headLen
  length_jump : storeJump.length = A.headLen

/-- Where a `call` at `addr` with these bytes goes. -/
def callTarget (addr : ℕ) (head : List Byte) : BitVec 64 :=
  BitVec.ofNat 64 (addr + 5) + (leWord (head.drop 1)).signExtend 64

/-- The test of `JUMP_INIT_FUNC` on x86-64: the function begins with a jump, or with
a call of something else than `__fentry__`. -/
def hooked (fentry addr : ℕ) (head : List Byte) : Bool :=
  (head.head? == some 0xe8 && callTarget addr head != BitVec.ofNat 64 fentry) ||
    head.head? == some 0xe9

/-- `JUMP_INIT_FUNC`; the error is `curr_func` at the label `hooked`. -/
def jumpInitFunc (A : Arch) (text : Mem Byte) (f : ExportFn) : Except String (Jump A) :=
  match A with
  | .x86_64 fentry =>
    if hooked fentry f.orig (readBytes text f.orig 5) then .error f.name
    else
      .ok
        { fn := f
          storeOrig := readBytes text f.orig 5
          storeJump := 0xe9 :: leBytes (BitVec.ofInt 32 ((f.mod : ℤ) - f.orig - 5))
          length_orig := length_readBytes _ _ _
          length_jump := rfl }
  | .arm64 insn _ _ =>
    .ok
      { fn := f
        storeOrig := readBytes text f.orig 4
        storeJump := leBytes (insn.genBranchImm f.orig f.mod)
        length_orig := length_readBytes _ _ _
        length_jump := rfl }

/-- `jump_init_all`. -/
def jumpInitAll (A : Arch) (fns : List ExportFn) (text : Mem Byte) :
    Except String (List (Jump A)) :=
  fns.mapM (jumpInitFunc A text)

/-- How `JUMP_INSTALL_FUNC` and `JUMP_REMOVE_FUNC` write a head: `memcpy` on x86-64,
`aarch64_insn_patch_text_nosync` on arm64. -/
def Arch.writeHead (A : Arch) (a : ℕ) (bs : List Byte) (text : Mem Byte) : Mem Byte :=
  match A with
  | .x86_64 _ => writeBytes text a bs
  | .arm64 insn _ _ => insn.patchTextNosync a (leWord bs) text

variable {A : Arch}

/-- `JUMP_INSTALL_FUNC`. -/
def jumpInstallFunc (text : Mem Byte) (j : Jump A) : Mem Byte :=
  A.writeHead j.fn.orig j.storeJump text

/-- `JUMP_REMOVE_FUNC`. -/
def jumpRemoveFunc (text : Mem Byte) (j : Jump A) : Mem Byte :=
  A.writeHead j.fn.orig j.storeOrig text

/-- `jump_install`. -/
def jumpInstall (jumps : List (Jump A)) (text : Mem Byte) : Mem Byte :=
  jumps.foldl jumpInstallFunc text

/-- `jump_remove`. -/
def jumpRemove (jumps : List (Jump A)) (text : Mem Byte) : Mem Byte :=
  jumps.foldl jumpRemoveFunc text

/-- `NOP` of `main.c`. -/
def NOP : BitVec 32 := 0xd503201f

/-- The loop of `disable_stack_protector`, with `n` instructions left. -/
def patchNops (insn : Arm64Insn) : ℕ → ℕ → Mem Byte → Mem Byte
  | 0, _, text => text
  | n + 1, addr, text => patchNops insn n (addr + 4) (insn.patchTextNosync addr NOP text)

/-- `disable_stack_protector`. -/
def disableStackProtector (A : Arch) (text : Mem Byte) : Mem Byte :=
  match A with
  | .arm64 insn schedule (some (offset, len)) => patchNops insn len (schedule + offset) text
  | .arm64 _ _ none => text
  | .x86_64 _ => text

/-! ### The writes as patches -/

/-- The addresses at which a head or an instruction can be written. -/
def Arch.writable (A : Arch) (a : ℕ) : Bool :=
  match A with
  | .x86_64 _ => true
  | .arm64 _ _ _ => decide (4 ∣ a)

theorem writeHead_of_writable (hA : A.Documented) {a : ℕ} (ha : A.writable a = true)
    {bs : List Byte} (hlen : bs.length = A.headLen) (text : Mem Byte) :
    A.writeHead a bs text = writeBytes text a bs := by
  match A, hA with
  | .x86_64 _, _ => rfl
  | .arm64 insn _ _, hinsn =>
    have hdvd : 4 ∣ a := of_decide_eq_true ha
    show insn.patchTextNosync a (leWord bs) text = _
    rw [hinsn.aligned a _ text hdvd, leBytes_leWord hlen]

theorem writeHead_of_not_writable (hA : A.Documented) {a : ℕ} (ha : ¬ A.writable a = true)
    (bs : List Byte) (text : Mem Byte) : A.writeHead a bs text = text := by
  match A, hA with
  | .x86_64 _, _ => exact absurd rfl ha
  | .arm64 insn _ _, hinsn =>
    have hdvd : ¬ 4 ∣ a := fun h => ha (decide_eq_true h)
    exact hinsn.unaligned a _ text hdvd

/-- Writing heads one after the other is performing those patches that are writable. -/
theorem foldl_writeHead (hA : A.Documented) {γ : Type*} (g : γ → Patch Byte)
    (hlen : ∀ c, (g c).bytes.length = A.headLen) (cs : List γ) (text : Mem Byte) :
    cs.foldl (fun text c => A.writeHead (g c).addr (g c).bytes text) text =
      applyAll ((cs.map g).filter fun p => A.writable p.addr) text := by
  induction cs generalizing text with
  | nil => rfl
  | cons c cs ih =>
    rw [List.foldl_cons, ih, List.map_cons, List.filter_cons]
    by_cases hc : A.writable (g c).addr = true
    · rw [if_pos hc, writeHead_of_writable hA hc (hlen c)]
      rfl
    · rw [if_neg hc, writeHead_of_not_writable hA hc]

def Jump.installPatch (j : Jump A) : Patch Byte := { addr := j.fn.orig, bytes := j.storeJump }

def Jump.removePatch (j : Jump A) : Patch Byte := { addr := j.fn.orig, bytes := j.storeOrig }

def installPatches (jumps : List (Jump A)) : List (Patch Byte) :=
  (jumps.map Jump.installPatch).filter fun p => A.writable p.addr

def removePatches (jumps : List (Jump A)) : List (Patch Byte) :=
  (jumps.map Jump.removePatch).filter fun p => A.writable p.addr

theorem jumpInstall_eq (hA : A.Documented) (jumps : List (Jump A)) (text : Mem Byte) :
    jumpInstall jumps text = applyAll (installPatches jumps) text :=
  foldl_writeHead hA Jump.installPatch Jump.length_jump jumps text

theorem jumpRemove_eq (hA : A.Documented) (jumps : List (Jump A)) (text : Mem Byte) :
    jumpRemove jumps text = applyAll (removePatches jumps) text :=
  foldl_writeHead hA Jump.removePatch Jump.length_orig jumps text

/-- The byte at `x` belongs to the head of a redirected function. -/
def InHead (A : Arch) (fns : List ExportFn) (x : ℕ) : Prop :=
  ∃ f ∈ fns, A.writable f.orig = true ∧ x ∈ Set.Ico f.orig (f.orig + A.headLen)

theorem covered_iff_inHead {g : Jump A → Patch Byte} (haddr : ∀ j, (g j).addr = j.fn.orig)
    (hlen : ∀ j, (g j).bytes.length = A.headLen) (jumps : List (Jump A)) (x : ℕ) :
    Covered ((jumps.map g).filter fun p => A.writable p.addr) x ↔
      InHead A (jumps.map Jump.fn) x := by
  simp only [Covered, InHead, Patch.span, List.mem_filter, List.mem_map]
  constructor
  · rintro ⟨-, ⟨⟨j, hj, rfl⟩, hw⟩, hx⟩
    rw [haddr] at hw
    rw [haddr, hlen] at hx
    exact ⟨j.fn, ⟨j, hj, rfl⟩, hw, hx⟩
  · rintro ⟨-, ⟨j, hj, rfl⟩, hw, hx⟩
    refine ⟨g j, ⟨⟨j, hj, rfl⟩, ?_⟩, ?_⟩
    · rwa [haddr]
    · rwa [haddr, hlen]

theorem covered_installPatches {jumps : List (Jump A)} {x : ℕ} :
    Covered (installPatches jumps) x ↔ InHead A (jumps.map Jump.fn) x :=
  covered_iff_inHead (fun _ => rfl) Jump.length_jump jumps x

theorem covered_removePatches {jumps : List (Jump A)} {x : ℕ} :
    Covered (removePatches jumps) x ↔ InHead A (jumps.map Jump.fn) x :=
  covered_iff_inHead (fun _ => rfl) Jump.length_orig jumps x

/-- The instructions that `disable_stack_protector` overwrites. -/
def Arch.canaryInsns : Arch → List ℕ
  | .arm64 _ schedule (some (offset, len)) =>
    (List.range len).map fun i => schedule + offset + 4 * i
  | .arm64 _ _ none => []
  | .x86_64 _ => []

def nopPatch (a : ℕ) : Patch Byte := { addr := a, bytes := leBytes NOP }

def nopPatches (A : Arch) : List (Patch Byte) :=
  (A.canaryInsns.filter A.writable).map nopPatch

theorem patchNops_eq {insn : Arm64Insn} (h : insn.Documented) (n addr : ℕ)
    (text : Mem Byte) :
    patchNops insn n addr text =
      applyAll ((((List.range n).map fun i => addr + 4 * i).filter fun a => 4 ∣ a).map
        nopPatch) text := by
  induction n generalizing addr text with
  | zero => rfl
  | succ n ih =>
    -- the loop counts from `addr + 4` after its first round
    have hshift : (fun i => addr + 4 * i) ∘ Nat.succ = fun i => addr + 4 + 4 * i := by
      funext i
      show addr + 4 * (i + 1) = _
      omega
    rw [patchNops, ih, List.range_succ_eq_map, List.map_cons, List.map_map, hshift]
    by_cases hdvd : 4 ∣ addr
    · rw [h.aligned addr NOP text hdvd, List.filter_cons_of_pos (by simpa using hdvd)]
      rfl
    · rw [h.unaligned addr NOP text hdvd, List.filter_cons_of_neg (by simpa using hdvd)]

theorem disableStackProtector_eq (hA : A.Documented) (text : Mem Byte) :
    disableStackProtector A text = applyAll (nopPatches A) text := by
  match A, hA with
  | .x86_64 _, _ => rfl
  | .arm64 _ _ none, _ => rfl
  | .arm64 insn schedule (some (offset, len)), hinsn => exact patchNops_eq hinsn len _ text

theorem canaryInsns_pairwise (A : Arch) : A.canaryInsns.Pairwise fun a b => a + 4 ≤ b := by
  match A with
  | .x86_64 _ => exact .nil
  | .arm64 _ _ none => exact .nil
  | .arm64 _ schedule (some (offset, len)) =>
    refine List.pairwise_map.mpr (List.Pairwise.imp ?_ List.pairwise_lt_range)
    intro i j hij
    omega

theorem nopPatches_pairwise (A : Arch) :
    (nopPatches A).Pairwise fun p q => Disjoint p.span q.span := by
  refine List.pairwise_map.mpr (List.Pairwise.imp ?_ ((canaryInsns_pairwise A).filter _))
  intro a b hab
  refine Set.disjoint_left.mpr ?_
  intro x hx hx'
  have hlt : x < a + 4 := hx.2
  have hle : b ≤ x := hx'.1
  omega

/-- Every byte under one of the instructions becomes a byte of `NOP`. -/
theorem nopPatches_getElem? {a k : ℕ} (ha : a ∈ A.canaryInsns) (hw : A.writable a = true)
    (hk : k < 4) (text : Mem Byte) :
    (leBytes NOP)[k]? = some (applyAll (nopPatches A) text (a + k)) := by
  have hmem : nopPatch a ∈ nopPatches A :=
    List.mem_map_of_mem (List.mem_filter.mpr ⟨ha, hw⟩)
  have hread : readBytes (applyAll (nopPatches A) text) a 4 = leBytes NOP :=
    readBytes_applyAll (nopPatches_pairwise A) hmem text
  rw [← hread, readBytes_getElem? _ a hk]

theorem covered_nopPatches {x : ℕ} :
    Covered (nopPatches A) x ↔
      ∃ a ∈ A.canaryInsns, A.writable a = true ∧ ∃ k < 4, x = a + k := by
  simp only [Covered, nopPatches, List.mem_map, List.mem_filter]
  constructor
  · rintro ⟨-, ⟨a, ⟨ha, hw⟩, rfl⟩, hle, hlt⟩
    obtain ⟨k, rfl⟩ := Nat.exists_eq_add_of_le hle
    exact ⟨a, ha, hw, k, Nat.lt_of_add_lt_add_left hlt, rfl⟩
  · rintro ⟨a, ha, hw, k, hk, rfl⟩
    exact ⟨nopPatch a, ⟨a, ⟨ha, hw⟩, rfl⟩, Nat.le_add_right a k, Nat.add_lt_add_left hk a⟩

/-! ### What is saved -/

theorem jumpInitFunc_ok {text : Mem Byte} {f : ExportFn} {j : Jump A}
    (h : jumpInitFunc A text f = .ok j) :
    j.fn = f ∧ j.storeOrig = readBytes text f.orig A.headLen := by
  match A, j, h with
  | .x86_64 fentry, j, h =>
    rw [jumpInitFunc] at h
    split at h
    · cases h
    · obtain rfl := Except.ok.inj h
      exact ⟨rfl, rfl⟩
  | .arm64 _ _ _, j, h =>
    obtain rfl := Except.ok.inj h
    exact ⟨rfl, rfl⟩

/-- What `jump_init_all` has saved: the head of every function of the list. -/
theorem jumpInitAll_ok {fns : List ExportFn} {text : Mem Byte} {jumps : List (Jump A)}
    (h : jumpInitAll A fns text = .ok jumps) :
    jumps.map Jump.fn = fns ∧ ∀ j ∈ jumps, j.removePatch.Saved text := by
  have hall := mapM_ok_forall₂ h
  clear h
  induction hall with
  | nil => exact ⟨rfl, by simp⟩
  | @cons f j fns jumps hj _ ih =>
    -- the head is as long as the bytes saved for it
    obtain ⟨hfn, horig⟩ := jumpInitFunc_ok hj
    refine ⟨by rw [List.map_cons, hfn, ih.1], fun i hi => ?_⟩
    rcases List.mem_cons.mp hi with rfl | hi
    · show i.storeOrig = readBytes text i.fn.orig i.storeOrig.length
      rw [i.length_orig, horig, hfn]
    · exact ih.2 i hi

/-- On x86-64 a redirection is refused exactly if some function is hooked. -/
theorem jumpInitAll_ok_iff {fentry : ℕ} {fns : List ExportFn} {text : Mem Byte} :
    (∃ jumps, jumpInitAll (.x86_64 fentry) fns text = .ok jumps) ↔
      ∀ f ∈ fns, hooked fentry f.orig (readBytes text f.orig 5) = false := by
  constructor
  · rintro ⟨jumps, h⟩
    have hall := mapM_ok_forall₂ h
    clear h
    induction hall with
    | nil => simp
    | @cons f j fns jumps hj _ ih =>
      refine List.forall_mem_cons.mpr ⟨?_, ih⟩
      rw [jumpInitFunc] at hj
      split at hj
      · cases hj
      · next hf => exact Bool.eq_false_iff.mpr hf
  · intro h
    refine mapM_ok_of_forall ?_
    intro f hf
    rw [jumpInitFunc, if_neg (Bool.eq_false_iff.mp (h f hf))]
    exact ⟨_, rfl⟩

/-! ### The installed jumps -/

/-- The heads of the functions can be written and do not overlap. -/
structure SeparateHeads (A : Arch) (fns : List ExportFn) : Prop where
  writable : ∀ f ∈ fns, A.writable f.orig = true
  apart : fns.Pairwise fun f g =>
    Disjoint (Set.Ico f.orig (f.orig + A.headLen)) (Set.Ico g.orig (g.orig + A.headLen))

/-- After `jump_install` the head of every function is its jump. -/
theorem readBytes_jumpInstall_self (hA : A.Documented) {jumps : List (Jump A)}
    (h : SeparateHeads A (jumps.map Jump.fn)) {j : Jump A} (hj : j ∈ jumps) (text : Mem Byte) :
    readBytes (jumpInstall jumps text) j.fn.orig A.headLen = j.storeJump := by
  have hapart : (installPatches jumps).Pairwise fun p q => Disjoint p.span q.span := by
    refine List.Pairwise.filter _ (List.pairwise_map.mpr ?_)
    refine List.Pairwise.imp ?_ (List.pairwise_map.mp h.apart)
    intro i j hij
    show Disjoint (Set.Ico i.fn.orig (i.fn.orig + i.storeJump.length))
      (Set.Ico j.fn.orig (j.fn.orig + j.storeJump.length))
    rwa [i.length_jump, j.length_jump]
  have hmem : j.installPatch ∈ installPatches jumps :=
    List.mem_filter.mpr ⟨List.mem_map_of_mem hj, h.writable j.fn (List.mem_map_of_mem hj)⟩
  rw [jumpInstall_eq hA, ← j.length_jump]
  exact readBytes_applyAll hapart hmem text

/-- Where no head is, `jump_install` leaves the text alone. -/
theorem readBytes_jumpInstall_of_not_inHead (hA : A.Documented) {jumps : List (Jump A)} {a n : ℕ}
    (h : ∀ x ∈ Set.Ico a (a + n), ¬ InHead A (jumps.map Jump.fn) x) (text : Mem Byte) :
    readBytes (jumpInstall jumps text) a n = readBytes text a n := by
  rw [jumpInstall_eq hA]
  refine readBytes_congr fun x hx => applyAll_of_not_covered ?_ text
  rw [covered_installPatches]
  exact h x hx

end Plugsched
