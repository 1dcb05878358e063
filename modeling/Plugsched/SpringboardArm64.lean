/-
Leaving the `__schedule` of the module through that of the kernel, on arm64.

Here the springboard does not move the stack pointer only.  It loads all registers that a
function may have to save from the bottom of the module's frame, finds the kernel's frame
below the frame pointer of the caller, and stores them all at its bottom, before it jumps to
the `bl __switch_to` of the kernel's function.

* `springboard_run` — what the springboard does;
* `saved_springboard` — the frame that it makes is that of the kernel's function;
* `springboardArm64_restores_iff` — when every task wakes up with its registers.
-/
import Mathlib.Data.List.Perm.Subperm
import Plugsched.SleepWake
import Plugsched.SlotFrame

open Runs SleepWake SlotFrame

namespace Plugsched

/-- The registers that a function of arm64 preserves, the frame pointer and the link
register. -/
inductive Arm64Reg where
  | x19 | x20 | x21 | x22 | x23 | x24 | x25 | x26 | x27 | x28 | x29 | x30
  deriving DecidableEq

/-- The order of the slots that the springboard goes by. -/
def savedOrder : List Arm64Reg :=
  [.x29, .x30, .x19, .x20, .x21, .x22, .x23, .x24, .x25, .x26, .x27, .x28]

theorem mem_savedOrder (r : Arm64Reg) : r ∈ savedOrder := by
  cases r <;> decide

theorem nodup_savedOrder : savedOrder.Nodup := by decide

/-! ### The search in the disassembly -/

/-- A line of `objdump -d`, as far as the script looks at it; `frame` is
`stp x29, x30, [sp, #-size]!`. -/
inductive Arm64Line where
  | frame (size : ℕ)
  | stp (r r' : Arm64Reg)
  | str (r : Arm64Reg)
  | other
  deriving DecidableEq

def Arm64Line.room : Arm64Line → Option ℕ
  | .frame size => some size
  | _ => none

/-- The registers that are stored in the frame. -/
def Arm64Line.saved : Arm64Line → List Arm64Reg
  | .frame _ => [.x29, .x30]
  | .stp r r' => [r, r']
  | .str r => [r]
  | .other => []

/-- The word behind `stp`. -/
def Arm64Line.stpOperand : Arm64Line → Option Arm64Reg
  | .frame _ => some .x29
  | .stp r _ => some r
  | _ => none

/-- `get_stack_size_aarch64`.  There is no `quit` in `awk`: with a second such line the text
that is left is no number. -/
def getStackSizeAarch64 (asm : List Arm64Line) : Option ℕ :=
  match asm.filterMap Arm64Line.room with
  | [size] => some size
  | _ => none

/-- `get_stack_layout_aarch64`. -/
def getStackLayoutAarch64 (asm : List Arm64Line) : Option Arm64Reg :=
  asm.findSome? Arm64Line.stpOperand

/-- A compiled `__schedule`: it stores some of the registers in their order, one slot after
the other, in a frame whose size is a multiple of 16. -/
structure Arm64Schedule where
  asm : List Arm64Line
  stackSize : ℕ
  size_eq : getStackSizeAarch64 asm = some stackSize
  order : (asm.flatMap Arm64Line.saved).Sublist savedOrder
  fits : 8 * (asm.flatMap Arm64Line.saved).length ≤ stackSize
  aligned : 16 ∣ stackSize

def Arm64Schedule.saves (f : Arm64Schedule) : List Arm64Reg := f.asm.flatMap Arm64Line.saved

/-- The test of `CHECK_STACK_LAYOUT`, as on x86-64. -/
def checkStackLayoutAarch64 (vm mod : Arm64Schedule) : Bool :=
  getStackLayoutAarch64 mod.asm == getStackLayoutAarch64 vm.asm

namespace Arm64Schedule

variable (f : Arm64Schedule)

theorem nodup : f.saves.Nodup := f.order.nodup nodup_savedOrder

theorem frame_mem : Arm64Line.frame f.stackSize ∈ f.asm := by
  have hsize := f.size_eq
  rw [getStackSizeAarch64] at hsize
  split at hsize
  · next size hrooms =>
    obtain rfl := Option.some.inj hsize
    have hmem : f.stackSize ∈ f.asm.filterMap Arm64Line.room := hrooms ▸ List.mem_cons_self
    obtain ⟨line, hline, hroom⟩ := List.mem_filterMap.mp hmem
    cases line with
    | frame size' =>
      obtain rfl := Option.some.inj hroom
      exact hline
    | stp r r' | str r | other => cases hroom
  · cases hsize

/-- Nothing is stored below the frame record. -/
theorem exists_saves : ∃ front rest, f.asm = front ++ Arm64Line.frame f.stackSize :: rest ∧
    (∀ line ∈ front, line.saved = []) ∧
    f.saves = .x29 :: .x30 :: rest.flatMap Arm64Line.saved := by
  obtain ⟨front, rest, hasm⟩ := List.append_of_mem f.frame_mem
  have hsaves : f.saves = front.flatMap Arm64Line.saved ++
      (.x29 :: .x30 :: rest.flatMap Arm64Line.saved) := by
    rw [saves, hasm, List.flatMap_append, List.flatMap_cons]
    rfl
  have hfront : front.flatMap Arm64Line.saved = [] := by
    have horder := f.order
    change f.saves.Sublist savedOrder at horder
    rw [hsaves] at horder
    -- `x29` comes first in the order, so nothing can come before it
    rcases hcases : front.flatMap Arm64Line.saved with _ | ⟨r, rs⟩
    · rfl
    · rw [hcases] at horder
      have htail : (rs ++ (.x29 :: .x30 :: rest.flatMap Arm64Line.saved)).Sublist
          savedOrder.tail := horder.tail
      exact absurd (htail.subset (List.mem_append_right _ List.mem_cons_self)) (by decide)
  refine ⟨front, rest, hasm, fun line hline => ?_, ?_⟩
  · exact List.flatMap_eq_nil_iff.mp hfront line hline
  · rw [hsaves, hfront, List.nil_append]

/-- The first `stp` is that of the frame record. -/
theorem getStackLayout_eq : getStackLayoutAarch64 f.asm = some .x29 := by
  obtain ⟨front, rest, hasm, hfront, -⟩ := f.exists_saves
  have hnone : front.findSome? Arm64Line.stpOperand = none := by
    rw [List.findSome?_eq_none_iff]
    intro line hline
    have hsaved := hfront line hline
    cases line with
    | frame size | stp r r' => cases hsaved
    | str r | other => rfl
  rw [getStackLayoutAarch64, hasm, List.findSome?_append, hnone]
  rfl

theorem x29_mem : Arm64Reg.x29 ∈ f.saves := by
  obtain ⟨_, _, -, -, hsaves⟩ := f.exists_saves
  rw [hsaves]
  exact List.mem_cons_self

theorem getElem?_zero : f.saves[0]? = some .x29 := by
  obtain ⟨_, _, -, -, hsaves⟩ := f.exists_saves
  rw [hsaves]
  rfl

end Arm64Schedule

/-! ### Sleeping and waking up -/

/-- A CPU, as far as the frames are concerned. -/
abbrev Arm64 := Cpu Arm64Reg

/-- The code of `dynamic_springboard.patch` in front of the jump; `size` is
`STACKSIZE_VMLINUX`. -/
def springboardCode (size : ℕ) : List (Insn Arm64Reg) :=
  loadAll savedOrder 0 ++ (.setSp .x29 (-size) :: storeAll savedOrder 0)

def Arm64Schedule.enter (f : Arm64Schedule) (s : Arm64) : Arm64 :=
  run (prologue .x29 f.saves f.stackSize) s

/-- From the call of `__schedule` to `__switch_to`, by a caller whose frame record lies at the
bottom of its frame. -/
def EnteredArm64 (vm mod : Arm64Schedule) (installed : Bool) (s s' : Arm64) : Prop :=
  s.regs .x29 = s.sp ∧
    if installed then
      ∃ s₁, Touched mod.saves mod.stackSize (mod.enter s) s₁ ∧
        s' = run (springboardCode vm.stackSize) s₁
    else Touched vm.saves vm.stackSize (vm.enter s) s'

/-- From the return of `__switch_to` to that of the kernel's `__schedule`. -/
def ResumedArm64 (vm : Arm64Schedule) (s s' : Arm64) : Prop :=
  ∃ s₁, Touched vm.saves vm.stackSize s s₁ ∧
    s' = run (epilogue .x30 vm.saves vm.stackSize) s₁

/-! ### The springboard -/

theorem getElem?_of_initial {rs rs' : List Arm64Reg} (h : rs <+: rs') {i : ℕ} {r : Arm64Reg}
    (hi : rs[i]? = some r) : rs'[i]? = some r := by
  obtain ⟨hlt, rfl⟩ := List.getElem?_eq_some_iff.mp hi
  exact List.prefix_iff_getElem?.mp h i hlt

/-- The registers come from the frame of `s`, and go to the bottom of the one whose top is
in the frame pointer. -/
theorem springboard_run (size : ℕ) (s : Arm64) :
    ∃ s₁ s₂, Loaded savedOrder s.sp s s₁ ∧
      Stored savedOrder (s₁.regs .x29 - size) s₂ (run (springboardCode size) s) ∧
      s₂ = { s₁ with sp := s₁.regs .x29 - size } := by
  have hload := loaded_run nodup_savedOrder 0 s
  rw [Int.add_zero] at hload
  have hstore := stored_run savedOrder 0
    ((Insn.setSp .x29 (-size)).exec (run (loadAll savedOrder 0) s))
  rw [Int.add_zero] at hstore
  refine ⟨_, _, hload, ?_, rfl⟩
  rw [springboardCode, run_append]
  exact hstore

/-- A full frame of the module becomes one of the kernel's function. -/
theorem saved_springboard {vm : Arm64Schedule} {size : ℕ} {s₀ s : Arm64}
    (h : Saved savedOrder size s₀ s) (hfp : s₀.regs .x29 = s₀.sp)
    (hvm : vm.saves <+: savedOrder) (hroom : 8 * savedOrder.length ≤ vm.stackSize) :
    Saved vm.saves vm.stackSize s₀ (run (springboardCode vm.stackSize) s) := by
  obtain ⟨s₁, s₂, hload, hstore, hs₂⟩ := springboard_run vm.stackSize s
  have hregs : s₁.regs = s₀.regs := by
    funext r
    obtain ⟨i, hi⟩ := List.getElem?_of_mem (mem_savedOrder r)
    rw [hload.slot i r hi, h.slot i r hi]
  have hregs₂ : s₂.regs = s₀.regs := by
    rw [hs₂]
    exact hregs
  have hsp : (run (springboardCode vm.stackSize) s).sp = s₀.sp - vm.stackSize := by
    rw [hstore.sp, hs₂]
    show s₁.regs .x29 - _ = _
    rw [hregs, hfp]
  have hbottom : s₁.regs .x29 - vm.stackSize = s₀.sp - vm.stackSize := by
    rw [hregs, hfp]
  rw [hbottom] at hstore
  refine ⟨hsp, fun a ha => ?_, fun i r hi => ?_, fun r _ => ?_⟩
  · -- the stores end below the caller's frame
    rw [hstore.others a (.inr (by omega)), hs₂]
    show s₁.stack a = _
    rw [hload.stack, h.above a ha]
  · rw [hsp, hstore.slot i r (getElem?_of_initial hvm hi), hregs₂]
  · rw [hstore.regs, hregs₂]

/-! ### Which frames go together -/

/-- A value of its own for each register, none of them zero. -/
def arm64Tag : Arm64Reg → ℤ
  | .x19 => 19
  | .x20 => 20
  | .x21 => 21
  | .x22 => 22
  | .x23 => 23
  | .x24 => 24
  | .x25 => 25
  | .x26 => 26
  | .x27 => 27
  | .x28 => 28
  | .x29 => 29
  | .x30 => 30

theorem arm64Tag_injective : Function.Injective arm64Tag := by
  intro r r' h
  cases r <;> cases r' <;> first | rfl | exact absurd h (by decide)

theorem arm64Tag_ne_zero (r : Arm64Reg) : arm64Tag r ≠ 0 := by
  cases r <;> decide

/-- A caller whose registers all differ, with zeros on its stack. -/
def taggedArm64 : Arm64 where
  regs := arm64Tag
  pc := 0
  sp := 29
  stack := fun _ => 0

/-- What the springboard finds in a slot, if the module's function has done nothing else. -/
theorem stack_entered (mod : Arm64Schedule) (i : ℕ) :
    (mod.enter taggedArm64).stack ((mod.enter taggedArm64).sp + 8 * i) =
      (mod.saves[i]?).elim 0 arm64Tag := by
  have hsaved := saved_prologue mod.x29_mem mod.fits taggedArm64
  cases hi : mod.saves[i]? with
  | some r => exact hsaved.slot i r hi
  | none =>
    -- no slot: the stack is as the caller has left it
    obtain ⟨s₁, hstore, hrun⟩ := stored_prologue .x29 mod.saves mod.stackSize taggedArm64
    have hlen : mod.saves.length ≤ i := List.getElem?_eq_none_iff.mp hi
    have hother := hstore.others (taggedArm64.sp - mod.stackSize + 8 * i) (.inr (by omega))
    rw [Arm64Schedule.enter, hrun]
    exact hother

section Frames

variable {vm mod : Arm64Schedule}

/-- What one task that sleeps in the module's function shows of the two frames. -/
structure Shown (vm mod : Arm64Schedule) : Prop where
  slot : ∀ (i : ℕ) r, vm.saves[i]? = some r → mod.saves[i]? = some r
  others : ∀ r, r ∉ vm.saves → r ∈ mod.saves
  room : mod.saves = savedOrder → 8 * savedOrder.length ≤ vm.stackSize

theorem shown_of_sleeper (h : ∀ s s₁, EnteredArm64 vm mod true taggedArm64 s →
    ResumedArm64 vm s s₁ → Restored .x30 taggedArm64 s₁) : Shown vm mod := by
  have hres := h _ _ ⟨rfl, _, Touched.refl _ _ _, rfl⟩ ⟨_, Touched.refl _ _ _, rfl⟩
  obtain ⟨s₁, s₂, hload, hstore, hs₂⟩ := springboard_run vm.stackSize (mod.enter taggedArm64)
  -- the springboard has loaded what the slots held
  have hregs : ∀ (i : ℕ) r, savedOrder[i]? = some r →
      s₂.regs r = (mod.saves[i]?).elim 0 arm64Tag := by
    intro i r hi
    rw [hs₂]
    show s₁.regs r = _
    rw [hload.slot i r hi, stack_entered]
  have htag : ∀ {i : ℕ} {r : Arm64Reg}, (mod.saves[i]?).elim 0 arm64Tag = arm64Tag r →
      mod.saves[i]? = some r := by
    intro i r heq
    cases hi : mod.saves[i]? with
    | none =>
      rw [hi] at heq
      exact absurd heq.symm (arm64Tag_ne_zero r)
    | some r' =>
      rw [hi] at heq
      rw [arm64Tag_injective heq]
  have hfp : s₁.regs .x29 = 29 := by
    have hzero := hregs 0 .x29 rfl
    rw [mod.getElem?_zero, hs₂] at hzero
    exact hzero
  have hsp : (run (springboardCode vm.stackSize) (mod.enter taggedArm64)).sp =
      s₁.regs .x29 - vm.stackSize := by
    rw [hstore.sp, hs₂]
  refine ⟨fun i r hi => ?_, fun r hr => ?_, fun hall => ?_⟩
  · have hslot := slot_of_restored vm.nodup hres hi
    have hlt : i < savedOrder.length :=
      Nat.lt_of_lt_of_le (List.getElem?_eq_some_iff.mp hi).1 vm.order.length_le
    have horder := List.getElem?_eq_getElem hlt
    rw [hsp, hstore.slot i _ horder, hregs i _ horder] at hslot
    exact htag hslot
  · have hsame := regs_of_restored vm.nodup hres hr
    obtain ⟨i, hi⟩ := List.getElem?_of_mem (mem_savedOrder r)
    rw [hstore.regs, hregs i r hi] at hsame
    exact List.mem_of_getElem? (htag hsame)
  · by_contra hroom
    have hsmall : vm.stackSize ≤ 80 := by
      obtain ⟨k, hk⟩ := vm.aligned
      have hlen : savedOrder.length = 12 := rfl
      omega
    -- the last store is above the frame
    have habove := above_of_restored vm.nodup hres (a := s₁.regs .x29 - vm.stackSize + 8 * 11)
      (by
        show (29 : ℤ) ≤ _
        rw [hfp]
        omega)
    have hlast := hstore.slot 11 .x28 rfl
    rw [hregs 11 .x28 rfl, hall] at hlast
    exact arm64Tag_ne_zero .x28 (hlast.symm.trans habove)

theorem Shown.saves_eq (h : Shown vm mod) : mod.saves = savedOrder := by
  refine mod.order.eq_of_length_le (nodup_savedOrder.subperm fun r _ => ?_).length_le
  by_cases hr : r ∈ vm.saves
  · obtain ⟨i, hi⟩ := List.getElem?_of_mem hr
    exact List.mem_of_getElem? (h.slot i r hi)
  · exact h.others r hr

theorem Shown.initial (h : Shown vm mod) : vm.saves <+: savedOrder := by
  rw [List.prefix_iff_getElem?]
  intro i hi
  rw [← h.saves_eq]
  exact h.slot i _ (List.getElem?_eq_getElem hi)

end Frames

/-- **The springboard on arm64.**  Whatever the tasks do and whenever the scheduler is
exchanged, every task that wakes up gets its registers, its stack and its return address
back, if and only if the module's function saves all twelve registers, the kernel's saves an
initial segment of them, and its frame has room for all.  The build compares the first
register of each, which is always the frame pointer. -/
theorem springboardArm64_restores_iff (τ : Type*) [DecidableEq τ] [Inhabited τ]
    (vm mod : Arm64Schedule) :
    ((∀ tr w, Run (Switches (EnteredArm64 vm mod) (ResumedArm64 vm)) (Sleepers.start τ Arm64) tr w →
      ∀ t s₀ s₁, Event.wake t s₀ s₁ ∈ tr → Restored .x30 s₀ s₁) ↔
        mod.saves = savedOrder ∧ vm.saves <+: savedOrder ∧
          8 * savedOrder.length ≤ vm.stackSize) ∧
    checkStackLayoutAarch64 vm mod = true := by
  refine ⟨?_, ?_⟩
  · rw [wakes_iff]
    constructor
    · intro h
      have hshown := shown_of_sleeper (h true taggedArm64)
      exact ⟨hshown.saves_eq, hshown.initial, hshown.room hshown.saves_eq⟩
    · rintro ⟨hmod, hvm, hroom⟩ installed s₀ s s₁ ⟨hfp, henter⟩ ⟨s', htouch, rfl⟩
      have hsaved : Saved vm.saves vm.stackSize s₀ s := by
        cases installed with
        | false =>
          have hentered : Touched vm.saves vm.stackSize (vm.enter s₀) s := henter
          exact (saved_prologue vm.x29_mem vm.fits s₀).touched hentered
        | true =>
          obtain ⟨s₂, hbody, rfl⟩ := henter
          have hfull := (saved_prologue mod.x29_mem mod.fits s₀).touched hbody
          rw [hmod] at hfull
          exact saved_springboard hfull hfp hvm hroom
      exact (hsaved.touched htouch).restored vm.nodup
  · rw [checkStackLayoutAarch64, mod.getStackLayout_eq, vm.getStackLayout_eq, beq_self_eq_true]

/-- Twelve registers in a frame of 160 bytes. -/
def allSaved : Arm64Schedule where
  asm := [.frame 160, .other, .stp .x19 .x20, .stp .x21 .x22, .stp .x23 .x24, .stp .x25 .x26,
    .stp .x27 .x28, .other]
  stackSize := 160
  size_eq := rfl
  order := by decide
  fits := by decide
  aligned := by decide

/-- Five registers in a frame of 112 bytes. -/
def fiveSaved : Arm64Schedule where
  asm := [.frame 112, .other, .stp .x19 .x20, .str .x21, .other]
  stackSize := 112
  size_eq := rfl
  order := by decide
  fits := by decide
  aligned := by decide

/-- A kernel with five registers, and a module with all of them. -/
theorem springboardArm64_restores_iff_five :
    checkStackLayoutAarch64 fiveSaved allSaved = true ∧
      ∀ tr w, Run (Switches (EnteredArm64 fiveSaved allSaved) (ResumedArm64 fiveSaved))
        (Sleepers.start Bool Arm64) tr w →
      ∀ t s₀ s₁, Event.wake t s₀ s₁ ∈ tr → Restored .x30 s₀ s₁ := by
  obtain ⟨hrestores, hlayout⟩ := springboardArm64_restores_iff Bool fiveSaved allSaved
  exact ⟨hlayout, hrestores.mpr ⟨by decide, by decide, by decide⟩⟩

end Plugsched
