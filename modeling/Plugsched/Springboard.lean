/-
Leaving the `__schedule` of the module through that of the kernel, on x86-64.

A task that goes to sleep in the module's `__schedule` does not switch there.  The code
of `dynamic_springboard.patch` moves the stack pointer by the difference of the two frame
sizes and jumps to the `call __switch_to_asm` of the kernel's function, whose end the
task runs when it wakes up.  A task may therefore sleep while the scheduler is exchanged,
and `stack_check_init` leaves `__schedule` out.  `springboard_search.sh` reads the sizes
and the first pushed register off the disassembly.

* `getStackLayout_eq` — what the build compares;
* `Sleeping.entered` — a sleeping task has the frame that the kernel's function expects;
* `springboard_restores_iff` — when every task wakes up with its registers.
-/
import Mathlib.Data.BitVec
import Plugsched.SleepWake
import Plugsched.StackFrame

open Runs SleepWake StackFrame

namespace Plugsched

/-- The registers that a function of x86-64 preserves, the stack pointer apart. -/
inductive CalleeSaved where
  | rbx | rbp | r12 | r13 | r14 | r15
  deriving DecidableEq

/-! ### The search in the disassembly -/

/-- A line of `objdump -d`, as far as the script looks at it. -/
inductive AsmLine where
  | push (operand : CalleeSaved)
  | subRsp (size : ℕ)
  | other
  deriving DecidableEq

def AsmLine.pushed : AsmLine → Option CalleeSaved
  | .push operand => some operand
  | _ => none

def AsmLine.room : AsmLine → Option ℕ
  | .subRsp size => some size
  | _ => none

/-- `get_stack_size_x86_64`: the operand of the first `sub ..,%rsp`. -/
def getStackSize (asm : List AsmLine) : Option ℕ := asm.findSome? AsmLine.room

/-- `get_stack_layout_x86_64`.  The shell joins the lines, and `awk` leaves its only line at
the first `push`. -/
def getStackLayout (asm : List AsmLine) : Option CalleeSaved := asm.findSome? AsmLine.pushed

/-- A compiled `__schedule`: it pushes registers, all of them different, and then makes
room. -/
structure CompiledSchedule where
  asm : List AsmLine
  stackSize : ℕ
  size_eq : getStackSize asm = some stackSize
  nodup : ((asm.takeWhile fun line => line.room.isNone).filterMap AsmLine.pushed).Nodup

/-- The registers that are pushed before the room is made. -/
def CompiledSchedule.pushes (f : CompiledSchedule) : List CalleeSaved :=
  (f.asm.takeWhile fun line => line.room.isNone).filterMap AsmLine.pushed

/-- The test of `CHECK_STACK_LAYOUT`: `MODULE_FRAME_POINTER` is `VMLINUX_FRAME_POINTER`. -/
def checkStackLayout (vm mod : CompiledSchedule) : Bool :=
  getStackLayout mod.asm == getStackLayout vm.asm

theorem getStackLayout_eq (f : CompiledSchedule) (hne : f.pushes ≠ []) :
    getStackLayout f.asm = f.pushes.head? := by
  obtain ⟨r, rest, hpushes⟩ := List.exists_cons_of_ne_nil hne
  have hsplit := List.takeWhile_append_dropWhile
    (p := fun line : AsmLine => line.room.isNone) (l := f.asm)
  have hhead : (f.asm.takeWhile fun line => line.room.isNone).findSome? AsmLine.pushed =
      some r := by
    rw [← List.head?_filterMap]
    show f.pushes.head? = _
    rw [hpushes]
    rfl
  rw [getStackLayout, ← hsplit, List.findSome?_append, hhead, hpushes]
  rfl

/-! ### Sleeping and waking up -/

/-- A CPU, as far as the frames are concerned. -/
abbrev X86 := Cpu CalleeSaved (BitVec 64)

/-- From the call of `__schedule` to `__switch_to_asm`.  In the module's function
`add $(STACKSIZE_MOD - STACKSIZE_VMLINUX),%rsp` stands in front of the jump. -/
def Entered (vm mod : CompiledSchedule) (installed : Bool) (s s' : X86) : Prop :=
  if installed then
    ∃ s₁, Touched mod.pushes mod.stackSize (run (prologue mod.pushes mod.stackSize) s) s₁ ∧
      s' = (Insn.addRsp (mod.stackSize - vm.stackSize)).exec s₁
  else Touched vm.pushes vm.stackSize (run (prologue vm.pushes vm.stackSize) s) s'

/-- From the return of `__switch_to_asm` to that of the kernel's `__schedule`. -/
def Resumed (vm : CompiledSchedule) (s s' : X86) : Prop :=
  ∃ s₁, Touched vm.pushes vm.stackSize s s₁ ∧
    s' = run (epilogue vm.pushes vm.stackSize) s₁

/-! ### Equal frames -/

/-- The saved state has the frame that the kernel's function expects. -/
def Sleeping (vm : CompiledSchedule) (s₀ s : X86) : Prop :=
  Saved vm.pushes s₀ s ∧ s.rsp = frameTop vm.pushes vm.stackSize s₀

theorem Sleeping.restored {vm : CompiledSchedule} {s₀ s s₁ : X86} (h : Sleeping vm s₀ s)
    (hresume : Resumed vm s s₁) : Restored s₀ s₁ := by
  obtain ⟨s', htouch, rfl⟩ := hresume
  have hsaved := h.1.touched h.2 htouch
  exact hsaved.restored vm.nodup (htouch.rsp.trans h.2)

/-- The function that a task goes to sleep in leaves its own frame; the springboard moves
the stack pointer to where the kernel's function would have it. -/
theorem Sleeping.entered {vm mod : CompiledSchedule} (hpushes : mod.pushes = vm.pushes)
    {installed : Bool} {s₀ s : X86} (h : Entered vm mod installed s₀ s) : Sleeping vm s₀ s := by
  cases installed with
  | false =>
    have htouch : Touched vm.pushes vm.stackSize _ s := h
    obtain ⟨hsaved, hrsp⟩ := saved_prologue vm.pushes vm.stackSize s₀
    exact ⟨hsaved.touched hrsp htouch, htouch.rsp.trans hrsp⟩
  | true =>
    obtain ⟨s₁, htouch, rfl⟩ := h
    obtain ⟨hsaved, hrsp⟩ := saved_prologue mod.pushes mod.stackSize s₀
    have hsaved₁ := hsaved.touched hrsp htouch
    rw [hpushes] at hsaved₁ hrsp
    refine ⟨⟨hsaved₁.above, hsaved₁.slot, hsaved₁.others⟩, ?_⟩
    show s₁.rsp + _ = _
    rw [htouch.rsp, hpushes, hrsp, frameTop, frameTop]
    omega

/-! ### Different frames -/

/-- A value of its own for each register. -/
def tagged : CalleeSaved → BitVec 64
  | .rbx => 1
  | .rbp => 2
  | .r12 => 3
  | .r13 => 4
  | .r14 => 5
  | .r15 => 6

theorem tagged_injective : Function.Injective tagged := by
  intro r r' h
  cases r <;> cases r' <;> first | rfl | exact absurd h (by decide)

/-- A caller whose registers all differ. -/
def taggedCaller : X86 where
  regs := tagged
  rip := 0
  rsp := 0
  stack := fun _ => 0

/-- A task that sleeps in the module's function and does nothing else. -/
theorem pushes_eq_of_sleeper {vm mod : CompiledSchedule}
    (h : ∀ s s₁, Entered vm mod true taggedCaller s → Resumed vm s s₁ →
      Restored taggedCaller s₁) : mod.pushes = vm.pushes := by
  obtain ⟨hsaved, hrsp⟩ := saved_prologue mod.pushes mod.stackSize taggedCaller
  have hres := h _ _ ⟨_, Touched.refl _ _ _, rfl⟩ ⟨_, Touched.refl _ _ _, rfl⟩
  have hmoved : Saved mod.pushes taggedCaller
      ((Insn.addRsp (mod.stackSize - vm.stackSize)).exec
        (run (prologue mod.pushes mod.stackSize) taggedCaller)) :=
    ⟨hsaved.above, hsaved.slot, hsaved.others⟩
  refine pushes_eq_of_restored vm.nodup tagged_injective hmoved ?_ hres
  show (run _ taggedCaller).rsp + _ = _
  rw [hrsp, frameTop]
  omega

/-- **The springboard.**  Whatever the tasks do and whenever the scheduler is exchanged,
every task that wakes up gets its registers, its stack and its return address back, if
and only if the two functions push the same registers in the same order; the sizes of
their frames do not matter.  The build compares the first of these registers only. -/
theorem springboard_restores_iff (τ : Type*) [DecidableEq τ] [Inhabited τ]
    (vm mod : CompiledSchedule) :
    ((∀ tr w, Run (Switches (Entered vm mod) (Resumed vm)) (Sleepers.start τ X86) tr w →
      ∀ t s₀ s₁, Event.wake t s₀ s₁ ∈ tr → Restored s₀ s₁) ↔ mod.pushes = vm.pushes) ∧
    (vm.pushes ≠ [] → mod.pushes ≠ [] →
      (checkStackLayout vm mod = true ↔ mod.pushes.head? = vm.pushes.head?)) := by
  refine ⟨?_, ?_⟩
  · rw [wakes_iff]
    constructor
    · intro h
      exact pushes_eq_of_sleeper (h true taggedCaller)
    · intro hpushes installed s₀ s s₁ henter hresume
      exact (Sleeping.entered hpushes henter).restored hresume
  · intro hvm hmod
    rw [checkStackLayout, getStackLayout_eq vm hvm, getStackLayout_eq mod hmod, beq_iff_eq]

/-- A function that pushes two registers. -/
def twoPushes (r : CalleeSaved) (h : r ≠ .rbp) : CompiledSchedule where
  asm := [.push .rbp, .other, .push r, .subRsp 0x38, .other]
  stackSize := 0x38
  size_eq := rfl
  nodup := by
    show [CalleeSaved.rbp, r].Nodup
    simp [h.symm]

/-- The build accepts a module after which a task may wake up with the wrong registers. -/
theorem secondPush_not_checked :
    checkStackLayout (twoPushes .r15 (by decide)) (twoPushes .rbx (by decide)) = true ∧
      ∃ s s₁,
        Entered (twoPushes .r15 (by decide)) (twoPushes .rbx (by decide)) true taggedCaller s ∧
        Resumed (twoPushes .r15 (by decide)) s s₁ ∧ ¬ Restored taggedCaller s₁ := by
  refine ⟨by decide, ?_⟩
  by_contra hall
  push Not at hall
  have hpushes : [CalleeSaved.rbp, .rbx] = [.rbp, .r15] := pushes_eq_of_sleeper hall
  exact absurd hpushes (by decide)

end Plugsched
