/-
Frames on a stack that grows downwards.

A function pushes the registers it is going to use, makes room, and undoes both before
it returns.  Registers and words are arbitrary; a word has eight bytes.

* `saved_prologue` — what the beginning of a function leaves on the stack;
* `Saved.touched` — the rest of the function does not disturb it;
* `Saved.restored` — the end of a function that pushes the same registers undoes it;
* `pushes_eq_of_restored` — no other end does, whatever the registers held.
-/
import Mathlib.Data.Int.Order.Basic
import Mathlib.Data.List.Nodup
import Mathlib.Logic.Function.Basic

namespace StackFrame

/-- The registers that a function has to preserve, and the stack. -/
structure Cpu (ρ ω : Type*) where
  regs : ρ → ω
  rip : ω
  rsp : ℤ
  stack : ℤ → ω

inductive Insn (ρ : Type*) where
  | push (r : ρ)
  | pop (r : ρ)
  | addRsp (n : ℤ)
  | ret

variable {ρ ω : Type*} [DecidableEq ρ]

def Insn.exec : Insn ρ → Cpu ρ ω → Cpu ρ ω
  | .push r, s =>
    { s with rsp := s.rsp - 8, stack := Function.update s.stack (s.rsp - 8) (s.regs r) }
  | .pop r, s => { s with regs := Function.update s.regs r (s.stack s.rsp), rsp := s.rsp + 8 }
  | .addRsp n, s => { s with rsp := s.rsp + n }
  | .ret, s => { s with rip := s.stack s.rsp, rsp := s.rsp + 8 }

def run (code : List (Insn ρ)) (s : Cpu ρ ω) : Cpu ρ ω := code.foldl (fun s i => i.exec s) s

theorem run_append (code code' : List (Insn ρ)) (s : Cpu ρ ω) :
    run (code ++ code') s = run code' (run code s) :=
  List.foldl_append

/-- Push the registers and make room for `size` bytes. -/
def prologue (rs : List ρ) (size : ℕ) : List (Insn ρ) := rs.map .push ++ [.addRsp (-size)]

/-- Give the room back, pop the registers and return. -/
def epilogue (rs : List ρ) (size : ℕ) : List (Insn ρ) :=
  .addRsp size :: (rs.reverse.map .pop ++ [.ret])

/-! ### Pushing and popping -/

/-- What pushing registers does. -/
structure Pushed (rs : List ρ) (s s' : Cpu ρ ω) : Prop where
  regs : s'.regs = s.regs
  rsp : s'.rsp = s.rsp - 8 * rs.length
  above : ∀ a, s.rsp ≤ a → s'.stack a = s.stack a
  slot : ∀ (i : ℕ) r, rs[i]? = some r → s'.stack (s.rsp - 8 * (i + 1)) = s.regs r

theorem pushed_run (rs : List ρ) (s : Cpu ρ ω) : Pushed rs s (run (rs.map .push) s) := by
  induction rs generalizing s with
  | nil => exact ⟨rfl, by simp [run], fun _ _ => rfl, by simp⟩
  | cons r rs ih =>
    have h := ih ((Insn.push r).exec s)
    have hrsp : ((Insn.push r).exec s).rsp = s.rsp - 8 := rfl
    refine ⟨h.regs, ?_, fun a ha => ?_, fun i r' hi => ?_⟩
    · show (run (rs.map .push) ((Insn.push r).exec s)).rsp = _
      rw [h.rsp, hrsp, List.length_cons]
      omega
    · have hne : a ≠ s.rsp - 8 := by omega
      show (run (rs.map .push) ((Insn.push r).exec s)).stack a = _
      rw [h.above a (by omega)]
      exact Function.update_of_ne hne _ _
    · show (run (rs.map .push) ((Insn.push r).exec s)).stack _ = _
      cases i with
      | zero =>
        -- the first register lies right below the old top
        obtain rfl : r = r' := by simpa using hi
        rw [h.above _ (by omega)]
        exact Function.update_self _ _ _
      | succ i =>
        have hslot : (run (rs.map .push) ((Insn.push r).exec s)).stack
            (s.rsp - 8 - 8 * (i + 1)) = s.regs r' := h.slot i r' (by simpa using hi)
        rw [← hslot]
        congr 1
        omega

/-- What popping registers does. -/
structure Popped (rs : List ρ) (s s' : Cpu ρ ω) : Prop where
  stack : s'.stack = s.stack
  rsp : s'.rsp = s.rsp + 8 * rs.length
  slot : ∀ (i : ℕ) r, rs[i]? = some r → s'.regs r = s.stack (s.rsp + 8 * i)
  others : ∀ r, r ∉ rs → s'.regs r = s.regs r

theorem popped_run {rs : List ρ} (hnd : rs.Nodup) (s : Cpu ρ ω) :
    Popped rs s (run (rs.map .pop) s) := by
  induction rs generalizing s with
  | nil => exact ⟨rfl, by simp [run], by simp, fun _ _ => rfl⟩
  | cons r rs ih =>
    obtain ⟨hnot, hnd⟩ := List.nodup_cons.mp hnd
    have h := ih hnd ((Insn.pop r).exec s)
    have hrsp : ((Insn.pop r).exec s).rsp = s.rsp + 8 := rfl
    refine ⟨h.stack, ?_, fun i r' hi => ?_, fun r' hr' => ?_⟩
    · show (run (rs.map .pop) ((Insn.pop r).exec s)).rsp = _
      rw [h.rsp, hrsp, List.length_cons]
      omega
    · show (run (rs.map .pop) ((Insn.pop r).exec s)).regs r' = _
      cases i with
      | zero =>
        -- the rest does not pop this register again
        obtain rfl : r = r' := by simpa using hi
        rw [h.others r hnot]
        show Function.update s.regs r (s.stack s.rsp) r = _
        rw [Function.update_self]
        simp
      | succ i =>
        rw [h.slot i r' (by simpa using hi), hrsp]
        show s.stack _ = _
        congr 1
        omega
    · rw [List.mem_cons, not_or] at hr'
      show (run (rs.map .pop) ((Insn.pop r).exec s)).regs r' = _
      rw [h.others r' hr'.2]
      exact Function.update_of_ne hr'.1 _ _

/-! ### Frames -/

/-- The stack of `s` holds the registers `rs` as they were in `s₀`, and all of its caller's
stack; the other registers have not changed. -/
structure Saved (rs : List ρ) (s₀ s : Cpu ρ ω) : Prop where
  above : ∀ a, s₀.rsp ≤ a → s.stack a = s₀.stack a
  slot : ∀ (i : ℕ) r, rs[i]? = some r → s.stack (s₀.rsp - 8 * (i + 1)) = s₀.regs r
  others : ∀ r, r ∉ rs → s.regs r = s₀.regs r

/-- Where a function with such a frame has the stack pointer. -/
def frameTop (rs : List ρ) (size : ℕ) (s₀ : Cpu ρ ω) : ℤ := s₀.rsp - 8 * rs.length - size

theorem saved_prologue (rs : List ρ) (size : ℕ) (s : Cpu ρ ω) :
    Saved rs s (run (prologue rs size) s) ∧
      (run (prologue rs size) s).rsp = frameTop rs size s := by
  have h := pushed_run rs s
  rw [prologue, run_append]
  refine ⟨⟨h.above, h.slot, fun r _ => congrFun h.regs r⟩, ?_⟩
  show (run (rs.map .push) s).rsp + -(size : ℤ) = _
  rw [h.rsp, frameTop]
  omega

/-- What the code between the beginning and the end of a function may do: it keeps to its
room and to the registers it has saved. -/
structure Touched (rs : List ρ) (size : ℕ) (s s' : Cpu ρ ω) : Prop where
  rsp : s'.rsp = s.rsp
  above : ∀ a, s.rsp + size ≤ a → s'.stack a = s.stack a
  others : ∀ r, r ∉ rs → s'.regs r = s.regs r

omit [DecidableEq ρ] in
theorem Touched.refl (rs : List ρ) (size : ℕ) (s : Cpu ρ ω) : Touched rs size s s :=
  ⟨rfl, fun _ _ => rfl, fun _ _ => rfl⟩

variable {rs rs' : List ρ} {size size' : ℕ} {s₀ s s' : Cpu ρ ω}

omit [DecidableEq ρ] in
theorem Saved.touched (h : Saved rs s₀ s) (hrsp : s.rsp = frameTop rs size s₀)
    (ht : Touched rs size s s') : Saved rs s₀ s' := by
  rw [frameTop] at hrsp
  refine ⟨fun a ha => ?_, fun i r hi => ?_, fun r hr => ?_⟩
  · rw [ht.above a (by omega), h.above a ha]
  · have hlt : i < rs.length := (List.getElem?_eq_some_iff.mp hi).1
    rw [ht.above _ (by omega), h.slot i r hi]
  · rw [ht.others r hr, h.others r hr]

/-- The caller goes on as if the call had not been. -/
structure Restored (s₀ s : Cpu ρ ω) : Prop where
  regs : s.regs = s₀.regs
  rip : s.rip = s₀.stack s₀.rsp
  rsp : s.rsp = s₀.rsp + 8
  above : ∀ a, s₀.rsp ≤ a → s.stack a = s₀.stack a

/-- The state in front of `ret`. -/
theorem popped_epilogue (hnd : rs.Nodup) (size : ℕ) (s : Cpu ρ ω) :
    ∃ s₁, Popped rs.reverse ((Insn.addRsp size).exec s) s₁ ∧
      run (epilogue rs size) s = Insn.ret.exec s₁ := by
  refine ⟨_, popped_run (List.nodup_reverse.mpr hnd) _, ?_⟩
  show run (rs.reverse.map .pop ++ [.ret]) ((Insn.addRsp size).exec s) = _
  rw [run_append]
  rfl

omit [DecidableEq ρ] in
/-- A register of the frame comes from its slot, counted from the other end. -/
theorem Popped.slot_reverse {s₁ : Cpu ρ ω} (h : Popped rs.reverse s s₁) {i : ℕ} {r : ρ}
    (hi : rs[i]? = some r) : s₁.regs r = s.stack (s.rsp + 8 * rs.length - 8 * (i + 1)) := by
  have hlt : i < rs.length := (List.getElem?_eq_some_iff.mp hi).1
  have hrev : rs.reverse[rs.length - 1 - i]? = some r := by
    rw [List.getElem?_reverse (by omega)]
    rw [← hi]
    congr 1
    omega
  rw [h.slot _ r hrev]
  congr 1
  omega

theorem Saved.restored (h : Saved rs s₀ s) (hnd : rs.Nodup)
    (hrsp : s.rsp = frameTop rs size s₀) : Restored s₀ (run (epilogue rs size) s) := by
  obtain ⟨s₁, hpop, hrun⟩ := popped_epilogue hnd size s
  have htop : ((Insn.addRsp size).exec s).rsp + 8 * rs.length = s₀.rsp := by
    show s.rsp + size + _ = _
    rw [hrsp, frameTop]
    omega
  have hend : s₁.rsp = s₀.rsp := by
    rw [hpop.rsp, List.length_reverse, htop]
  have hstack : s₁.stack = s.stack := hpop.stack
  rw [hrun]
  refine ⟨funext fun r => ?_, ?_, ?_, fun a ha => ?_⟩
  · show s₁.regs r = _
    by_cases hr : r ∈ rs
    · obtain ⟨i, hi⟩ := List.getElem?_of_mem hr
      rw [hpop.slot_reverse hi, htop]
      exact h.slot i r hi
    · rw [hpop.others r (fun hrev => hr (List.mem_reverse.mp hrev))]
      exact h.others r hr
  · show s₁.stack s₁.rsp = _
    rw [hstack, hend]
    exact h.above _ le_rfl
  · show s₁.rsp + 8 = _
    rw [hend]
  · show s₁.stack a = _
    rw [hstack]
    exact h.above a ha

/-- An end that restores a state whose registers all differ pops the registers that were
pushed. -/
theorem pushes_eq_of_restored (hnd' : rs'.Nodup) (hinj : Function.Injective s₀.regs)
    (h : Saved rs s₀ s) (hrsp : s.rsp = s₀.rsp - 8 * rs.length - size')
    (hres : Restored s₀ (run (epilogue rs' size') s)) : rs = rs' := by
  obtain ⟨s₁, hpop, hrun⟩ := popped_epilogue hnd' size' s
  rw [hrun] at hres
  have hrsp₁ : ((Insn.addRsp size').exec s).rsp = s₀.rsp - 8 * rs.length := by
    show s.rsp + size' = _
    rw [hrsp]
    omega
  have hlen : rs.length = rs'.length := by
    have hend : s₁.rsp + 8 = s₀.rsp + 8 := hres.rsp
    rw [hpop.rsp, List.length_reverse, hrsp₁] at hend
    omega
  refine List.ext_getElem hlen fun i hi hi' => ?_
  -- both lists account for what slot `i` holds
  have hread := hpop.slot_reverse (List.getElem?_eq_getElem hi')
  rw [hrsp₁, ← hlen] at hread
  have hslot := h.slot i rs[i] (List.getElem?_eq_getElem hi)
  have heq : s₀.regs rs'[i] = s₀.regs rs[i] := by
    rw [← hslot, ← hres.regs]
    show s₁.regs rs'[i] = _
    rw [hread]
    show s.stack _ = _
    congr 1
    omega
  exact (hinj heq).symm

end StackFrame
