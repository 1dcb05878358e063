/-
Frames with slots at fixed places, on a stack that grows downwards.

A function moves the stack pointer once, stores the registers it is going to use from the
bottom of its frame upwards, and loads them again before it returns to an address that it
has in a register.  Registers are arbitrary; they hold addresses, and a word has eight bytes.

* `stored_run`, `loaded_run` — what storing and loading a list of registers does;
* `saved_prologue`, `Saved.touched`, `Saved.restored` — a frame through the life of a call;
* `slot_of_restored`, `regs_of_restored`, `above_of_restored` — where the end of a function
  has found what it gives back.
-/
import Mathlib.Data.Int.Order.Basic
import Mathlib.Data.List.Nodup
import Mathlib.Logic.Function.Basic

namespace SlotFrame

/-- The registers that a function has to preserve, and the stack. -/
structure Cpu (ρ : Type*) where
  regs : ρ → ℤ
  pc : ℤ
  sp : ℤ
  stack : ℤ → ℤ

inductive Insn (ρ : Type*) where
  | str (r : ρ) (o : ℤ)
  | ldr (r : ρ) (o : ℤ)
  | addSp (n : ℤ)
  | getSp (r : ρ)
  | setSp (r : ρ) (n : ℤ)
  | ret (r : ρ)

variable {ρ : Type*} [DecidableEq ρ]

def Insn.exec : Insn ρ → Cpu ρ → Cpu ρ
  | .str r o, s => { s with stack := Function.update s.stack (s.sp + o) (s.regs r) }
  | .ldr r o, s => { s with regs := Function.update s.regs r (s.stack (s.sp + o)) }
  | .addSp n, s => { s with sp := s.sp + n }
  | .getSp r, s => { s with regs := Function.update s.regs r s.sp }
  | .setSp r n, s => { s with sp := s.regs r + n }
  | .ret r, s => { s with pc := s.regs r }

def run (code : List (Insn ρ)) (s : Cpu ρ) : Cpu ρ := code.foldl (fun s i => i.exec s) s

theorem run_append (code code' : List (Insn ρ)) (s : Cpu ρ) :
    run (code ++ code') s = run code' (run code s) :=
  List.foldl_append

/-- Store registers from the offset `o` on. -/
def storeAll : List ρ → ℤ → List (Insn ρ)
  | [], _ => []
  | r :: rs, o => .str r o :: storeAll rs (o + 8)

/-- Load registers from the offset `o` on. -/
def loadAll : List ρ → ℤ → List (Insn ρ)
  | [], _ => []
  | r :: rs, o => .ldr r o :: loadAll rs (o + 8)

/-! ### Storing and loading -/

/-- What storing registers from the address `a` on does. -/
structure Stored (rs : List ρ) (a : ℤ) (s s' : Cpu ρ) : Prop where
  regs : s'.regs = s.regs
  pc : s'.pc = s.pc
  sp : s'.sp = s.sp
  slot : ∀ (i : ℕ) r, rs[i]? = some r → s'.stack (a + 8 * i) = s.regs r
  others : ∀ x, (x < a ∨ a + 8 * rs.length ≤ x) → s'.stack x = s.stack x

theorem stored_run (rs : List ρ) (o : ℤ) (s : Cpu ρ) :
    Stored rs (s.sp + o) s (run (storeAll rs o) s) := by
  induction rs generalizing o s with
  | nil => exact ⟨rfl, rfl, rfl, by simp, fun _ _ => rfl⟩
  | cons r rs ih =>
    have h := ih (o + 8) ((Insn.str r o).exec s)
    have hrun : run (storeAll (r :: rs) o) s =
        run (storeAll rs (o + 8)) ((Insn.str r o).exec s) := rfl
    have hsp : ((Insn.str r o).exec s).sp = s.sp := rfl
    rw [hsp] at h
    rw [hrun]
    refine ⟨h.regs, h.pc, h.sp, fun i r' hi => ?_, fun x hx => ?_⟩
    · cases i with
      | zero =>
        -- the first register lies below the others
        obtain rfl : r = r' := by simpa using hi
        rw [h.others _ (by omega)]
        show Function.update s.stack (s.sp + o) (s.regs r) _ = _
        simp
      | succ i =>
        have hslot := h.slot i r' (by simpa using hi)
        have haddr : s.sp + o + 8 * ((i + 1 : ℕ) : ℤ) = s.sp + (o + 8) + 8 * i := by omega
        rw [haddr, hslot]
        rfl
    · rw [List.length_cons] at hx
      have hne : x ≠ s.sp + o := by omega
      rw [h.others x (by omega)]
      exact Function.update_of_ne hne _ _

/-- What loading registers from the address `a` on does. -/
structure Loaded (rs : List ρ) (a : ℤ) (s s' : Cpu ρ) : Prop where
  pc : s'.pc = s.pc
  sp : s'.sp = s.sp
  stack : s'.stack = s.stack
  slot : ∀ (i : ℕ) r, rs[i]? = some r → s'.regs r = s.stack (a + 8 * i)
  others : ∀ r, r ∉ rs → s'.regs r = s.regs r

theorem loaded_run {rs : List ρ} (hnd : rs.Nodup) (o : ℤ) (s : Cpu ρ) :
    Loaded rs (s.sp + o) s (run (loadAll rs o) s) := by
  induction rs generalizing o s with
  | nil => exact ⟨rfl, rfl, rfl, by simp, fun _ _ => rfl⟩
  | cons r rs ih =>
    obtain ⟨hnot, hnd⟩ := List.nodup_cons.mp hnd
    have h := ih hnd (o + 8) ((Insn.ldr r o).exec s)
    have hrun : run (loadAll (r :: rs) o) s =
        run (loadAll rs (o + 8)) ((Insn.ldr r o).exec s) := rfl
    have hsp : ((Insn.ldr r o).exec s).sp = s.sp := rfl
    rw [hsp] at h
    rw [hrun]
    refine ⟨h.pc, h.sp, h.stack, fun i r' hi => ?_, fun r' hr' => ?_⟩
    · cases i with
      | zero =>
        -- the rest does not load this register again
        obtain rfl : r = r' := by simpa using hi
        rw [h.others r hnot]
        show Function.update s.regs r (s.stack (s.sp + o)) r = _
        simp
      | succ i =>
        have hslot := h.slot i r' (by simpa using hi)
        have haddr : s.sp + o + 8 * ((i + 1 : ℕ) : ℤ) = s.sp + (o + 8) + 8 * i := by omega
        rw [haddr, hslot]
        rfl
    · rw [List.mem_cons, not_or] at hr'
      rw [h.others r' hr'.2]
      exact Function.update_of_ne hr'.1 _ _

/-! ### Frames -/

/-- Make room, store the registers, and point the frame pointer to them. -/
def prologue (fp : ρ) (rs : List ρ) (size : ℕ) : List (Insn ρ) :=
  .addSp (-size) :: (storeAll rs 0 ++ [.getSp fp])

/-- Load the registers, give the room back, and return to the address in `lr`. -/
def epilogue (lr : ρ) (rs : List ρ) (size : ℕ) : List (Insn ρ) :=
  loadAll rs 0 ++ [.addSp size, .ret lr]

/-- The stack of `s` holds the registers `rs` as they were in `s₀`, from the bottom of a frame
of this size on, and all of its caller's stack; the other registers have not changed. -/
structure Saved (rs : List ρ) (size : ℕ) (s₀ s : Cpu ρ) : Prop where
  sp : s.sp = s₀.sp - size
  above : ∀ a, s₀.sp ≤ a → s.stack a = s₀.stack a
  slot : ∀ (i : ℕ) r, rs[i]? = some r → s.stack (s.sp + 8 * i) = s₀.regs r
  others : ∀ r, r ∉ rs → s.regs r = s₀.regs r

/-- What the code between the beginning and the end of a function may do: it keeps to its
room and to the registers it has saved. -/
structure Touched (rs : List ρ) (size : ℕ) (s s' : Cpu ρ) : Prop where
  sp : s'.sp = s.sp
  above : ∀ a, s.sp + size ≤ a → s'.stack a = s.stack a
  slot : ∀ i < rs.length, s'.stack (s.sp + 8 * i) = s.stack (s.sp + 8 * i)
  others : ∀ r, r ∉ rs → s'.regs r = s.regs r

/-- The caller goes on as if the call had not been. -/
structure Restored (lr : ρ) (s₀ s : Cpu ρ) : Prop where
  regs : s.regs = s₀.regs
  pc : s.pc = s₀.regs lr
  sp : s.sp = s₀.sp
  above : ∀ a, s₀.sp ≤ a → s.stack a = s₀.stack a

variable {fp lr r : ρ} {rs : List ρ} {size : ℕ} {s₀ s s' : Cpu ρ}

omit [DecidableEq ρ] in
theorem Touched.refl (rs : List ρ) (size : ℕ) (s : Cpu ρ) : Touched rs size s s :=
  ⟨rfl, fun _ _ => rfl, fun _ _ => rfl, fun _ _ => rfl⟩

/-- All of the stack after the beginning of a function. -/
theorem stored_prologue (fp : ρ) (rs : List ρ) (size : ℕ) (s : Cpu ρ) :
    ∃ s₁, Stored rs (s.sp - size) s s₁ ∧
      run (prologue fp rs size) s = (Insn.getSp fp).exec { s₁ with sp := s.sp - size } := by
  have h := stored_run rs 0 ((Insn.addSp (-size)).exec s)
  have hsp : ((Insn.addSp (-size)).exec s).sp + 0 = s.sp - size := by
    show s.sp + -(size : ℤ) + 0 = _
    omega
  rw [hsp] at h
  refine ⟨{ run (storeAll rs 0) ((Insn.addSp (-size)).exec s) with sp := s.sp },
    ⟨h.regs, h.pc, rfl, h.slot, h.others⟩, ?_⟩
  have hend : (run (storeAll rs 0) ((Insn.addSp (-size)).exec s)).sp = s.sp - size := by
    rw [h.sp]
    show s.sp + -(size : ℤ) = _
    omega
  show run (storeAll rs 0 ++ [.getSp fp]) ((Insn.addSp (-size)).exec s) = _
  rw [run_append]
  show (Insn.getSp fp).exec (run (storeAll rs 0) ((Insn.addSp (-size)).exec s)) = _
  congr 1
  rw [← hend]

theorem saved_prologue (hfp : fp ∈ rs) (hfits : 8 * rs.length ≤ size) (s : Cpu ρ) :
    Saved rs size s (run (prologue fp rs size) s) := by
  obtain ⟨s₁, h, hrun⟩ := stored_prologue fp rs size s
  rw [hrun]
  refine ⟨rfl, fun a ha => h.others a ?_, h.slot, fun r hr => ?_⟩
  · right
    omega
  · have hne : r ≠ fp := fun heq => hr (heq ▸ hfp)
    show Function.update s₁.regs fp _ r = _
    rw [Function.update_of_ne hne, h.regs]

omit [DecidableEq ρ] in
theorem Saved.touched (h : Saved rs size s₀ s) (ht : Touched rs size s s') :
    Saved rs size s₀ s' := by
  have hsp := h.sp
  refine ⟨ht.sp.trans h.sp, fun a ha => ?_, fun i r hi => ?_, fun r hr => ?_⟩
  · rw [ht.above a (by omega), h.above a ha]
  · have hlt := (List.getElem?_eq_some_iff.mp hi).1
    rw [ht.sp, ht.slot i hlt, h.slot i r hi]
  · rw [ht.others r hr, h.others r hr]

/-- The state in front of `ret`. -/
theorem loaded_epilogue (hnd : rs.Nodup) (lr : ρ) (size : ℕ) (s : Cpu ρ) :
    ∃ s₁, Loaded rs s.sp s s₁ ∧
      run (epilogue lr rs size) s = { s₁ with sp := s.sp + size, pc := s₁.regs lr } := by
  have h := loaded_run hnd 0 s
  rw [Int.add_zero] at h
  refine ⟨run (loadAll rs 0) s, h, ?_⟩
  rw [epilogue, run_append, ← h.sp]
  rfl

theorem Saved.restored (h : Saved rs size s₀ s) (hnd : rs.Nodup) :
    Restored lr s₀ (run (epilogue lr rs size) s) := by
  obtain ⟨s₁, hload, hrun⟩ := loaded_epilogue hnd lr size s
  have hregs : s₁.regs = s₀.regs := by
    funext r
    by_cases hr : r ∈ rs
    · obtain ⟨i, hi⟩ := List.getElem?_of_mem hr
      rw [hload.slot i r hi, h.slot i r hi]
    · rw [hload.others r hr, h.others r hr]
  rw [hrun]
  refine ⟨hregs, congrFun hregs lr, ?_, fun a ha => ?_⟩
  · show s.sp + size = _
    rw [h.sp]
    omega
  · show s₁.stack a = _
    rw [hload.stack, h.above a ha]

/-! ### What an end gives back -/

/-- A register of the frame was in its slot. -/
theorem slot_of_restored (hnd : rs.Nodup) (h : Restored lr s₀ (run (epilogue lr rs size) s))
    {i : ℕ} (hi : rs[i]? = some r) : s.stack (s.sp + 8 * i) = s₀.regs r := by
  obtain ⟨s₁, hload, hrun⟩ := loaded_epilogue hnd lr size s
  rw [hrun] at h
  rw [← h.regs, ← hload.slot i r hi]

/-- Another register was not changed at all. -/
theorem regs_of_restored (hnd : rs.Nodup) (h : Restored lr s₀ (run (epilogue lr rs size) s))
    (hr : r ∉ rs) : s.regs r = s₀.regs r := by
  obtain ⟨s₁, hload, hrun⟩ := loaded_epilogue hnd lr size s
  rw [hrun] at h
  rw [← h.regs, ← hload.others r hr]

/-- The stack of the caller was as it is. -/
theorem above_of_restored (hnd : rs.Nodup) (h : Restored lr s₀ (run (epilogue lr rs size) s))
    {a : ℤ} (ha : s₀.sp ≤ a) : s.stack a = s₀.stack a := by
  obtain ⟨s₁, hload, hrun⟩ := loaded_epilogue hnd lr size s
  rw [hrun] at h
  rw [← h.above a ha, ← hload.stack]

end SlotFrame
