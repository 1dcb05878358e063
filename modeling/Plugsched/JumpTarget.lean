/-
Where the installed jumps of x86-64 go.

`JUMP_INIT_FUNC` stores the distance from the end of the head to the module function
in a signed 32-bit field.  The kernel text and the modules lie in two fixed areas,
next to each other at the top of the address space.

* `displacement_fits` — the distance between the two areas fits the field;
* `callTarget_jump` — the field read as the hook check reads it;
* `jumpInstall_redirects` — what `jump_install` writes, for a whole list of functions.
-/
import Mathlib.Algebra.Order.Ring.Int
import Plugsched.HookedHeads

open ByteMem ExceptRules

namespace Plugsched

/-- The mapping of the kernel text on x86-64. -/
def kernelText : Set ℕ := Set.Ico 0xffffffff80000000 0xffffffffc0000000

/-- The area into which x86-64 loads modules. -/
def moduleArea : Set ℕ := Set.Ico 0xffffffffc0000000 0xffffffffff000000

/-- An `int` can hold the value. -/
def FitsInt (d : ℤ) : Prop := -2 ^ 31 ≤ d ∧ d < 2 ^ 31

/-- `(long)mod - (long)orig - HEAD_LEN`. -/
def ExportFn.displacement (f : ExportFn) : ℤ := (f.mod : ℤ) - f.orig - 5

theorem displacement_fits {f : ExportFn} (horig : f.orig ∈ kernelText)
    (hmod : f.mod ∈ moduleArea) : FitsInt f.displacement := by
  obtain ⟨horigle, horiglt⟩ := horig
  obtain ⟨hmodle, hmodlt⟩ := hmod
  rw [ExportFn.displacement]
  constructor <;> omega

theorem toInt_ofInt_of_fits {d : ℤ} (h : FitsInt d) :
    (BitVec.ofInt 32 d).toInt = d := by
  obtain ⟨hle, hlt⟩ := h
  rw [BitVec.toInt_ofInt]
  refine Int.bmod_eq_of_le ?_ ?_
  · omega
  · omega

/-- What `JUMP_INIT_FUNC` stores on x86-64. -/
theorem jumpInitFunc_storeJump {fentry : ℕ} {text : Mem Byte} {f : ExportFn}
    {j : Jump (.x86_64 fentry)} (h : jumpInitFunc (.x86_64 fentry) text f = .ok j) :
    j.storeJump = 0xe9 :: leBytes (BitVec.ofInt 32 j.fn.displacement) := by
  rw [jumpInitFunc] at h
  split at h
  · cases h
  · obtain rfl := Except.ok.inj h
    rfl

theorem jumpInitAll_storeJump {fentry : ℕ} {fns : List ExportFn} {text : Mem Byte}
    {jumps : List (Jump (.x86_64 fentry))} (h : jumpInitAll (.x86_64 fentry) fns text = .ok jumps) :
    ∀ j ∈ jumps, j.storeJump = 0xe9 :: leBytes (BitVec.ofInt 32 j.fn.displacement) := by
  have hall := mapM_ok_forall₂ h
  clear h
  induction hall with
  | nil => simp
  | cons hj _ ih => exact List.forall_mem_cons.mpr ⟨jumpInitFunc_storeJump hj, ih⟩

/-- The stored field, sign-extended and added to the end of the head, is the function. -/
theorem callTarget_jump {f : ExportFn}
    (hfits : FitsInt f.displacement) :
    callTarget f.orig (0xe9 :: leBytes (BitVec.ofInt 32 f.displacement)) =
      BitVec.ofNat 64 f.mod := by
  have hsum : ((f.orig + 5 : ℕ) : ℤ) + f.displacement = f.mod := by
    rw [ExportFn.displacement]
    push_cast
    omega
  calc callTarget f.orig (0xe9 :: leBytes (BitVec.ofInt 32 f.displacement))
      = BitVec.ofNat 64 (f.orig + 5) +
          (leWord (leBytes (BitVec.ofInt 32 f.displacement))).signExtend 64 := rfl
    _ = BitVec.ofInt 64 (f.orig + 5 : ℕ) + BitVec.ofInt 64 f.displacement := by
        rw [leWord_leBytes, BitVec.signExtend, toInt_ofInt_of_fits hfits, BitVec.ofInt_natCast]
    _ = BitVec.ofNat 64 f.mod := by
        rw [← BitVec.ofInt_add, hsum, BitVec.ofInt_natCast]

theorem separateHeads_of_headsApart {fentry : ℕ} {fns : List ExportFn} (h : HeadsApart fns) :
    SeparateHeads (.x86_64 fentry) fns where
  writable := fun _ _ => rfl
  apart := h

/-- On x86-64 the displacement of every function fits its field; after a successful
`jump_init_all` a call of a redirected function reaches the function of the module, and
no byte outside of the heads is changed. -/
theorem jumpInstall_redirects {fentry : ℕ} {fns : List ExportFn}
    (horig : ∀ f ∈ fns, f.orig ∈ kernelText) (hmod : ∀ f ∈ fns, f.mod ∈ moduleArea) :
    (∀ f ∈ fns, FitsInt ((f.mod : ℤ) - f.orig - 5)) ∧
      ∀ text₀ jumps, jumpInitAll (.x86_64 fentry) fns text₀ = .ok jumps →
        jumps.map Jump.fn = fns ∧
        (∀ j ∈ jumps, (leWord (j.storeJump.drop 1)).toInt = (j.fn.mod : ℤ) - j.fn.orig - 5) ∧
        ∀ text : Mem Byte, HeadsApart fns →
          (∀ j ∈ jumps,
            (readBytes (jumpInstall jumps text) j.fn.orig 5).head? = some 0xe9 ∧
            callTarget j.fn.orig (readBytes (jumpInstall jumps text) j.fn.orig 5) =
              BitVec.ofNat 64 j.fn.mod) ∧
          ∀ x, (∀ f ∈ fns, x ∉ Set.Ico f.orig (f.orig + 5)) →
            jumpInstall jumps text x = text x := by
  refine ⟨fun f hf => displacement_fits (horig f hf) (hmod f hf), fun text₀ jumps hinit => ?_⟩
  have hdoc : (Arch.x86_64 fentry).Documented := trivial
  have hfns : jumps.map Jump.fn = fns := (jumpInitAll_ok hinit).1
  have hstore := jumpInitAll_storeJump hinit
  have hfits : ∀ j ∈ jumps, FitsInt j.fn.displacement := by
    intro j hj
    have hmem : j.fn ∈ fns := hfns ▸ List.mem_map_of_mem hj
    exact displacement_fits (horig j.fn hmem) (hmod j.fn hmem)
  refine ⟨hfns, fun j hj => ?_, fun text hapart => ⟨fun j hj => ?_, fun x hx => ?_⟩⟩
  · rw [hstore j hj]
    show (leWord (leBytes (BitVec.ofInt 32 j.fn.displacement))).toInt = j.fn.displacement
    rw [leWord_leBytes, toInt_ofInt_of_fits (hfits j hj)]
  · have hsep : SeparateHeads (.x86_64 fentry) (jumps.map Jump.fn) :=
      separateHeads_of_headsApart (hfns ▸ hapart)
    have hread : readBytes (jumpInstall jumps text) j.fn.orig 5 = j.storeJump :=
      readBytes_jumpInstall_self hdoc hsep hj text
    rw [hread, hstore j hj]
    exact ⟨rfl, callTarget_jump (hfits j hj)⟩
  · rw [jumpInstall_eq hdoc]
    refine applyAll_of_not_covered ?_ text
    rw [covered_installPatches, hfns]
    rintro ⟨f, hf, -, hxf⟩
    exact hx f hf hxf

/-- Two functions at the two ends of the kernel text, redirected to the two ends of the
module area. -/
def farFns : List ExportFn :=
  [{ name := "schedule", orig := 0xffffffff80000000, mod := 0xfffffffffeffffff },
    { name := "yield_to", orig := 0xffffffffbffffff0, mod := 0xffffffffc0000000 }]

theorem jumpInstall_redirects_far :
    ∃ jumps, jumpInitAll (.x86_64 0xffffffff81a00000) farFns (fun _ => 0x55) = .ok jumps ∧
      jumps.map Jump.fn = farFns ∧
      ∀ j ∈ jumps, callTarget j.fn.orig
        (readBytes (jumpInstall jumps fun _ => 0x90) j.fn.orig 5) = BitVec.ofNat 64 j.fn.mod := by
  have hred := @jumpInstall_redirects 0xffffffff81a00000 farFns
    (by simp [farFns, kernelText]) (by simp [farFns, moduleArea])
  have hapart : HeadsApart farFns := by
    refine List.pairwise_pair.mpr (Set.disjoint_left.mpr ?_)
    rintro x ⟨-, hlt⟩ ⟨hle, -⟩
    simp at hlt hle
    omega
  obtain ⟨jumps, hinit⟩ := jumpInitAll_ok_iff.mpr
    (show ∀ f ∈ farFns,
        hooked 0xffffffff81a00000 f.orig (readBytes (fun _ => 0x55) f.orig 5) = false
      from fun f hf => by rfl)
  obtain ⟨hfns, -, hafter⟩ := hred.2 _ jumps hinit
  exact ⟨jumps, hinit, hfns, fun j hj => ((hafter _ hapart).1 j hj).2⟩

end Plugsched
