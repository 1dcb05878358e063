/-
Slots of equal size, and rows of slots.

A slot is an interval of addresses; slots follow each other without gaps.  Rows are
areas that each hold the same number of slots, and a cell is a slot counted through
the rows.

* `disjoint_slot`, `exists_mem_slot`, `slots_within_iff` — the slots of one area;
* `disjoint_cell`, `cell_subset`, `exists_mem_cell` — the cells of several areas.
-/
import Mathlib.Order.SuccPred.IntervalSucc
import Mathlib.Order.CompletePartialOrder
import Mathlib.Data.Set.BooleanAlgebra
import Mathlib.Algebra.Order.SuccPred
import Mathlib.Data.Nat.SuccPred

namespace Slots

/-- The `i`-th of the slots of `size` addresses that begin at `base`. -/
def slot (base size i : ℕ) : Set ℕ := Set.Ico (base + i * size) (base + (i + 1) * size)

variable {base size i j n : ℕ}

theorem slot_eq (base size i : ℕ) :
    slot base size i = Set.Ico (base + i * size) (base + i * size + size) := by
  rw [slot, Nat.succ_mul, Nat.add_assoc]

theorem disjoint_slot (h : i ≠ j) : Disjoint (slot base size i) (slot base size j) := by
  have hmono : Monotone fun i => base + i * size :=
    fun i j hij => Nat.add_le_add_left (Nat.mul_le_mul_right size hij) base
  exact hmono.pairwise_disjoint_on_Ico_succ h

theorem slot_subset (hi : i < n) : slot base size i ⊆ Set.Ico base (base + n * size) := by
  rintro x ⟨hle, hlt⟩
  have hn : (i + 1) * size ≤ n * size := Nat.mul_le_mul_right size hi
  exact ⟨by omega, by omega⟩

/-- The slots leave no gap. -/
theorem exists_mem_slot (hsize : 0 < size) {x : ℕ} (hx : x ∈ Set.Ico base (base + n * size)) :
    ∃ i < n, x ∈ slot base size i := by
  obtain ⟨hle, hlt⟩ := hx
  have hdiv : (x - base) / size * size ≤ x - base := Nat.div_mul_le_self _ size
  have hmod : x - base < ((x - base) / size + 1) * size := by
    rw [Nat.mul_comm]
    exact Nat.lt_mul_div_succ _ hsize
  refine ⟨(x - base) / size, ?_, by omega, by omega⟩
  rw [Nat.div_lt_iff_lt_mul hsize]
  omega

/-- The first `n` slots lie in the first `len` addresses if these are enough. -/
theorem slots_within_iff (hsize : 0 < size) {len : ℕ} :
    (∀ i < n, slot base size i ⊆ Set.Ico base (base + len)) ↔ n * size ≤ len := by
  constructor
  · intro h
    cases n with
    | zero => omega
    | succ n =>
      -- the last address of the last slot
      have hlast : base + (n + 1) * size - 1 ∈ slot base size n := by
        rw [slot, Nat.succ_mul]
        exact ⟨by omega, by omega⟩
      have hlt := (h n (Nat.lt_succ_self n) hlast).2
      omega
  · intro h i hi
    refine (slot_subset hi).trans (Set.Ico_subset_Ico_right ?_)
    omega

/-- The slot after those that fit does not. -/
theorem slot_div_not_within (hsize : 0 < size) (base len : ℕ) :
    ¬ slot base size (len / size) ⊆ Set.Ico base (base + len) := by
  intro h
  have hmod : len < (len / size + 1) * size := by
    rw [Nat.mul_comm]
    exact Nat.lt_mul_div_succ len hsize
  have hdiv : len / size * size ≤ len := Nat.div_mul_le_self len size
  have hmem : base + len ∈ slot base size (len / size) := ⟨by omega, by omega⟩
  exact Nat.lt_irrefl _ (h hmem).2

/-! ### Rows -/

/-- The `i`-th slot counted through rows of `per` slots; row `r` begins at `row r`. -/
def cell (row : ℕ → ℕ) (per size i : ℕ) : Set ℕ := slot (row (i / per)) size (i % per)

/-- The first `rows` rows are areas of `width` addresses that do not overlap. -/
def RowsApart (row : ℕ → ℕ) (rows width : ℕ) : Prop :=
  ∀ r < rows, ∀ r' < rows, r ≠ r' →
    Disjoint (Set.Ico (row r) (row r + width)) (Set.Ico (row r') (row r' + width))

variable {row : ℕ → ℕ} {rows per width : ℕ}

theorem cell_subset (hper : 0 < per) (i : ℕ) :
    cell row per size i ⊆ Set.Ico (row (i / per)) (row (i / per) + per * size) :=
  slot_subset (Nat.mod_lt i hper)

theorem disjoint_cell (hapart : RowsApart row rows width) (hwidth : per * size ≤ width)
    (hi : i < rows * per) (hj : j < rows * per) (h : i ≠ j) :
    Disjoint (cell row per size i) (cell row per size j) := by
  have hper : 0 < per := Nat.pos_of_ne_zero fun h0 => by simp [h0] at hi
  by_cases hrow : i / per = j / per
  · -- two slots of the same row
    have hmod : i % per ≠ j % per := by
      intro hmod
      exact h (by rw [← Nat.div_add_mod i per, ← Nat.div_add_mod j per, hrow, hmod])
    rw [cell, cell, hrow]
    exact disjoint_slot hmod
  · have hri : i / per < rows := (Nat.div_lt_iff_lt_mul hper).mpr hi
    have hrj : j / per < rows := (Nat.div_lt_iff_lt_mul hper).mpr hj
    have hsub : ∀ i, cell row per size i ⊆ Set.Ico (row (i / per)) (row (i / per) + width) :=
      fun i => (cell_subset hper i).trans (Set.Ico_subset_Ico_right (by omega))
    exact Set.disjoint_of_subset (hsub i) (hsub j) (hapart _ hri _ hrj hrow)

/-- Every address of a row is in a cell. -/
theorem exists_mem_cell (row : ℕ → ℕ) (hsize : 0 < size) {r x : ℕ} (hr : r < rows)
    (hx : x ∈ Set.Ico (row r) (row r + per * size)) :
    ∃ i < rows * per, x ∈ cell row per size i := by
  obtain ⟨k, hk, hmem⟩ := exists_mem_slot hsize hx
  have hlt : r * per + k < rows * per := by
    calc r * per + k < r * per + per := Nat.add_lt_add_left hk _
      _ = (r + 1) * per := (Nat.succ_mul r per).symm
      _ ≤ rows * per := Nat.mul_le_mul_right per hr
  refine ⟨r * per + k, hlt, ?_⟩
  rw [cell, Nat.mul_add_mod_of_lt hk, Nat.mul_comm, Nat.mul_add_div (by omega),
    Nat.div_eq_of_lt hk, Nat.add_zero]
  exact hmem

end Slots
