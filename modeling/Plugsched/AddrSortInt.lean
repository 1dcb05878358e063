/-
`addr_sort` with the `int` variables of C, on two arrays of 64-bit words.

The kernel is compiled so that `int` arithmetic wraps around.  An access outside of the
arrays stops the run, and so does the end of the rounds that a loop is given: a run that ends
has touched no other index.

* `addrSwapAt_eq` — the exclusive-ors lose no word;
* `siftLoop_sound`, `siftLoop_ends` — a sift ends exactly if it stops before entry `2 ^ 30`,
  and then it is that of `addrSort`;
* `addrSortInt_sound`, `addrSortInt_refines` — the same of the sort;
* `addrSortInt_sorts_iff` — for which lengths, and which tables, the arrays are sorted.
-/
import Mathlib.Algebra.Group.Nat.Defs
import Mathlib.Data.Fin.VecNotation
import Mathlib.Data.List.FinRange
import Mathlib.Data.List.OfFn
import Plugsched.AddrSort
import Plugsched.ExceptRules

open ExceptRules

namespace Plugsched

/-- Why a run does not end as it should. -/
inductive SortStop where
  | rounds
  | outside (i : BitVec 32)

/-- `addr` and `size`. -/
@[ext]
structure WordTable (n : ℕ) where
  addr : Fin n → BitVec 64
  size : Fin n → BitVec 64

variable {n : ℕ}

/-- The entry that an index means. -/
def entryAt (n : ℕ) (i : BitVec 32) : Except SortStop (Fin n) :=
  if h : 0 ≤ i.toInt ∧ i.toInt < n then .ok ⟨i.toInt.toNat, by omega⟩ else .error (.outside i)

/-- `*(f + i)`. -/
def wordAt (f : Fin n → BitVec 64) (i : BitVec 32) : Except SortStop (BitVec 64) := do
  let e ← entryAt n i
  return f e

/-- `*(f + i) = v`. -/
def setWordAt (f : Fin n → BitVec 64) (i : BitVec 32) (v : BitVec 64) :
    Except SortStop (Fin n → BitVec 64) := do
  let e ← entryAt n i
  return Function.update f e v

/-- `addr_swap(f + a, f + b)`. -/
def addrSwapAt (f : Fin n → BitVec 64) (a b : BitVec 32) :
    Except SortStop (Fin n → BitVec 64) := do
  if (← wordAt f a) ^^^ (← wordAt f b) ≠ 0 then
    let f ← setWordAt f a ((← wordAt f a) ^^^ (← wordAt f b))
    let f ← setWordAt f b ((← wordAt f b) ^^^ (← wordAt f a))
    setWordAt f a ((← wordAt f a) ^^^ (← wordAt f b))
  else
    return f

namespace WordTable

/-- Both arrays exchange the entries `a` and `b`. -/
def swapAt (t : WordTable n) (a b : BitVec 32) : Except SortStop (WordTable n) := do
  let addr ← addrSwapAt t.addr a b
  let size ← addrSwapAt t.size a b
  return { addr, size }

/-- `c`, moved on to the second child if that is larger. -/
def pickChildAt (m : BitVec 32) (t : WordTable n) (c : BitVec 32) :
    Except SortStop (BitVec 32) := do
  if c.slt (m - 1) then
    if (← wordAt t.addr c) < (← wordAt t.addr (c + 1)) then return c + 1 else return c
  else return c

/-- The inner loop, from entry `r`. -/
def siftLoop (m : BitVec 32) : ℕ → BitVec 32 → WordTable n → Except SortStop (WordTable n)
  | 0, _, _ => .error .rounds
  | rounds + 1, r, t => do
    if (r * 2 + 1).slt m then
      let c ← t.pickChildAt m (r * 2 + 1)
      if (← wordAt t.addr r) ≥ (← wordAt t.addr c) then return t
      else siftLoop m rounds c (← t.swapAt r c)
    else return t

/-- The first loop, from `i` on downwards. -/
def heapifyLoop (len : BitVec 32) (limit : ℕ) :
    ℕ → BitVec 32 → WordTable n → Except SortStop (WordTable n)
  | 0, _, _ => .error .rounds
  | rounds + 1, i, t => do
    if (0 : BitVec 32).sle i then
      heapifyLoop len limit rounds (i - 1) (← siftLoop len limit i t)
    else return t

/-- The second loop, from `i` on downwards. -/
def popLoop (limit : ℕ) : ℕ → BitVec 32 → WordTable n → Except SortStop (WordTable n)
  | 0, _, _ => .error .rounds
  | rounds + 1, i, t => do
    if (0 : BitVec 32).slt i then
      popLoop limit rounds (i - 1) (← siftLoop i limit 0 (← t.swapAt 0 i))
    else return t

end WordTable

/-- `addr_sort(addr, size, n)`; each loop is given `limit` rounds. -/
def addrSortInt (limit : ℕ) (t : WordTable n) : Except SortStop (WordTable n) := do
  let len := BitVec.ofNat 32 n
  let t ← t.heapifyLoop len limit limit (len.sdiv 2 - 1)
  t.popLoop limit limit (len - 1)

/-! ### The `int` variables -/

section Ints

variable {i j : ℕ}

theorem toInt_ofNat_of_lt (hi : i < 2 ^ 31) : (BitVec.ofNat 32 i).toInt = i := by
  rw [BitVec.toInt_eq_toNat_of_lt] <;> rw [BitVec.toNat_ofNat] <;> omega

theorem slt_ofNat_iff (hi : i < 2 ^ 31) (hj : j < 2 ^ 31) :
    (BitVec.ofNat 32 i).slt (BitVec.ofNat 32 j) = true ↔ i < j := by
  rw [BitVec.slt_iff_toInt_lt, toInt_ofNat_of_lt hi, toInt_ofNat_of_lt hj, Int.ofNat_lt]

theorem ofNat_succ_sub_one (i : ℕ) : BitVec.ofNat 32 (i + 1) - 1 = BitVec.ofNat 32 i := by
  rw [BitVec.ofNat_add]
  exact BitVec.add_sub_cancel _ _

theorem ofNat_sub_one (hi : 0 < i) : BitVec.ofNat 32 i - 1 = BitVec.ofNat 32 (i - 1) := by
  obtain ⟨k, rfl⟩ := Nat.exists_eq_add_of_lt hi
  exact ofNat_succ_sub_one _

theorem ofNat_mul_two_add_one (r : ℕ) :
    BitVec.ofNat 32 r * 2 + 1 = BitVec.ofNat 32 (r * 2 + 1) := by
  rw [BitVec.ofNat_add, BitVec.ofNat_mul]
  rfl

theorem sdiv_ofNat (hi : i < 2 ^ 31) : (BitVec.ofNat 32 i).sdiv 2 = BitVec.ofNat 32 (i / 2) := by
  have hmsb : (BitVec.ofNat 32 i).msb = false := by
    rw [BitVec.msb_eq_toInt, toInt_ofNat_of_lt hi]
    exact decide_eq_false (by omega)
  have htwo : (2 : BitVec 32).msb = false := rfl
  refine BitVec.eq_of_toNat_eq ?_
  rw [BitVec.sdiv_eq, hmsb, htwo]
  show (BitVec.ofNat 32 i / 2).toNat = _
  rw [BitVec.toNat_udiv, BitVec.toNat_ofNat, BitVec.toNat_ofNat]
  show i % 2 ^ 32 / 2 = _
  omega

/-- From `2 ^ 30` on the place of the first child is negative. -/
theorem toInt_child_wraps (hi : 2 ^ 30 ≤ i) (hlt : i + 1 < 2 ^ 31) :
    (BitVec.ofNat 32 (i * 2 + 1)).toInt < 0 := by
  rw [BitVec.toInt_eq_toNat_cond, BitVec.toNat_ofNat]
  split
  · omega
  · omega

theorem entryAt_ofNat (hi : i < n) (hn : n < 2 ^ 31) :
    entryAt n (BitVec.ofNat 32 i) = .ok ⟨i, hi⟩ := by
  have hint := toInt_ofNat_of_lt (hi.trans hn)
  rw [entryAt, dif_pos (by omega)]
  congr 2
  omega

theorem wordAt_ofNat (hi : i < n) (hn : n < 2 ^ 31) (f : Fin n → BitVec 64) :
    wordAt f (BitVec.ofNat 32 i) = .ok (f ⟨i, hi⟩) := by
  rw [wordAt, entryAt_ofNat hi hn]
  rfl

theorem setWordAt_ofNat (hi : i < n) (hn : n < 2 ^ 31) (f : Fin n → BitVec 64) (v : BitVec 64) :
    setWordAt f (BitVec.ofNat 32 i) v = .ok (Function.update f ⟨i, hi⟩ v) := by
  rw [setWordAt, entryAt_ofNat hi hn]
  rfl

theorem wordAt_of_neg {i : BitVec 32} (hi : i.toInt < 0) (f : Fin n → BitVec 64) :
    wordAt f i = .error (.outside i) := by
  rw [wordAt, entryAt, dif_neg (by omega)]
  rfl

end Ints

/-! ### Exchanging entries -/

/-- The numbers that the words stand for. -/
def WordTable.toTable (t : WordTable n) : FuncTable n where
  addr i := (t.addr i).toNat
  size i := (t.size i).toNat

/-- Both arrays with the entries `a` and `b` exchanged. -/
def WordTable.exchange (t : WordTable n) (a b : Fin n) : WordTable n where
  addr := t.addr ∘ Equiv.swap a b
  size := t.size ∘ Equiv.swap a b

theorem WordTable.toTable_exchange (t : WordTable n) (a b : Fin n) :
    (t.exchange a b).toTable = t.toTable.swap a b := by
  rw [FuncTable.swap_eq]
  rfl

/-- The exclusive-ors exchange two words of an array, also when both are the same one. -/
theorem addrSwapAt_eq (hn : n < 2 ^ 31) (f : Fin n → BitVec 64) (a b : Fin n) :
    addrSwapAt f (BitVec.ofNat 32 a) (BitVec.ofNat 32 b) = .ok (f ∘ Equiv.swap a b) := by
  -- on the numbers, these are the assignments of `addrSwap`
  obtain ⟨g, hg, hnat⟩ : ∃ g, addrSwapAt f (BitVec.ofNat 32 a) (BitVec.ofNat 32 b) = .ok g ∧
      BitVec.toNat ∘ g = addrSwap (BitVec.toNat ∘ f) a b := by
    simp only [addrSwapAt, wordAt_ofNat a.2 hn, wordAt_ofNat b.2 hn, setWordAt_ofNat a.2 hn,
      setWordAt_ofNat b.2 hn, ok_bind]
    have hne : f a ^^^ f b ≠ 0 ↔ (BitVec.toNat ∘ f) a ^^^ (BitVec.toNat ∘ f) b ≠ 0 := by
      rw [Function.comp_apply, Function.comp_apply, ← BitVec.toNat_xor, ne_eq, ne_eq,
        BitVec.toNat_eq]
      rfl
    rw [addrSwap, ← if_congr hne rfl rfl]
    split
    · refine ⟨_, rfl, ?_⟩
      have hassign : ∀ (h : Fin n → BitVec 64) (x y z : Fin n),
          BitVec.toNat ∘ Function.update h x (h y ^^^ h z) = Function.update (BitVec.toNat ∘ h) x
            ((BitVec.toNat ∘ h) y ^^^ (BitVec.toNat ∘ h) z) := by
        intro h x y z
        rw [Function.comp_update, BitVec.toNat_xor]
        rfl
      simp only [hassign]
    · exact ⟨f, rfl, rfl⟩
  rw [addrSwap_eq] at hnat
  rw [hg]
  refine congrArg Except.ok (funext fun x => BitVec.eq_of_toNat_eq ?_)
  exact congrFun hnat x

namespace FuncTable

theorem lt_of_child_lt {m r : ℕ} (hm : m ≤ n) (h : r * 2 + 1 < m) : r < n := by omega

/-- The place at which the inner loop stops. -/
def siftEnd (m : ℕ) (hm : m ≤ n) (t : FuncTable n) (r : ℕ) : ℕ :=
  if h : r * 2 + 1 < m then
    let c := pickChild m hm t r h
    if t.addr ⟨r, lt_of_child_lt hm h⟩ ≥ t.addr c then r
    else siftEnd m hm (t.swap ⟨r, lt_of_child_lt hm h⟩ c) c
  else r
termination_by m - r
decreasing_by
  have := (pickChild_child m hm t r h).1.lt
  omega

theorem siftEnd_lt (m : ℕ) (hm : m ≤ n) (t : FuncTable n) {r : ℕ} (hr : r < n) :
    siftEnd m hm t r < n := by
  fun_induction siftEnd m hm t r with
  | case1 t r h c hge => exact hr
  | case2 t r h c hlt ih => exact ih c.2
  | case3 t r h => exact hr

/-- No sift of the first loop stops at an entry from `2 ^ 30` on. -/
def heapifyShallow : ℕ → FuncTable n → Prop
  | 0, _ => True
  | i + 1, t => siftEnd n le_rfl t i < 2 ^ 30 ∧ heapifyShallow i (siftDown n le_rfl t i)

/-- No sift of the second loop stops at an entry from `2 ^ 30` on. -/
def popShallow : (i : ℕ) → i < n → FuncTable n → Prop
  | 0, _, _ => True
  | i + 1, hi, t =>
    siftEnd (i + 1) hi.le (t.swap ⟨0, by omega⟩ ⟨i + 1, hi⟩) 0 < 2 ^ 30 ∧
      popShallow i (by omega) (siftDown (i + 1) hi.le (t.swap ⟨0, by omega⟩ ⟨i + 1, hi⟩) 0)

/-- No sift of the sort stops at an entry from `2 ^ 30` on. -/
def Shallow (t : FuncTable n) : Prop :=
  ∀ hn : 0 < n, heapifyShallow (n / 2) t ∧
    popShallow (n - 1) (Nat.pred_lt_self hn) (heapify (n / 2) t)

theorem heapifyShallow_of_le (hn : n ≤ 2 ^ 30) {i : ℕ} (hi : i ≤ n) (t : FuncTable n) :
    heapifyShallow i t := by
  induction i generalizing t with
  | zero => trivial
  | succ i ih => exact ⟨(siftEnd_lt _ _ _ hi).trans_le hn, ih (by omega) _⟩

theorem popShallow_of_le (hn : n ≤ 2 ^ 30) (i : ℕ) (hi : i < n) (t : FuncTable n) :
    popShallow i hi t := by
  induction i generalizing t with
  | zero => trivial
  | succ i ih => exact ⟨(siftEnd_lt _ _ _ (by omega)).trans_le hn, ih (by omega) _⟩

/-- A table of at most `2 ^ 30` entries has no others. -/
theorem shallow_of_le (hn : n ≤ 2 ^ 30) (t : FuncTable n) : t.Shallow := fun _ =>
  ⟨heapifyShallow_of_le hn (by omega) t, popShallow_of_le hn _ _ _⟩

end FuncTable

namespace WordTable

open FuncTable

/-! ### Sifting down -/

section Sift

variable {m r : ℕ}

theorem swapAt_eq (hn : n < 2 ^ 31) (t : WordTable n) (a b : Fin n) :
    t.swapAt (BitVec.ofNat 32 a) (BitVec.ofNat 32 b) = .ok (t.exchange a b) := by
  rw [swapAt, addrSwapAt_eq hn, addrSwapAt_eq hn]
  rfl

theorem pickChildAt_eq (hn : n < 2 ^ 31) (hm : m ≤ n) (t : WordTable n) (h : r * 2 + 1 < m) :
    t.pickChildAt (BitVec.ofNat 32 m) (BitVec.ofNat 32 (r * 2 + 1)) =
      .ok (BitVec.ofNat 32 (pickChild m hm t.toTable r h)) := by
  rw [pickChildAt, pickChild, ofNat_sub_one (Nat.zero_lt_of_lt h)]
  by_cases hright : r * 2 + 1 < m - 1
  · have hnext : BitVec.ofNat 32 (r * 2 + 1) + 1 = BitVec.ofNat 32 (r * 2 + 2) :=
      (BitVec.ofNat_add ..).symm
    rw [if_pos ((slt_ofNat_iff (by omega) (by omega)).mpr hright), dif_pos hright, hnext,
      wordAt_ofNat (by omega) hn, wordAt_ofNat (by omega) hn, ok_bind, ok_bind]
    by_cases hlt : t.toTable.addr ⟨r * 2 + 1, by omega⟩ < t.toTable.addr ⟨r * 2 + 2, by omega⟩
    · rw [if_pos hlt]
      exact if_pos (BitVec.lt_def.mpr hlt)
    · rw [if_neg hlt]
      exact if_neg fun hlt' => hlt (BitVec.lt_def.mp hlt')
  · rw [if_neg fun hlt => hright ((slt_ofNat_iff (by omega) (by omega)).mp hlt), dif_neg hright]
    rfl

/-- A round of the inner loop at an entry with children. -/
theorem siftLoop_succ (hn : n < 2 ^ 31) (hm : m ≤ n) (rounds : ℕ) (t : WordTable n)
    (h : r * 2 + 1 < m) : siftLoop (BitVec.ofNat 32 m) (rounds + 1) (BitVec.ofNat 32 r) t =
      if t.toTable.addr ⟨r, by omega⟩ ≥ t.toTable.addr (pickChild m hm t.toTable r h) then .ok t
      else siftLoop (BitVec.ofNat 32 m) rounds (BitVec.ofNat 32 (pickChild m hm t.toTable r h))
        (t.exchange ⟨r, by omega⟩ (pickChild m hm t.toTable r h)) := by
  rw [siftLoop, ofNat_mul_two_add_one, if_pos ((slt_ofNat_iff (by omega) (by omega)).mpr h),
    pickChildAt_eq hn hm t h, ok_bind, wordAt_ofNat (by omega) hn, wordAt_ofNat (Fin.isLt _) hn,
    ok_bind, ok_bind]
  by_cases hge : t.toTable.addr ⟨r, by omega⟩ ≥ t.toTable.addr (pickChild m hm t.toTable r h)
  · rw [if_pos hge]
    exact if_pos (BitVec.le_def.mpr hge)
  · rw [if_neg hge, if_neg fun hge' => hge (BitVec.le_def.mp hge')]
    rw [swapAt_eq hn t ⟨r, by omega⟩, ok_bind]

theorem siftLoop_leaf (hm : m < 2 ^ 31) (rounds : ℕ) (t : WordTable n) (h : m ≤ r * 2 + 1)
    (hr : r < 2 ^ 30) :
    siftLoop (BitVec.ofNat 32 m) (rounds + 1) (BitVec.ofNat 32 r) t = .ok t := by
  rw [siftLoop, ofNat_mul_two_add_one]
  exact if_neg fun hlt => absurd ((slt_ofNat_iff (by omega) hm).mp hlt) (not_lt.mpr h)

/-- From entry `2 ^ 30` on the loop looks for a child in front of the array. -/
theorem siftLoop_wraps (hm : m < 2 ^ 31) (hpos : 0 < m) (rounds : ℕ) (t : WordTable n)
    (hr : 2 ^ 30 ≤ r) (hlt : r + 1 < 2 ^ 31) :
    siftLoop (BitVec.ofNat 32 m) (rounds + 1) (BitVec.ofNat 32 r) t =
      .error (.outside (BitVec.ofNat 32 (r * 2 + 1))) := by
  have hneg := toInt_child_wraps hr hlt
  have hbefore : ∀ k, k < 2 ^ 31 →
      (BitVec.ofNat 32 (r * 2 + 1)).slt (BitVec.ofNat 32 k) = true := by
    intro k hk
    rw [BitVec.slt_iff_toInt_lt, toInt_ofNat_of_lt hk]
    omega
  rw [siftLoop, ofNat_mul_two_add_one, if_pos (hbefore m hm), pickChildAt, ofNat_sub_one hpos,
    if_pos (hbefore _ (by omega)), wordAt_of_neg hneg]
  rfl

/-- A sift that ends has ended before entry `2 ^ 30`, like that of `addrSort`. -/
theorem siftLoop_sound (hn : n < 2 ^ 31) (hm : m ≤ n) (hpos : 0 < m) {rounds : ℕ}
    {t t' : WordTable n} (hr : r < n)
    (h : siftLoop (BitVec.ofNat 32 m) rounds (BitVec.ofNat 32 r) t = .ok t') :
    siftEnd m hm t.toTable r < 2 ^ 30 ∧ t'.toTable = siftDown m hm t.toTable r := by
  induction rounds generalizing r t with
  | zero => cases h
  | succ rounds ih =>
    rw [siftEnd, siftDown]
    by_cases hchild : r * 2 + 1 < m
    · rw [siftLoop_succ hn hm rounds t hchild] at h
      rw [dif_pos hchild, dif_pos hchild]
      dsimp only
      by_cases hge : t.toTable.addr ⟨r, hr⟩ ≥ t.toTable.addr (pickChild m hm t.toTable r hchild)
      · rw [if_pos hge] at h ⊢
        rw [if_pos hge]
        cases h
        exact ⟨by omega, rfl⟩
      · rw [if_neg hge] at h ⊢
        rw [if_neg hge, ← toTable_exchange]
        exact ih (Fin.isLt _) h
    · rw [dif_neg hchild, dif_neg hchild]
      by_cases hplace : r < 2 ^ 30
      · rw [siftLoop_leaf (by omega) rounds t (by omega) hplace] at h
        cases h
        exact ⟨hplace, rfl⟩
      · rw [siftLoop_wraps (by omega) hpos rounds t (by omega) (by omega)] at h
        cases h

/-- A sift down to an entry before `2 ^ 30` ends. -/
theorem siftLoop_ends (hn : n < 2 ^ 31) (hm : m ≤ n) (rounds : ℕ) {t : WordTable n} (hr : r < n)
    (hend : siftEnd m hm t.toTable r < 2 ^ 30) (hrounds : m ≤ r + rounds) :
    ∃ t', siftLoop (BitVec.ofNat 32 m) (rounds + 1) (BitVec.ofNat 32 r) t = .ok t' := by
  induction rounds generalizing r t with
  | zero =>
    rw [siftEnd, dif_neg (by omega)] at hend
    exact ⟨t, siftLoop_leaf (by omega) 0 t (by omega) hend⟩
  | succ rounds ih =>
    rw [siftEnd] at hend
    by_cases hchild : r * 2 + 1 < m
    · rw [siftLoop_succ hn hm _ t hchild]
      rw [dif_pos hchild] at hend
      dsimp only at hend
      by_cases hge : t.toTable.addr ⟨r, hr⟩ ≥ t.toTable.addr (pickChild m hm t.toTable r hchild)
      · rw [if_pos hge]
        exact ⟨t, rfl⟩
      · rw [if_neg hge] at hend ⊢
        rw [← toTable_exchange] at hend
        have hlt := (pickChild_child m hm t.toTable r hchild).1.lt
        exact ih (Fin.isLt _) hend (by omega)
    · rw [dif_neg hchild] at hend
      exact ⟨t, siftLoop_leaf (by omega) _ t (by omega) hend⟩

end Sift

/-! ### The two loops -/

section Loops

variable {k limit : ℕ}

theorem heapifyLoop_zero (len : BitVec 32) (limit rounds : ℕ) (t : WordTable n) :
    heapifyLoop len limit (rounds + 1) (BitVec.ofNat 32 0 - 1) t = .ok t := rfl

theorem heapifyLoop_succ (len : BitVec 32) (limit rounds : ℕ) (t : WordTable n)
    (hk : k < 2 ^ 31) :
    heapifyLoop len limit (rounds + 1) (BitVec.ofNat 32 (k + 1) - 1) t =
      siftLoop len limit (BitVec.ofNat 32 k) t >>=
        heapifyLoop len limit rounds (BitVec.ofNat 32 k - 1) := by
  have hge : (0 : BitVec 32).sle (BitVec.ofNat 32 k) = true := by
    rw [BitVec.sle_iff_toInt_le, toInt_ofNat_of_lt hk]
    exact Int.natCast_nonneg k
  rw [ofNat_succ_sub_one, heapifyLoop, if_pos hge]

theorem popLoop_zero (limit rounds : ℕ) (t : WordTable n) :
    popLoop limit (rounds + 1) (BitVec.ofNat 32 0) t = .ok t := rfl

theorem popLoop_succ (hn : n < 2 ^ 31) (limit rounds : ℕ) (t : WordTable n) (hk : k + 1 < n) :
    popLoop limit (rounds + 1) (BitVec.ofNat 32 (k + 1)) t =
      siftLoop (BitVec.ofNat 32 (k + 1)) limit (BitVec.ofNat 32 0)
        (t.exchange ⟨0, by omega⟩ ⟨k + 1, hk⟩) >>= popLoop limit rounds (BitVec.ofNat 32 k) := by
  have hpos : (0 : BitVec 32).slt (BitVec.ofNat 32 (k + 1)) = true :=
    (slt_ofNat_iff (i := 0) (by omega) (by omega)).mpr (Nat.succ_pos k)
  have hswap : t.swapAt 0 (BitVec.ofNat 32 (k + 1)) = .ok (t.exchange ⟨0, _⟩ ⟨k + 1, hk⟩) :=
    swapAt_eq hn t ⟨0, by omega⟩ ⟨k + 1, hk⟩
  rw [popLoop, if_pos hpos, ofNat_succ_sub_one, hswap, ok_bind]
  rfl

theorem heapifyLoop_sound (hn : n < 2 ^ 31) {rounds : ℕ} {t t' : WordTable n} (hk : k ≤ n)
    (h : heapifyLoop (BitVec.ofNat 32 n) limit rounds (BitVec.ofNat 32 k - 1) t = .ok t') :
    heapifyShallow k t.toTable ∧ t'.toTable = heapify k t.toTable := by
  induction k generalizing rounds t with
  | zero =>
    cases rounds with
    | zero => cases h
    | succ rounds =>
      rw [heapifyLoop_zero] at h
      cases h
      exact ⟨trivial, rfl⟩
  | succ k ih =>
    cases rounds with
    | zero => cases h
    | succ rounds =>
      rw [heapifyLoop_succ _ _ _ _ (by omega)] at h
      obtain ⟨t₁, hsift, hrest⟩ := bind_eq_ok h
      obtain ⟨hend, heq⟩ := siftLoop_sound hn le_rfl (by omega) hk hsift
      obtain ⟨hshallow, heq'⟩ := ih (by omega) hrest
      rw [heq] at hshallow heq'
      exact ⟨⟨hend, hshallow⟩, heq'⟩

theorem heapifyLoop_ends (hn : n < 2 ^ 31) (hlimit : n ≤ limit) (rounds : ℕ) {t : WordTable n}
    (hk : k ≤ n) (hrounds : k ≤ rounds) (hshallow : heapifyShallow k t.toTable) :
    ∃ t', heapifyLoop (BitVec.ofNat 32 n) (limit + 1) (rounds + 1) (BitVec.ofNat 32 k - 1) t =
      .ok t' := by
  induction k generalizing rounds t with
  | zero => exact ⟨t, heapifyLoop_zero ..⟩
  | succ k ih =>
    obtain ⟨hend, hshallow⟩ := hshallow
    obtain ⟨t₁, hsift⟩ := siftLoop_ends hn le_rfl limit hk hend (by omega)
    obtain ⟨-, heq⟩ := siftLoop_sound hn le_rfl (by omega) hk hsift
    obtain ⟨rounds, rfl⟩ : ∃ j, rounds = j + 1 := ⟨rounds - 1, by omega⟩
    rw [heapifyLoop_succ _ _ _ _ (by omega), hsift, ok_bind]
    exact ih rounds (by omega) (by omega) (heq ▸ hshallow)

theorem popLoop_sound (hn : n < 2 ^ 31) {rounds : ℕ} {t t' : WordTable n} (hk : k < n)
    (h : popLoop limit rounds (BitVec.ofNat 32 k) t = .ok t') :
    popShallow k hk t.toTable ∧ t'.toTable = popAll k hk t.toTable := by
  induction k generalizing rounds t with
  | zero =>
    cases rounds with
    | zero => cases h
    | succ rounds =>
      rw [popLoop_zero] at h
      cases h
      exact ⟨trivial, rfl⟩
  | succ k ih =>
    cases rounds with
    | zero => cases h
    | succ rounds =>
      rw [popLoop_succ hn _ _ _ hk] at h
      obtain ⟨t₁, hsift, hrest⟩ := bind_eq_ok h
      obtain ⟨hend, heq⟩ := siftLoop_sound hn hk.le (by omega) (by omega) hsift
      obtain ⟨hshallow, heq'⟩ := ih (by omega) hrest
      rw [toTable_exchange] at hend heq
      rw [heq] at hshallow heq'
      exact ⟨⟨hend, hshallow⟩, heq'⟩

theorem popLoop_ends (hn : n < 2 ^ 31) (hlimit : n ≤ limit) (rounds : ℕ) {t : WordTable n}
    (hk : k < n) (hrounds : k ≤ rounds) (hshallow : popShallow k hk t.toTable) :
    ∃ t', popLoop (limit + 1) (rounds + 1) (BitVec.ofNat 32 k) t = .ok t' := by
  induction k generalizing rounds t with
  | zero => exact ⟨t, popLoop_zero ..⟩
  | succ k ih =>
    obtain ⟨hend, hshallow⟩ := hshallow
    rw [← toTable_exchange] at hend hshallow
    obtain ⟨t₁, hsift⟩ := siftLoop_ends hn hk.le limit (by omega) hend (by omega)
    obtain ⟨-, heq⟩ := siftLoop_sound hn hk.le (by omega) (by omega) hsift
    obtain ⟨rounds, rfl⟩ : ∃ j, rounds = j + 1 := ⟨rounds - 1, by omega⟩
    rw [popLoop_succ hn _ _ _ hk, hsift, ok_bind]
    exact ih rounds (by omega) (by omega) (heq ▸ hshallow)

end Loops

end WordTable

/-! ### The sort -/

section Sorting

open FuncTable WordTable

/-- The pairs of the two arrays. -/
def WordTable.entries (t : WordTable n) : List (BitVec 64 × BitVec 64) :=
  List.ofFn fun i => (t.addr i, t.size i)

/-- The run ends within the arrays, with the addresses in order and the same pairs. -/
def Sorts (t : WordTable n) : Prop :=
  ∃ t' rounds, (∀ limit ≥ rounds, addrSortInt limit t = .ok t') ∧
    (∀ i j, i ≤ j → t'.addr i ≤ t'.addr j) ∧ t'.entries.Perm t.entries

theorem toTable_injective : Function.Injective (WordTable.toTable (n := n)) := by
  intro t t' h
  refine WordTable.ext (funext fun i => BitVec.eq_of_toNat_eq ?_)
    (funext fun i => BitVec.eq_of_toNat_eq ?_)
  · exact congrFun (congrArg FuncTable.addr h) i
  · exact congrFun (congrArg FuncTable.size h) i

/-- A run that ends has sorted like `addrSort`. -/
theorem addrSortInt_sound (hn : n < 2 ^ 31) {limit : ℕ} {t t' : WordTable n}
    (h : addrSortInt limit t = .ok t') :
    t.toTable.Shallow ∧ t'.toTable = addrSort t.toTable := by
  rw [addrSortInt, sdiv_ofNat hn] at h
  obtain ⟨t₁, hheapify, hpop⟩ := bind_eq_ok h
  obtain ⟨hshallow, heq⟩ := heapifyLoop_sound hn (by omega) hheapify
  by_cases hpos : 0 < n
  · rw [ofNat_sub_one hpos] at hpop
    obtain ⟨hshallow', heq'⟩ := popLoop_sound hn (by omega) hpop
    rw [heq] at hshallow' heq'
    rw [addrSort, dif_pos hpos]
    exact ⟨fun _ => ⟨hshallow, hshallow'⟩, heq'⟩
  · obtain rfl : n = 0 := Nat.eq_zero_of_not_pos hpos
    exact ⟨fun h0 => absurd h0 hpos, FuncTable.ext (funext fun i => i.elim0)
      (funext fun i => i.elim0)⟩

theorem addrSortInt_ends (hn : n < 2 ^ 31) {limit : ℕ} {t : WordTable n}
    (hshallow : t.toTable.Shallow) (hlimit : n < limit) : ∃ t', addrSortInt limit t = .ok t' := by
  obtain ⟨limit, rfl⟩ : ∃ j, limit = j + 1 := ⟨limit - 1, by omega⟩
  rw [addrSortInt, sdiv_ofNat hn]
  by_cases hpos : 0 < n
  · obtain ⟨hheapify, hpop⟩ := hshallow hpos
    obtain ⟨t₁, ht₁⟩ := heapifyLoop_ends hn (Nat.le_of_lt_succ hlimit) limit
      (by omega) (by omega) hheapify
    obtain ⟨-, heq⟩ := heapifyLoop_sound hn (by omega) ht₁
    rw [ht₁, ok_bind, ofNat_sub_one hpos]
    exact popLoop_ends hn (Nat.le_of_lt_succ hlimit) limit (by omega) (by omega) (heq ▸ hpop)
  · obtain rfl : n = 0 := Nat.eq_zero_of_not_pos hpos
    exact ⟨t, rfl⟩

/-- All runs with enough rounds end with the table that `addrSort` gives. -/
theorem addrSortInt_refines (hn : n < 2 ^ 31) {t : WordTable n} (hshallow : t.toTable.Shallow) :
    ∃ t', (∀ limit > n, addrSortInt limit t = .ok t') ∧ t'.toTable = addrSort t.toTable := by
  obtain ⟨t', ht'⟩ := addrSortInt_ends hn hshallow (Nat.lt_succ_self n)
  obtain ⟨-, heq⟩ := addrSortInt_sound hn ht'
  refine ⟨t', ?_, heq⟩
  intro limit hlimit
  obtain ⟨t'', ht''⟩ := addrSortInt_ends hn hshallow hlimit
  obtain ⟨-, heq''⟩ := addrSortInt_sound hn ht''
  rw [ht'', toTable_injective (heq''.trans heq.symm)]

theorem sorts_iff_shallow (hn : n < 2 ^ 31) (t : WordTable n) : Sorts t ↔ t.toTable.Shallow := by
  constructor
  · rintro ⟨t', rounds, hrun, -, -⟩
    exact (addrSortInt_sound hn (hrun rounds le_rfl)).1
  · intro hshallow
    obtain ⟨t', hrun, heq⟩ := addrSortInt_refines hn hshallow
    refine ⟨t', n + 1, hrun, ?_, ?_⟩
    · intro x y hxy
      have hle := addrSort_sorted t.toTable hxy
      rw [← heq] at hle
      exact BitVec.le_def.mpr hle
    · obtain ⟨σ, hσ⟩ := addrSort_perm t.toTable
      obtain rfl : t' = ⟨t.addr ∘ σ, t.size ∘ σ⟩ := toTable_injective (heq.trans hσ)
      exact Equiv.Perm.ofFn_comp_perm σ fun i => (t.addr i, t.size i)

/-- Only the last address is not zero. -/
def lastLarger (n : ℕ) : WordTable n where
  addr i := if i.1 = n - 1 then 1 else 0
  size _ := 16

/-- The first sift takes the last entry for the largest child. -/
theorem not_shallow_lastLarger (hlarge : 2 ^ 30 < n) : ¬ (lastLarger n).toTable.Shallow := by
  intro h
  obtain ⟨hheapify, -⟩ := h (by omega)
  obtain ⟨j, hj⟩ : ∃ j, n / 2 = j + 1 := ⟨n / 2 - 1, by omega⟩
  rw [hj] at hheapify
  obtain ⟨hend, -⟩ := hheapify
  have hchild : j * 2 + 1 < n := by omega
  have hzero : ∀ i : Fin n, i.1 ≠ n - 1 → (lastLarger n).toTable.addr i = 0 := by
    intro i hi
    show (if i.1 = n - 1 then (1 : BitVec 64) else 0).toNat = 0
    rw [if_neg hi]
    rfl
  have hone : ∀ i : Fin n, i.1 = n - 1 → (lastLarger n).toTable.addr i = 1 := by
    intro i hi
    show (if i.1 = n - 1 then (1 : BitVec 64) else 0).toNat = 1
    rw [if_pos hi]
    rfl
  have hpick : (pickChild n le_rfl (lastLarger n).toTable j hchild).1 = n - 1 := by
    by_contra hne
    have hlast : n - 1 < n := by omega
    have hlastChild : HeapSift.Child j (n - 1) := by
      rw [HeapSift.Child]
      omega
    have hle := le_pickChild n le_rfl (lastLarger n).toTable j hchild ⟨n - 1, hlast⟩ hlast
      hlastChild
    rw [hzero _ hne, hone _ rfl] at hle
    omega
  rw [siftEnd, dif_pos hchild] at hend
  dsimp only at hend
  rw [hone _ hpick, hzero ⟨j, _⟩ (by dsimp only; omega), if_neg (by omega), siftEnd,
    dif_neg (by omega), hpick] at hend
  omega

/-- For every length of an `int`: `addr_sort` sorts all arrays exactly if there are at most
`2 ^ 30` entries, as its callers' tables of redirected functions have; it sorts two arrays
exactly if no sift stops at an entry from `2 ^ 30` on; and `addr_swap` exchanges any two words
of an array. -/
theorem addrSortInt_sorts_iff (hn : n < 2 ^ 31) :
    ((∀ t : WordTable n, Sorts t) ↔ n ≤ 2 ^ 30) ∧
      (∀ t : WordTable n, Sorts t ↔ t.toTable.Shallow) ∧
      ∀ (f : Fin n → BitVec 64) (a b : Fin n),
        addrSwapAt f (BitVec.ofNat 32 a) (BitVec.ofNat 32 b) = .ok (f ∘ Equiv.swap a b) := by
  refine ⟨⟨fun hall => ?_, fun hle t => ?_⟩, sorts_iff_shallow hn, addrSwapAt_eq hn⟩
  · by_contra hlarge
    exact not_shallow_lastLarger (not_le.mp hlarge)
      ((sorts_iff_shallow hn _).mp (hall (lastLarger n)))
  · exact (sorts_iff_shallow hn t).mpr (shallow_of_le hle _)

/-- Three entries, two of them with one address. -/
theorem addrSortInt_sorts_three :
    Sorts (n := 3) { addr := ![0x3000, 0x1000, 0x3000], size := ![16, 32, 48] } :=
  (addrSortInt_sorts_iff (by decide)).1.mpr (by decide) _

/-- The sift from entry `2 ^ 29 - 1` goes on in front of the arrays. -/
theorem addrSortInt_wraps : ¬ Sorts (lastLarger (2 ^ 30 + 1)) := by
  rw [sorts_iff_shallow (by omega)]
  exact not_shallow_lastLarger (Nat.lt_succ_self _)

end Sorting

end Plugsched
