/-
The memory pool of `mempool.h` for per-CPU fields.

The pool is an array of areas of `PCPU_MIN_UNIT_SIZE` bytes from `__alloc_percpu`.
`simplePercpuMempoolCreate` computes how many objects an area holds and how many areas
are needed, and gives everything back when an allocation fails;
`simplePercpuMempoolAlloc` hands out the objects area by area.

* `simplePercpuMempoolCreate_iff` — when the creation divides by zero, and what it
  gives back;
* `CreatedPercpu.alloc_step` — the objects by quotient and remainder;
* `simplePercpuMempool_serves` — the objects and the addresses that the pool recognises.
-/
import Mathlib.Order.Interval.Set.Disjoint
import Mathlib.Tactic.IntervalCases
import Plugsched.Mempool
import Plugsched.Ledger

open Slots Ledger

namespace Plugsched

/-- `PCPU_MIN_UNIT_SIZE`: 32 KiB, rounded up to a page. -/
structure UnitSize where
  bytes : BitVec 64
  pos : 0 < bytes.toNat
  lt : bytes.toNat < 2 ^ 31

/-- `struct simple_percpu_mempool`. -/
structure SimplePercpuMempool where
  percpuPtr : List (BitVec 64)
  allocatedSize : BitVec 64
  objSize : BitVec 32
  areas : BitVec 32
  objsPerArea : BitVec 32
  areaId : BitVec 32

/-- What a pool consists of. -/
inductive PoolPart where
  | psmpool
  | percpuPtr
  | area (ptr : BitVec 64)
  deriving DecidableEq

/-- The answers of the allocators: whether `kzalloc_node` gives the structure and the
array, and what `__alloc_percpu` returns to its calls, 0 when it fails. -/
structure PoolMemory where
  psmpool : Bool
  percpuPtr : Bool
  area : ℕ → BitVec 64

/-- The loop over `cnt` of `simple_percpu_mempool_create` with `left` rounds to go: the
areas it obtains, and whether it has obtained all. -/
def allocAreas (area : ℕ → BitVec 64) : ℕ → ℕ → List (BitVec 64) × Bool
  | 0, _ => ([], true)
  | left + 1, cnt =>
    if area cnt = 0 then ([], false)
    else (area cnt :: (allocAreas area left (cnt + 1)).1, (allocAreas area left (cnt + 1)).2)

/-- What is logged for areas, in the order of the loop. -/
def areaParts (ptrs : List (BitVec 64)) : List PoolPart := ptrs.map .area

/-- How many objects an area holds: a division of unsigned longs, cut to an unsigned int. -/
def objsPerArea (unit : UnitSize) (objSize : BitVec 32) : BitVec 32 :=
  (unit.bytes / objSize.signExtend 64).truncate 32

/-- How many areas are needed, in unsigned ints. -/
def areasFor (objNum objsPerArea : BitVec 32) : BitVec 32 :=
  (objNum + objsPerArea - 1) / objsPerArea

/-- `simple_percpu_mempool_create`: the pool or `NULL`, with what was obtained and
released; `none` when it divides by zero. -/
def simplePercpuMempoolCreate (unit : UnitSize) (mem : PoolMemory) (objNum objSize : BitVec 32) :
    Option (Option SimplePercpuMempool × List (Entry PoolPart)) :=
  if mem.psmpool = false then some (none, [])
  else if objSize.signExtend 64 = 0 then none
  else if objsPerArea unit objSize = 0 then none
  else if mem.percpuPtr = false then
    -- `cnt` is 0, and `kfree(NULL)` does nothing
    some (none, [.obtained .psmpool, .released .psmpool])
  else
    let areas := areasFor objNum (objsPerArea unit objSize)
    let ptrs := allocAreas mem.area areas.toNat 0
    let obtained :=
      [.obtained .psmpool, .obtained .percpuPtr] ++ (areaParts ptrs.1).map .obtained
    if ptrs.2 then
      some
        (some
          { percpuPtr := ptrs.1
            allocatedSize := 0
            objSize := objSize
            areas := areas
            objsPerArea := objsPerArea unit objSize
            areaId := 0 }, obtained)
    else
      -- `while (cnt > 0)` counts down
      some (none, obtained ++ (areaParts ptrs.1.reverse).map .released ++
        [.released .percpuPtr, .released .psmpool])

/-- `simple_percpu_mempool_destory`: what it releases. -/
def simplePercpuMempoolDestory (psmpool : SimplePercpuMempool) : List (Entry PoolPart) :=
  (areaParts (psmpool.percpuPtr.take psmpool.areas.toNat)).map .released ++
    [.released .percpuPtr, .released .psmpool]

/-- `area_size`, an unsigned int product. -/
def SimplePercpuMempool.areaSize (psmpool : SimplePercpuMempool) : BitVec 64 :=
  (psmpool.objSize * psmpool.objsPerArea).zeroExtend 64

/-- The test of `simple_percpu_mempool_alloc`: a full area is left for the next one. -/
def leaveFullArea (psmpool : SimplePercpuMempool) : SimplePercpuMempool :=
  if psmpool.allocatedSize + psmpool.objSize.zeroExtend 64 > psmpool.areaSize then
    { psmpool with areaId := psmpool.areaId + 1, allocatedSize := 0 }
  else psmpool

/-- The rest of it; `none` when it reads past the end of `percpu_ptr`. -/
def takeObject (psmpool : SimplePercpuMempool) : Option (BitVec 64 × SimplePercpuMempool) :=
  psmpool.percpuPtr[psmpool.areaId.toNat]?.map fun base =>
    (base + psmpool.allocatedSize,
      { psmpool with
        allocatedSize := psmpool.allocatedSize + psmpool.objSize.zeroExtend 64 })

/-- `simple_percpu_mempool_alloc`. -/
def simplePercpuMempoolAlloc (psmpool : SimplePercpuMempool) :
    Option (BitVec 64 × SimplePercpuMempool) :=
  takeObject (leaveFullArea psmpool)

/-- `is_simple_percpu_mempool_addr`. -/
def isSimplePercpuMempoolAddr (psmpool : SimplePercpuMempool) (addr : BitVec 64) : Bool :=
  (psmpool.percpuPtr.take psmpool.areas.toNat).any fun base =>
    base ≤ addr && addr < base + psmpool.areaSize

/-- `recheck_mempool_..` of `DEFINE_RESERVE_PERCPU`. -/
def recheckPercpuMempool (require : BitVec 32) (psmpool : SimplePercpuMempool) : ℤ :=
  if require > psmpool.areas * psmpool.objsPerArea then -ENOMEM else 0

/-- What the first `n` calls of `simple_percpu_mempool_alloc` return. -/
def allocFirstPercpu : ℕ → SimplePercpuMempool → Option (List (BitVec 64))
  | 0, _ => some []
  | n + 1, psmpool =>
    (simplePercpuMempoolAlloc psmpool).bind fun r => (allocFirstPercpu n r.2).map (r.1 :: ·)

/-! ### The creation -/

theorem allocAreas_ne_zero (area : ℕ → BitVec 64) (left cnt : ℕ) :
    ∀ p ∈ (allocAreas area left cnt).1, p ≠ 0 := by
  induction left generalizing cnt with
  | zero => simp [allocAreas]
  | succ left ih =>
    rw [allocAreas]
    split
    · simp
    · next hne => exact List.forall_mem_cons.mpr ⟨hne, ih (cnt + 1)⟩

/-- A loop that goes to its end has obtained an area in every round. -/
theorem allocAreas_all {area : ℕ → BitVec 64} {left cnt : ℕ}
    (h : (allocAreas area left cnt).2 = true) :
    (allocAreas area left cnt).1 = (List.range' cnt left).map area := by
  induction left generalizing cnt with
  | zero => rfl
  | succ left ih =>
    rw [allocAreas] at h ⊢
    split at h
    · cases h
    · next hne => rw [if_neg hne, List.range'_succ, List.map_cons, ih h]

/-- The two roundings of `simple_percpu_mempool_create`. -/
structure Rounded (unit : UnitSize) (objNum objSize objsPerArea areas : BitVec 32) : Prop where
  size_pos : 0 < objSize.toNat
  per_pos : 0 < objsPerArea.toNat
  /-- The objects of an area fit into it. -/
  per_fits : objsPerArea.toNat * objSize.toNat ≤ unit.bytes.toNat
  enough : objNum.toNat ≤ areas.toNat * objsPerArea.toNat
  no_overflow : areas.toNat * objsPerArea.toNat < 2 ^ 32

theorem signExtend_of_pos {x : BitVec 32} (h : 0 < x.toInt) :
    (x.signExtend 64).toNat = x.toNat ∧ 0 < x.toNat ∧ x.toNat < 2 ^ 31 := by
  have hint := toInt_of_pos h
  have hlt : x.toNat < 2 ^ 31 := by
    have htop := BitVec.toInt_lt (x := x)
    omega
  have hmsb : x.msb = false := BitVec.msb_eq_false_iff_two_mul_lt.mpr (by omega)
  refine ⟨?_, by omega, hlt⟩
  rw [BitVec.signExtend_eq_setWidth_of_msb_false hmsb, BitVec.toNat_setWidth, Nat.mod_eq_of_lt]
  omega

section Rounding

variable {unit : UnitSize} {objNum objSize : BitVec 32}

theorem objsPerArea_toNat (unit : UnitSize) (objSize : BitVec 32) :
    (objsPerArea unit objSize).toNat = unit.bytes.toNat / (objSize.signExtend 64).toNat := by
  have hlt := unit.lt
  have hle := Nat.div_le_self unit.bytes.toNat (objSize.signExtend 64).toNat
  rw [objsPerArea, BitVec.truncate_eq_setWidth, BitVec.toNat_setWidth, BitVec.toNat_udiv,
    Nat.mod_eq_of_lt]
  omega

/-- The division by the number of objects of an area fails if an object is larger. -/
theorem objsPerArea_eq_zero_iff (hsize : 0 < objSize.toInt) :
    objsPerArea unit objSize = 0 ↔ unit.bytes.toNat < objSize.toNat := by
  obtain ⟨hext, hpos, -⟩ := signExtend_of_pos hsize
  rw [BitVec.toNat_eq, objsPerArea_toNat, hext]
  show _ = 0 ↔ _
  rw [Nat.div_eq_zero_iff]
  omega

/-- A size for which no division fails is positive. -/
theorem objSize_pos_of_ne_zero (hext : objSize.signExtend 64 ≠ 0)
    (hper : objsPerArea unit objSize ≠ 0) : 0 < objSize.toInt := by
  by_contra hnot
  have hzero : objSize.toInt ≠ 0 := by
    intro h0
    have h : objSize = 0 := BitVec.eq_of_toInt_eq h0
    exact hext (by rw [h]; rfl)
  have hneg : objSize.toInt < 0 := by omega
  -- a negative size is a huge unsigned long
  have hmsb : objSize.msb = true := by
    rw [BitVec.msb_eq_toInt]
    exact decide_eq_true hneg
  have hhuge : unit.bytes.toNat < (objSize.signExtend 64).toNat := by
    have hlt := unit.lt
    rw [BitVec.toNat_signExtend, hmsb, if_pos rfl]
    omega
  refine hper (BitVec.eq_of_toNat_eq ?_)
  rw [objsPerArea_toNat, Nat.div_eq_of_lt hhuge]
  rfl

theorem areasFor_toNat {n per : BitVec 32} (hn : 0 < n.toNat) (hlt : n.toNat < 2 ^ 31)
    (hper : per.toNat < 2 ^ 31) :
    (areasFor n per).toNat = (n.toNat + per.toNat - 1) / per.toNat := by
  have hsum : (n + per - 1).toNat = n.toNat + per.toNat - 1 := by
    rw [BitVec.toNat_sub, BitVec.toNat_add]
    show (2 ^ 32 - 1 + (n.toNat + per.toNat) % 2 ^ 32) % 2 ^ 32 = _
    omega
  rw [areasFor, BitVec.toNat_udiv, hsum]

theorem rounded (hnum : 0 < objNum.toInt) (hsize : 0 < objSize.toInt)
    (hunit : objSize.toNat ≤ unit.bytes.toNat) :
    Rounded unit objNum objSize (objsPerArea unit objSize)
      (areasFor objNum (objsPerArea unit objSize)) := by
  obtain ⟨hext, hpos, -⟩ := signExtend_of_pos hsize
  obtain ⟨-, hnumpos, hnumlt⟩ := signExtend_of_pos hnum
  have hper := objsPerArea_toNat unit objSize
  rw [hext] at hper
  have hperpos : 0 < (objsPerArea unit objSize).toNat := by
    rw [hper]
    exact Nat.div_pos hunit hpos
  have hperlt : (objsPerArea unit objSize).toNat < 2 ^ 31 := by
    rw [hper]
    exact (Nat.div_le_self _ _).trans_lt unit.lt
  have hareas := areasFor_toNat hnumpos hnumlt hperlt
  have hle := Nat.div_mul_le_self (objNum.toNat + (objsPerArea unit objSize).toNat - 1)
    (objsPerArea unit objSize).toNat
  have hlt := Nat.lt_div_mul_add (a := objNum.toNat + (objsPerArea unit objSize).toNat - 1) hperpos
  rw [← hareas] at hle hlt
  exact
    { size_pos := hpos
      per_pos := hperpos
      per_fits := by
        rw [hper]
        exact Nat.div_mul_le_self _ _
      enough := by omega
      no_overflow := by omega }

end Rounding

/-- Whatever the order in which the areas are given back, then the array and the structure. -/
theorem allReleased_parts {parts parts' : List PoolPart} (hp : parts.Perm parts') :
    AllReleased ([.obtained .psmpool, .obtained .percpuPtr] ++ parts.map .obtained ++
      parts'.map .released ++ [.released .percpuPtr, .released .psmpool]) := by
  have hnil : Holds ([] : List (Entry PoolPart)) [] := holds_nil
  have hstruct := hnil.obtain .psmpool
  have harray := hstruct.obtain .percpuPtr
  have hall : Holds ([.obtained .psmpool, .obtained .percpuPtr] ++ parts.map .obtained)
      (parts' ++ [.percpuPtr, .psmpool]) := (harray.obtainAll parts).perm (hp.append_right _)
  have hback := hall.releaseAll.release.release
  rwa [List.append_assoc] at hback

/-- What a run of the creation has to be: it gives everything back and returns `NULL`,
or it returns a pool of enough objects of which the destruction gives everything back. -/
def CreatesOrReleases (objNum : BitVec 32) :
    Option SimplePercpuMempool × List (Entry PoolPart) → Prop
  | (none, log) => AllReleased log
  | (some psmpool, log) =>
    objNum.toNat ≤ (psmpool.areas * psmpool.objsPerArea).toNat ∧
      AllReleased (log ++ simplePercpuMempoolDestory psmpool)

section Creation

variable {unit : UnitSize} {mem : PoolMemory} {objNum objSize : BitVec 32}

theorem Rounded.product {per areas : BitVec 32} (h : Rounded unit objNum objSize per areas) :
    (areas * per).toNat = areas.toNat * per.toNat := by
  rw [BitVec.toNat_mul, Nat.mod_eq_of_lt h.no_overflow]

/-- For positive arguments and whatever the allocators answer: the creation divides by
zero exactly if it gets the structure and an object is larger than an area; else it
returns `NULL` with everything given back, or a pool of enough objects, of which
`simple_percpu_mempool_destory` gives everything back. -/
theorem simplePercpuMempoolCreate_iff (hnum : 0 < objNum.toInt) (hsize : 0 < objSize.toInt) :
    (∃ r, simplePercpuMempoolCreate unit mem objNum objSize = some r ∧
      CreatesOrReleases objNum r) ↔
      mem.psmpool = false ∨ objSize.toInt ≤ unit.bytes.toNat := by
  obtain ⟨hext, hpos, -⟩ := signExtend_of_pos hsize
  have hint := toInt_of_pos hsize
  have hext0 : objSize.signExtend 64 ≠ 0 := by
    intro h0
    rw [h0] at hext
    exact hpos.ne hext
  have hzero : objsPerArea unit objSize = 0 ↔ _ := objsPerArea_eq_zero_iff hsize
  rw [simplePercpuMempoolCreate]
  by_cases hstruct : mem.psmpool = false
  · rw [if_pos hstruct]
    exact ⟨fun _ => .inl hstruct, fun _ => ⟨_, rfl, holds_nil⟩⟩
  rw [if_neg hstruct, if_neg hext0]
  by_cases hper : objsPerArea unit objSize = 0
  · rw [if_pos hper]
    have hlt := hzero.mp hper
    constructor
    · rintro ⟨r, h, -⟩
      cases h
    · rintro (hfalse | hle)
      · exact absurd hfalse hstruct
      · omega
  have hunit : objSize.toNat ≤ unit.bytes.toNat := Nat.le_of_not_lt fun h => hper (hzero.mpr h)
  have hround := rounded hnum hsize hunit
  rw [if_neg hper]
  refine iff_of_true ?_ (.inr (by omega))
  by_cases harray : mem.percpuPtr = false
  · rw [if_pos harray]
    have hnil : Holds ([] : List (Entry PoolPart)) [] := holds_nil
    exact ⟨_, rfl, (hnil.obtain .psmpool).release⟩
  rw [if_neg harray]
  dsimp only
  split
  · next hok =>
    -- the loop has filled the array
    have hptrs := allocAreas_all hok
    refine ⟨_, rfl, ?_, ?_⟩
    · rw [hround.product]
      exact hround.enough
    · rw [simplePercpuMempoolDestory, List.take_of_length_le (by simp [hptrs]), ← List.append_assoc]
      exact allReleased_parts (List.Perm.refl _)
  · exact ⟨_, rfl, allReleased_parts ((List.reverse_perm _).symm.map _)⟩

end Creation

/-- `PCPU_MIN_UNIT_SIZE` with pages of 4 KiB. -/
def unit4k : UnitSize where
  bytes := 32768
  pos := by decide
  lt := by decide

/-- `__alloc_percpu` gives two areas, then none. -/
def twoAreas : PoolMemory where
  psmpool := true
  percpuPtr := true
  area := fun n => if n < 2 then BitVec.ofNat 64 (0x60fe00000000 + n * 0x8000) else 0

theorem simplePercpuMempoolCreate_third :
    ∃ r, simplePercpuMempoolCreate unit4k twoAreas 10 16384 = some r ∧ CreatesOrReleases 10 r :=
  (simplePercpuMempoolCreate_iff (by decide) (by decide)).mpr (.inr (by decide))

/-- An object that is one byte larger than an area. -/
theorem simplePercpuMempoolCreate_divides_by_zero :
    ¬ ∀ (unit : UnitSize) (mem : PoolMemory) (objNum objSize : BitVec 32),
      0 < objNum.toInt → 0 < objSize.toInt →
        ∃ r, simplePercpuMempoolCreate unit mem objNum objSize = some r ∧
          CreatesOrReleases objNum r := by
  intro h
  obtain ⟨r, hr, -⟩ := h unit4k twoAreas 1 32769 (by decide) (by decide)
  have hnone : simplePercpuMempoolCreate unit4k twoAreas 1 32769 = none := rfl
  rw [hnone] at hr
  cases hr

/-! ### The objects that are handed out -/

/-- Areas are disjoint ranges of addresses below the top of the address space. -/
structure PoolMemory.Documented (unit : UnitSize) (mem : PoolMemory) : Prop where
  below : ∀ n, mem.area n ≠ 0 → (mem.area n).toNat + unit.bytes.toNat < 2 ^ 64
  apart : ∀ m n, m ≠ n → mem.area m ≠ 0 → mem.area n ≠ 0 →
    Disjoint (Set.Ico (mem.area m).toNat ((mem.area m).toNat + unit.bytes.toNat))
      (Set.Ico (mem.area n).toNat ((mem.area n).toNat + unit.bytes.toNat))

/-- Where the area `r` of a pool begins. -/
def SimplePercpuMempool.base (psmpool : SimplePercpuMempool) (r : ℕ) : BitVec 64 :=
  psmpool.percpuPtr.getD r 0

/-- The `i`-th object of a pool. -/
def percpuObj (psmpool : SimplePercpuMempool) (i : ℕ) : BitVec 64 :=
  psmpool.base (i / psmpool.objsPerArea.toNat) +
    BitVec.ofNat 64 (i % psmpool.objsPerArea.toNat * psmpool.objSize.toNat)

/-- What `simple_percpu_mempool_create` returns. -/
structure CreatedPercpu (unit : UnitSize) (objNum : BitVec 32) (psmpool : SimplePercpuMempool) :
    Prop where
  rounded : Rounded unit objNum psmpool.objSize psmpool.objsPerArea psmpool.areas
  length : psmpool.percpuPtr.length = psmpool.areas.toNat
  below : ∀ r < psmpool.areas.toNat, (psmpool.base r).toNat + unit.bytes.toNat < 2 ^ 64
  apart : RowsApart (fun r => (psmpool.base r).toNat) psmpool.areas.toNat unit.bytes.toNat
  allocatedSize : psmpool.allocatedSize = 0
  areaId : psmpool.areaId = 0

theorem simplePercpuMempoolCreate_some {unit : UnitSize} {mem : PoolMemory}
    (hmem : mem.Documented unit) {objNum objSize : BitVec 32} (hnum : 0 < objNum.toInt)
    {psmpool : SimplePercpuMempool} {log : List (Entry PoolPart)}
    (h : simplePercpuMempoolCreate unit mem objNum objSize = some (some psmpool, log)) :
    CreatedPercpu unit objNum psmpool := by
  rw [simplePercpuMempoolCreate] at h
  split at h
  · cases h
  split at h
  · cases h
  next hext =>
  split at h
  · cases h
  next hper =>
  split at h
  · cases h
  dsimp only at h
  split at h
  · next hok =>
    have hsize := objSize_pos_of_ne_zero hext hper
    have hunit : objSize.toNat ≤ unit.bytes.toNat :=
      Nat.le_of_not_lt fun hlt => hper ((objsPerArea_eq_zero_iff hsize).mpr hlt)
    have hne := allocAreas_ne_zero mem.area
      (areasFor objNum (objsPerArea unit objSize)).toNat 0
    rw [allocAreas_all hok] at h hne
    have hbase : ∀ r < (areasFor objNum (objsPerArea unit objSize)).toNat,
        ((List.range' 0 (areasFor objNum (objsPerArea unit objSize)).toNat).map
          mem.area).getD r 0 = mem.area r := by
      intro r hr
      simp [List.getD_eq_getElem?_getD, hr]
    have hne' : ∀ r < (areasFor objNum (objsPerArea unit objSize)).toNat, mem.area r ≠ 0 := by
      intro r hr
      exact hne _ (List.mem_map_of_mem (List.mem_range'_1.mpr ⟨Nat.zero_le r, by omega⟩))
    obtain ⟨hpool, -⟩ := Prod.mk.inj (Option.some.inj h)
    obtain rfl := Option.some.inj hpool
    exact
      { rounded := rounded hnum hsize hunit
        length := by simp
        below := fun r hr => by
          rw [SimplePercpuMempool.base, hbase r hr]
          exact hmem.below r (hne' r hr)
        apart := fun r hr r' hr' hrr' => by
          dsimp only [SimplePercpuMempool.base]
          rw [hbase r hr, hbase r' hr']
          exact hmem.apart r r' hrr' (hne' r hr) (hne' r' hr')
        allocatedSize := rfl
        areaId := rfl }
  · cases h

section Objects

variable {unit : UnitSize} {objNum : BitVec 32} {psmpool : SimplePercpuMempool}

/-- The pool when `a` objects of the area `r` are handed out. -/
def SimplePercpuMempool.serving (psmpool : SimplePercpuMempool) (r a : ℕ) : SimplePercpuMempool :=
  { psmpool with
    areaId := BitVec.ofNat 32 r
    allocatedSize := BitVec.ofNat 64 (a * psmpool.objSize.toNat) }

/-- The pool after `i` calls: no area is left before it is full. -/
structure AfterCalls (psmpool p : SimplePercpuMempool) (i r a : ℕ) : Prop where
  eq : p = psmpool.serving r a
  count : i = r * psmpool.objsPerArea.toNat + a
  le : a ≤ psmpool.objsPerArea.toNat
  started : a = 0 → i = 0

theorem CreatedPercpu.areaSize_toNat (h : CreatedPercpu unit objNum psmpool) :
    psmpool.areaSize.toNat = psmpool.objsPerArea.toNat * psmpool.objSize.toNat := by
  have hfits := h.rounded.per_fits
  have hlt := unit.lt
  rw [SimplePercpuMempool.areaSize, BitVec.zeroExtend, BitVec.toNat_setWidth,
    BitVec.toNat_mul, Nat.mul_comm psmpool.objSize.toNat]
  rw [Nat.mod_eq_of_lt (b := 2 ^ 32) (by omega), Nat.mod_eq_of_lt (by omega)]

theorem CreatedPercpu.afterCalls_zero (h : CreatedPercpu unit objNum psmpool) :
    AfterCalls psmpool psmpool 0 0 0 where
  eq := by
    have hsame : ∀ id size, id = psmpool.areaId → size = psmpool.allocatedSize →
        psmpool = { psmpool with areaId := id, allocatedSize := size } := by
      rintro id size rfl rfl
      rfl
    refine hsame _ _ h.areaId.symm ?_
    rw [h.allocatedSize, Nat.zero_mul]
    rfl
  count := by omega
  le := Nat.zero_le _
  started := fun _ => rfl

theorem CreatedPercpu.getElem?_base (h : CreatedPercpu unit objNum psmpool) {r : ℕ}
    (hr : r < psmpool.areas.toNat) : psmpool.percpuPtr[r]? = some (psmpool.base r) := by
  have hlen : r < psmpool.percpuPtr.length := h.length ▸ hr
  rw [SimplePercpuMempool.base, List.getD_eq_getElem?_getD, List.getElem?_eq_getElem hlen,
    Option.getD_some]

theorem percpuObj_eq {r a : ℕ} (ha : a < psmpool.objsPerArea.toNat) :
    percpuObj psmpool (r * psmpool.objsPerArea.toNat + a) =
      psmpool.base r + BitVec.ofNat 64 (a * psmpool.objSize.toNat) := by
  have hdiv : (r * psmpool.objsPerArea.toNat + a) / psmpool.objsPerArea.toNat = r := by
    rw [Nat.mul_comm, Nat.mul_add_div (by omega), Nat.div_eq_of_lt ha, Nat.add_zero]
  rw [percpuObj, hdiv, Nat.mul_add_mod_of_lt ha]

/-- The area is full exactly if one more object does not fit into `area_size`. -/
theorem CreatedPercpu.full_iff (h : CreatedPercpu unit objNum psmpool) {a : ℕ}
    (ha : a ≤ psmpool.objsPerArea.toNat) :
    BitVec.ofNat 64 (a * psmpool.objSize.toNat) + psmpool.objSize.zeroExtend 64 >
      psmpool.areaSize ↔ a = psmpool.objsPerArea.toNat := by
  have hfits := h.rounded.per_fits
  have hunit := unit.lt
  have hsize := h.rounded.size_pos
  have hsizelt := psmpool.objSize.isLt
  have hle : a * psmpool.objSize.toNat ≤ psmpool.objsPerArea.toNat * psmpool.objSize.toNat :=
    Nat.mul_le_mul_right _ ha
  have hsum : (BitVec.ofNat 64 (a * psmpool.objSize.toNat) +
      psmpool.objSize.zeroExtend 64).toNat = (a + 1) * psmpool.objSize.toNat := by
    rw [BitVec.add_comm, zeroExtend_add_ofNat, BitVec.toNat_ofNat, Nat.mod_eq_of_lt]
    rw [Nat.succ_mul]
    omega
  rw [gt_iff_lt, BitVec.lt_def, h.areaSize_toNat, hsum, Nat.mul_lt_mul_right hsize]
  omega

theorem CreatedPercpu.leaveFullArea_full (h : CreatedPercpu unit objNum psmpool) (r : ℕ) :
    leaveFullArea (psmpool.serving r psmpool.objsPerArea.toNat) = psmpool.serving (r + 1) 0 := by
  refine (if_pos ((h.full_iff (Nat.le_refl _)).mpr rfl)).trans ?_
  rw [SimplePercpuMempool.serving, SimplePercpuMempool.serving, Nat.zero_mul, BitVec.ofNat_add]
  rfl

theorem CreatedPercpu.leaveFullArea_of_lt (h : CreatedPercpu unit objNum psmpool) (r : ℕ) {a : ℕ}
    (ha : a < psmpool.objsPerArea.toNat) :
    leaveFullArea (psmpool.serving r a) = psmpool.serving r a := by
  refine if_neg fun hgt => ?_
  exact ha.ne ((h.full_iff ha.le).mp hgt)

theorem CreatedPercpu.takeObject_serving (h : CreatedPercpu unit objNum psmpool) {r a : ℕ}
    (hr : r < psmpool.areas.toNat) (ha : a < psmpool.objsPerArea.toNat) :
    takeObject (psmpool.serving r a) =
      some (percpuObj psmpool (r * psmpool.objsPerArea.toNat + a), psmpool.serving r (a + 1)) := by
  have hid : (BitVec.ofNat 32 r).toNat = r := by
    rw [BitVec.toNat_ofNat, Nat.mod_eq_of_lt (hr.trans psmpool.areas.isLt)]
  have hnext : BitVec.ofNat 64 (a * psmpool.objSize.toNat) + psmpool.objSize.zeroExtend 64 =
      BitVec.ofNat 64 ((a + 1) * psmpool.objSize.toNat) := by
    rw [BitVec.add_comm, zeroExtend_add_ofNat]
  rw [takeObject, SimplePercpuMempool.serving, SimplePercpuMempool.serving, hid, h.getElem?_base hr,
    Option.map_some, percpuObj_eq ha, hnext]

/-- One call within the capacity reads an area of the pool and returns the next object. -/
theorem CreatedPercpu.alloc_step (h : CreatedPercpu unit objNum psmpool)
    {p : SimplePercpuMempool} {i r a : ℕ} (hp : AfterCalls psmpool p i r a)
    (hi : i < psmpool.areas.toNat * psmpool.objsPerArea.toNat) :
    ∃ p' r' a', simplePercpuMempoolAlloc p = some (percpuObj psmpool i, p') ∧
      AfterCalls psmpool p' (i + 1) r' a' := by
  obtain ⟨rfl, rfl, hle, hstarted⟩ := hp
  have hper := h.rounded.per_pos
  rw [simplePercpuMempoolAlloc]
  by_cases ha : a = psmpool.objsPerArea.toNat
  · subst ha
    have hr : r + 1 < psmpool.areas.toNat := by
      refine Nat.lt_of_mul_lt_mul_right (a := psmpool.objsPerArea.toNat) ?_
      rwa [Nat.succ_mul]
    refine ⟨_, r + 1, 1, ?_, ⟨rfl, by rw [Nat.succ_mul], hper, by omega⟩⟩
    rw [h.leaveFullArea_full, h.takeObject_serving hr hper, Nat.add_zero, Nat.succ_mul]
  · have hlt : a < psmpool.objsPerArea.toNat := by omega
    have hr : r < psmpool.areas.toNat := by
      refine Nat.lt_of_mul_lt_mul_right (a := psmpool.objsPerArea.toNat) ?_
      omega
    refine ⟨_, r, a + 1, ?_, ⟨rfl, by omega, hlt, by omega⟩⟩
    rw [h.leaveFullArea_of_lt r hlt, h.takeObject_serving hr hlt]

/-- The calls within the capacity never read past the areas. -/
theorem CreatedPercpu.allocFirstPercpu_eq (h : CreatedPercpu unit objNum psmpool) (n : ℕ)
    {p : SimplePercpuMempool} {i r a : ℕ} (hp : AfterCalls psmpool p i r a)
    (hn : i + n ≤ psmpool.areas.toNat * psmpool.objsPerArea.toNat) :
    allocFirstPercpu n p = some ((List.range' i n).map (percpuObj psmpool)) := by
  induction n generalizing p i r a with
  | zero => rfl
  | succ n ih =>
    obtain ⟨p', r', a', halloc, hp'⟩ := h.alloc_step hp (by omega)
    rw [allocFirstPercpu, halloc, Option.bind_some, ih hp' (by omega), List.range'_succ]
    rfl

theorem CreatedPercpu.percpuObj_toNat (h : CreatedPercpu unit objNum psmpool) {i : ℕ}
    (hi : i < psmpool.areas.toNat * psmpool.objsPerArea.toNat) :
    (percpuObj psmpool i).toNat = (psmpool.base (i / psmpool.objsPerArea.toNat)).toNat +
      i % psmpool.objsPerArea.toNat * psmpool.objSize.toNat := by
  have hper := h.rounded.per_pos
  have hbelow := h.below _ ((Nat.div_lt_iff_lt_mul hper).mpr hi)
  have hfits := h.rounded.per_fits
  have hle : i % psmpool.objsPerArea.toNat * psmpool.objSize.toNat ≤
      psmpool.objsPerArea.toNat * psmpool.objSize.toNat :=
    Nat.mul_le_mul_right _ (Nat.mod_lt i hper).le
  rw [percpuObj, BitVec.toNat_add, BitVec.toNat_ofNat, Nat.add_mod_mod, Nat.mod_eq_of_lt]
  omega

/-- The objects are the cells of the areas. -/
theorem CreatedPercpu.objRange_eq (h : CreatedPercpu unit objNum psmpool) {i : ℕ}
    (hi : i < psmpool.areas.toNat * psmpool.objsPerArea.toNat) :
    objRange psmpool.objSize (percpuObj psmpool i) =
      cell (fun r => (psmpool.base r).toNat) psmpool.objsPerArea.toNat psmpool.objSize.toNat i := by
  rw [objRange, h.percpuObj_toNat hi, cell, slot_eq]

theorem CreatedPercpu.isAddr_iff (h : CreatedPercpu unit objNum psmpool) (addr : BitVec 64) :
    isSimplePercpuMempoolAddr psmpool addr = true ↔
      ∃ r < psmpool.areas.toNat, addr.toNat ∈ Set.Ico (psmpool.base r).toNat
        ((psmpool.base r).toNat + psmpool.objsPerArea.toNat * psmpool.objSize.toNat) := by
  have hfits := h.rounded.per_fits
  -- no sum of a base and `area_size` wraps
  have hend : ∀ r < psmpool.areas.toNat, (psmpool.base r + psmpool.areaSize).toNat =
      (psmpool.base r).toNat + psmpool.objsPerArea.toNat * psmpool.objSize.toNat := by
    intro r hr
    have hbelow := h.below r hr
    rw [BitVec.toNat_add, h.areaSize_toNat, Nat.mod_eq_of_lt]
    omega
  have hone : ∀ r < psmpool.areas.toNat,
      ((psmpool.base r ≤ addr && addr < psmpool.base r + psmpool.areaSize) = true ↔
        addr.toNat ∈ Set.Ico (psmpool.base r).toNat
          ((psmpool.base r).toNat + psmpool.objsPerArea.toNat * psmpool.objSize.toNat)) := by
    intro r hr
    rw [Bool.and_eq_true, decide_eq_true_iff, decide_eq_true_iff, BitVec.le_def, BitVec.lt_def,
      hend r hr, Set.mem_Ico]
  rw [isSimplePercpuMempoolAddr, List.take_of_length_le h.length.le, List.any_eq_true]
  constructor
  · rintro ⟨base, hbase, haddr⟩
    obtain ⟨r, hr, rfl⟩ := List.getElem_of_mem hbase
    have hr' : r < psmpool.areas.toNat := h.length ▸ hr
    have hget : psmpool.percpuPtr[r] = psmpool.base r := by
      have hsome := h.getElem?_base hr'
      rwa [List.getElem?_eq_getElem hr, Option.some.injEq] at hsome
    rw [hget] at haddr
    exact ⟨r, hr', (hone r hr').mp haddr⟩
  · rintro ⟨r, hr, haddr⟩
    exact ⟨psmpool.base r, List.mem_of_getElem? (h.getElem?_base hr), (hone r hr).mpr haddr⟩

/-- For every pool of at least one object: the calls within the capacity never read past
the areas, and so do as many as the recheck lets through; the `i`-th returns object
`i % objs_per_area` of area `i / objs_per_area`; the objects are disjoint and inside
their areas; and `is_simple_percpu_mempool_addr` holds exactly in the objects. -/
theorem simplePercpuMempool_serves {mem : PoolMemory} (hmem : mem.Documented unit)
    (hnum : 0 < objNum.toInt) {objSize : BitVec 32} {log : List (Entry PoolPart)}
    (hcreate : simplePercpuMempoolCreate unit mem objNum objSize = some (some psmpool, log)) :
    (∀ n ≤ psmpool.areas.toNat * psmpool.objsPerArea.toNat,
      allocFirstPercpu n psmpool = some ((List.range n).map fun i =>
        psmpool.percpuPtr.getD (i / psmpool.objsPerArea.toNat) 0 +
          BitVec.ofNat 64 (i % psmpool.objsPerArea.toNat * psmpool.objSize.toNat))) ∧
      (∀ require, recheckPercpuMempool require psmpool = 0 →
        require.toNat ≤ psmpool.areas.toNat * psmpool.objsPerArea.toNat) ∧
      (∀ i < psmpool.areas.toNat * psmpool.objsPerArea.toNat,
        i / psmpool.objsPerArea.toNat < psmpool.percpuPtr.length ∧
        objRange psmpool.objSize (percpuObj psmpool i) ⊆
          Set.Ico (psmpool.base (i / psmpool.objsPerArea.toNat)).toNat
            ((psmpool.base (i / psmpool.objsPerArea.toNat)).toNat + unit.bytes.toNat) ∧
        isSimplePercpuMempoolAddr psmpool (percpuObj psmpool i) = true ∧
        ∀ j < psmpool.areas.toNat * psmpool.objsPerArea.toNat, i ≠ j →
          Disjoint (objRange psmpool.objSize (percpuObj psmpool i))
            (objRange psmpool.objSize (percpuObj psmpool j))) ∧
      ∀ addr, isSimplePercpuMempoolAddr psmpool addr = true ↔
        ∃ i < psmpool.areas.toNat * psmpool.objsPerArea.toNat,
          addr.toNat ∈ objRange psmpool.objSize (percpuObj psmpool i) := by
  have h := simplePercpuMempoolCreate_some hmem hnum hcreate
  have hper := h.rounded.per_pos
  have hfits := h.rounded.per_fits
  have hiff : ∀ addr, isSimplePercpuMempoolAddr psmpool addr = true ↔
      ∃ i < psmpool.areas.toNat * psmpool.objsPerArea.toNat,
        addr.toNat ∈ objRange psmpool.objSize (percpuObj psmpool i) := by
    intro addr
    rw [h.isAddr_iff]
    constructor
    · rintro ⟨r, hr, haddr⟩
      obtain ⟨i, hi, hmem⟩ := exists_mem_cell (fun r => (psmpool.base r).toNat)
        h.rounded.size_pos hr haddr
      exact ⟨i, hi, h.objRange_eq hi ▸ hmem⟩
    · rintro ⟨i, hi, haddr⟩
      rw [h.objRange_eq hi] at haddr
      exact ⟨_, (Nat.div_lt_iff_lt_mul hper).mpr hi, cell_subset hper i haddr⟩
  refine ⟨fun n hn => ?_, fun require hrecheck => ?_, fun i hi => ⟨?_, ?_, ?_, fun j hj hij => ?_⟩,
    hiff⟩
  · rw [h.allocFirstPercpu_eq n h.afterCalls_zero (by omega), ← List.range_eq_range']
    rfl
  · rw [recheckPercpuMempool] at hrecheck
    split at hrecheck
    · cases hrecheck
    · next hle =>
      rw [← h.rounded.product]
      exact Nat.le_of_not_lt hle
  · rw [h.length]
    exact (Nat.div_lt_iff_lt_mul hper).mpr hi
  · rw [h.objRange_eq hi]
    exact (cell_subset hper i).trans (Set.Ico_subset_Ico_right (by omega))
  · refine (hiff _).mpr ⟨i, hi, ?_⟩
    exact ⟨Nat.le_refl _, Nat.lt_add_of_pos_right h.rounded.size_pos⟩
  · rw [h.objRange_eq hi, h.objRange_eq hj]
    exact disjoint_cell h.apart hfits hi hj hij

end Objects

theorem twoAreas_documented : twoAreas.Documented unit4k := by
  have hlt : ∀ n, twoAreas.area n ≠ 0 → n < 2 := by
    intro n hne
    by_contra hge
    exact hne (if_neg hge)
  refine { below := fun n hn => ?_, apart := fun m n hmn hm hn => ?_ }
  · have hn2 := hlt n hn
    interval_cases n <;> decide
  · have hm2 := hlt m hm
    have hn2 := hlt n hn
    interval_cases m <;> interval_cases n
    · exact absurd rfl hmn
    · exact Set.Ico_disjoint_Ico.mpr (by decide)
    · exact Set.Ico_disjoint_Ico.mpr (by decide)
    · exact absurd rfl hmn

/-- The pool of 4 objects of 16 KiB in two areas. -/
def twoAreasPool : SimplePercpuMempool where
  percpuPtr := [0x60fe00000000, 0x60fe00008000]
  allocatedSize := 0
  objSize := 16384
  areas := 2
  objsPerArea := 2
  areaId := 0

theorem simplePercpuMempool_serves_four :
    allocFirstPercpu 4 twoAreasPool =
      some [0x60fe00000000, 0x60fe00004000, 0x60fe00008000, 0x60fe0000c000] := by
  have hcreate : simplePercpuMempoolCreate unit4k twoAreas 4 16384 =
      some (some twoAreasPool, [.obtained .psmpool, .obtained .percpuPtr,
        .obtained (.area 0x60fe00000000), .obtained (.area 0x60fe00008000)]) := rfl
  have hserves := simplePercpuMempool_serves twoAreas_documented (by decide) hcreate
  exact (hserves.1 4 (by decide)).trans (by decide)

end Plugsched
