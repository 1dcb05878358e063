/-
The memory pools of `mempool.h` that hold the fields a scheduler adds.

A pool is one block of `vmalloc`.  `simpleMempoolAlloc` hands out the objects in order
and does not look at the end of the block; `recheckMempool` compares numbers of objects,
and the size of the block is a product of C ints.  `releaseReserve` gives a field back:
whether the pool holds it is decided by its address.

* `allocFirst_eq` — the objects are slots from the start of the block on;
* `served_iff` — they stay in the block if the block has their bytes;
* `kfreed_iff` — when every release of a history is right.
-/
import Plugsched.SyncSched
import Plugsched.Slots

open Slots

namespace Plugsched

/-- `struct simple_mempool`. -/
structure SimpleMempool where
  vstart : BitVec 64
  vend : BitVec 64
  allocAddr : BitVec 64
  objSize : BitVec 32
  objNum : BitVec 32
  deriving DecidableEq

/-- `vmalloc_node` on node 0: the address of the block for a size, 0 when it fails. -/
abbrev VmallocNode := BitVec 64 → BitVec 64

/-- A request of no bytes fails, and so does one of more bytes than there can be memory;
a block ends below the top of the address space. -/
structure VmallocNode.Documented (vmallocNode : VmallocNode) : Prop where
  zero : vmallocNode 0 = 0
  huge : ∀ size, 2 ^ 63 ≤ size.toNat → vmallocNode size = 0
  below : ∀ size, vmallocNode size ≠ 0 → (vmallocNode size).toNat + size.toNat < 2 ^ 64

/-- `is_simple_mempool_addr`. -/
def isSimpleMempoolAddr (smpool : SimpleMempool) (addr : BitVec 64) : Bool :=
  smpool.vstart ≤ addr && addr ≤ smpool.vend

/-- `simple_mempool_alloc`. -/
def simpleMempoolAlloc (smpool : SimpleMempool) : BitVec 64 × SimpleMempool :=
  (smpool.allocAddr,
    { smpool with allocAddr := smpool.allocAddr + smpool.objSize.zeroExtend 64 })

/-- `obj_num * obj_size`, an `int`, as an `unsigned long`. -/
def mempoolBytes (objNum objSize : BitVec 32) : BitVec 64 := (objNum * objSize).signExtend 64

/-- `simple_mempool_create`; `kzalloc` tells whether the structure can be allocated. -/
def simpleMempoolCreate (kzalloc : Bool) (vmallocNode : VmallocNode)
    (objNum objSize : BitVec 32) : Option SimpleMempool :=
  if kzalloc = false then none
  else
    let vstart := vmallocNode (mempoolBytes objNum objSize)
    if vstart = 0 then none
    else
      some
        { vstart := vstart
          vend := vstart + mempoolBytes objNum objSize
          allocAddr := vstart
          objSize := objSize
          objNum := objNum }

/-- `recheck_mempool_..`; the comparison is one of unsigned ints. -/
def recheckMempool (require : BitVec 32) (smpool : SimpleMempool) : ℤ :=
  if require > smpool.objNum then -ENOMEM else 0

/-- What the first `n` calls of `simple_mempool_alloc` return. -/
def allocFirst : ℕ → SimpleMempool → List (BitVec 64)
  | 0, _ => []
  | n + 1, smpool => (simpleMempoolAlloc smpool).1 :: allocFirst n (simpleMempoolAlloc smpool).2

/-! ### A new pool -/

/-- The address of the `k`-th object of a pool. -/
def SimpleMempool.objAddr (smpool : SimpleMempool) (k : ℕ) : BitVec 64 :=
  smpool.vstart + BitVec.ofNat 64 (k * smpool.objSize.toNat)

theorem mempoolBytes_toNat {objNum objSize : BitVec 32}
    (h : (mempoolBytes objNum objSize).toNat < 2 ^ 63) :
    (mempoolBytes objNum objSize).toNat = (objNum * objSize).toNat ∧
      (objNum * objSize).toNat < 2 ^ 31 := by
  have hlt : (objNum * objSize).toNat < 2 ^ 32 := (objNum * objSize).isLt
  have hsign : (mempoolBytes objNum objSize).toNat =
      (objNum * objSize).toNat + if (objNum * objSize).msb then 2 ^ 64 - 2 ^ 32 else 0 := by
    rw [mempoolBytes, BitVec.toNat_signExtend, BitVec.toNat_setWidth, Nat.mod_eq_of_lt]
    omega
  cases hmsb : (objNum * objSize).msb with
  | true =>
    rw [hmsb, if_pos rfl] at hsign
    omega
  | false =>
    rw [hmsb] at hsign
    have hsmall : 2 * (objNum * objSize).toNat < 2 ^ 32 :=
      BitVec.msb_eq_false_iff_two_mul_lt.mp hmsb
    exact ⟨by simpa using hsign, by omega⟩

/-- What `simple_mempool_create` returns. -/
structure CreatedPool (objNum objSize : BitVec 32) (smpool : SimpleMempool) : Prop where
  pos : 0 < (objNum * objSize).toNat
  lt : (objNum * objSize).toNat < 2 ^ 31
  bytes : (mempoolBytes objNum objSize).toNat = (objNum * objSize).toNat
  vstart_ne : smpool.vstart ≠ 0
  top : smpool.vstart.toNat + (objNum * objSize).toNat < 2 ^ 64
  vend : smpool.vend.toNat = smpool.vstart.toNat + (objNum * objSize).toNat
  allocAddr : smpool.allocAddr = smpool.vstart
  objSize : smpool.objSize = objSize
  objNum : smpool.objNum = objNum

theorem simpleMempoolCreate_some {kzalloc : Bool} {vmallocNode : VmallocNode}
    (hv : vmallocNode.Documented) {objNum objSize : BitVec 32} {smpool : SimpleMempool}
    (h : simpleMempoolCreate kzalloc vmallocNode objNum objSize = some smpool) :
    CreatedPool objNum objSize smpool := by
  rw [simpleMempoolCreate] at h
  split at h
  · cases h
  · dsimp only at h
    split at h
    · cases h
    · next hne =>
      obtain rfl := Option.some.inj h
      have hlt : (mempoolBytes objNum objSize).toNat < 2 ^ 63 :=
        Nat.lt_of_not_le fun hle => hne (hv.huge _ hle)
      have hbelow := hv.below _ hne
      obtain ⟨hbytes, hint⟩ := mempoolBytes_toNat hlt
      rw [hbytes] at hbelow
      refine
        { pos := Nat.pos_of_ne_zero fun h0 => hne ?_
          lt := hint
          bytes := hbytes
          vstart_ne := hne
          top := hbelow
          vend := ?_
          allocAddr := rfl
          objSize := rfl
          objNum := rfl }
      · have hzero : mempoolBytes objNum objSize = 0 := BitVec.eq_of_toNat_eq (hbytes.trans h0)
        rw [hzero, hv.zero]
      · show (_ + mempoolBytes objNum objSize).toNat = _
        rw [BitVec.toNat_add, hbytes, Nat.mod_eq_of_lt hbelow]

namespace CreatedPool

variable {objNum objSize : BitVec 32} {smpool : SimpleMempool}

theorem objSize_pos (h : CreatedPool objNum objSize smpool) : 0 < smpool.objSize.toNat := by
  refine Nat.pos_of_ne_zero fun h0 => ?_
  have hpos := h.pos
  rw [BitVec.toNat_mul, ← h.objSize, h0] at hpos
  simp at hpos

/-- An object that begins in the block or at its end is where it is counted to be. -/
theorem objAddr_toNat (h : CreatedPool objNum objSize smpool) {k : ℕ}
    (hk : k * smpool.objSize.toNat ≤ (objNum * objSize).toNat) :
    (smpool.objAddr k).toNat = smpool.vstart.toNat + k * smpool.objSize.toNat := by
  have htop := h.top
  rw [SimpleMempool.objAddr, BitVec.toNat_add, BitVec.toNat_ofNat, Nat.add_mod_mod,
    Nat.mod_eq_of_lt]
  omega

end CreatedPool

/-! ### The objects that are handed out -/

theorem zeroExtend_add_ofNat (s : BitVec 32) (k : ℕ) :
    s.zeroExtend 64 + BitVec.ofNat 64 (k * s.toNat) = BitVec.ofNat 64 ((k + 1) * s.toNat) := by
  rw [BitVec.zeroExtend, ← BitVec.ofNat_toNat, ← BitVec.ofNat_add, Nat.succ_mul, Nat.add_comm]

theorem allocFirst_eq (n : ℕ) (smpool : SimpleMempool) :
    allocFirst n smpool = (List.range n).map fun k =>
      smpool.allocAddr + BitVec.ofNat 64 (k * smpool.objSize.toNat) := by
  induction n generalizing smpool with
  | zero => rfl
  | succ n ih =>
    have hshift : ∀ k, smpool.allocAddr + smpool.objSize.zeroExtend 64 +
        BitVec.ofNat 64 (k * smpool.objSize.toNat) =
          smpool.allocAddr + BitVec.ofNat 64 ((k + 1) * smpool.objSize.toNat) := by
      intro k
      rw [BitVec.add_assoc, zeroExtend_add_ofNat]
    rw [allocFirst, ih, List.range_succ_eq_map, List.map_cons, List.map_map]
    congr 1
    · simp [simpleMempoolAlloc]
    · exact List.map_congr_left fun k _ => hshift k

/-- The addresses of an object. -/
def objRange (objSize : BitVec 32) (p : BitVec 64) : Set ℕ :=
  Set.Ico p.toNat (p.toNat + objSize.toNat)

/-- The objects do not overlap and lie in the block of `bytes` bytes at `vstart`. -/
structure Served (smpool : SimpleMempool) (bytes : ℕ) (objs : List (BitVec 64)) : Prop where
  apart : objs.Pairwise fun p q => Disjoint (objRange smpool.objSize p) (objRange smpool.objSize q)
  within : ∀ p ∈ objs,
    objRange smpool.objSize p ⊆ Set.Ico smpool.vstart.toNat (smpool.vstart.toNat + bytes)

section Served

variable {objNum objSize : BitVec 32} {smpool : SimpleMempool}

theorem CreatedPool.allocFirst (h : CreatedPool objNum objSize smpool) (n : ℕ) :
    allocFirst n smpool = (List.range n).map smpool.objAddr := by
  rw [allocFirst_eq, h.allocAddr]
  rfl

theorem CreatedPool.objRange (h : CreatedPool objNum objSize smpool) {k : ℕ}
    (hk : k * smpool.objSize.toNat ≤ (objNum * objSize).toNat) :
    objRange smpool.objSize (smpool.objAddr k) =
      slot smpool.vstart.toNat smpool.objSize.toNat k := by
  rw [Plugsched.objRange, h.objAddr_toNat hk, slot_eq]

/-- The first `n` objects are served well exactly if the block has their bytes. -/
theorem served_iff (h : CreatedPool objNum objSize smpool) (n : ℕ) :
    Served smpool (objNum * objSize).toNat (allocFirst n smpool) ↔
      n * smpool.objSize.toNat ≤ (objNum * objSize).toNat := by
  have hpos := h.objSize_pos
  rw [h.allocFirst n]
  constructor
  · intro hserved
    by_contra hgt
    -- the first object that does not fit is handed out
    have hle : (objNum * objSize).toNat / smpool.objSize.toNat * smpool.objSize.toNat ≤
        (objNum * objSize).toNat := Nat.div_mul_le_self _ _
    have hlt : (objNum * objSize).toNat / smpool.objSize.toNat < n := by
      rw [Nat.div_lt_iff_lt_mul hpos]
      omega
    have hwithin := hserved.within _ (List.mem_map_of_mem (List.mem_range.mpr hlt))
    rw [h.objRange hle] at hwithin
    exact slot_div_not_within hpos _ _ hwithin
  · intro hle
    have hk : ∀ k < n, k * smpool.objSize.toNat ≤ (objNum * objSize).toNat := by
      intro k hk
      exact (Nat.mul_le_mul_right _ hk.le).trans hle
    constructor
    · rw [List.pairwise_map]
      refine List.Pairwise.imp_of_mem ?_ List.nodup_range
      intro i j hi hj hij
      rw [h.objRange (hk i (List.mem_range.mp hi)), h.objRange (hk j (List.mem_range.mp hj))]
      exact disjoint_slot hij
    · intro p hp
      obtain ⟨k, hkn, rfl⟩ := List.mem_map.mp hp
      rw [h.objRange (hk k (List.mem_range.mp hkn))]
      exact (slots_within_iff hpos).mpr hle k (List.mem_range.mp hkn)

/-- The product of two C ints is positive and no overflow. -/
def ProductFits (objNum objSize : BitVec 32) : Prop :=
  0 < objNum.toInt ∧ 0 < objSize.toInt ∧ objNum.toInt * objSize.toInt < 2 ^ 31

instance (objNum objSize : BitVec 32) : Decidable (ProductFits objNum objSize) :=
  inferInstanceAs (Decidable (_ ∧ _ ∧ _))

theorem toInt_of_pos {x : BitVec 32} (h : 0 < x.toInt) : x.toInt = x.toNat := by
  have hlt : x.toNat < 2 ^ 32 := x.isLt
  rw [BitVec.toInt_eq_toNat_cond] at h ⊢
  split at h <;> omega

theorem toInt_of_lt {x : BitVec 32} (h : x.toNat < 2 ^ 31) : x.toInt = x.toNat :=
  BitVec.toInt_eq_toNat_of_lt (by omega)

theorem productFits_iff (hpos : 0 < (objNum * objSize).toNat)
    (hlt : (objNum * objSize).toNat < 2 ^ 31) :
    ProductFits objNum objSize ↔ objNum.toNat * objSize.toNat = (objNum * objSize).toNat := by
  have hmul : (objNum * objSize).toNat = objNum.toNat * objSize.toNat % 2 ^ 32 :=
    BitVec.toNat_mul objNum objSize
  constructor
  · rintro ⟨hnum, hsize, hprod⟩
    rw [toInt_of_pos hnum, toInt_of_pos hsize] at hprod
    have hprod' : objNum.toNat * objSize.toNat < 2 ^ 31 := by exact_mod_cast hprod
    rw [hmul, Nat.mod_eq_of_lt (by omega)]
  · intro heq
    have hprod : 0 < objNum.toNat * objSize.toNat ∧ objNum.toNat * objSize.toNat < 2 ^ 31 := by
      rw [heq]
      exact ⟨hpos, hlt⟩
    have hnum : 0 < objNum.toNat := Nat.pos_of_mul_pos_right hprod.1
    have hsize : 0 < objSize.toNat := Nat.pos_of_mul_pos_left hprod.1
    have hnumlt : objNum.toNat ≤ objNum.toNat * objSize.toNat := Nat.le_mul_of_pos_right _ hsize
    have hsizelt : objSize.toNat ≤ objNum.toNat * objSize.toNat := Nat.le_mul_of_pos_left _ hnum
    rw [ProductFits, toInt_of_lt (by omega), toInt_of_lt (by omega)]
    exact ⟨by exact_mod_cast hnum, by exact_mod_cast hsize, by exact_mod_cast hprod.2⟩

theorem recheckMempool_eq_zero {require : BitVec 32} :
    recheckMempool require smpool = 0 ↔ require.toNat ≤ smpool.objNum.toNat := by
  rw [recheckMempool]
  split
  · next hgt =>
    have hlt : smpool.objNum.toNat < require.toNat := hgt
    simp only [ENOMEM]
    omega
  · next hle =>
    have hle' : require.toNat ≤ smpool.objNum.toNat := Nat.le_of_not_lt hle
    simpa using hle'

/-- For every pool and every `require` that passes the recheck, the first `require`
objects do not overlap and lie in the block exactly if the `int` product is no overflow
or is still enough for these objects; for all of them, exactly if it is no overflow. -/
theorem simpleMempool_served_iff {kzalloc : Bool} {vmallocNode : VmallocNode}
    (hv : vmallocNode.Documented)
    (hcreate : simpleMempoolCreate kzalloc vmallocNode objNum objSize = some smpool) :
    (∀ require, recheckMempool require smpool = 0 →
      (Served smpool (mempoolBytes objNum objSize).toNat (allocFirst require.toNat smpool) ↔
        ProductFits objNum objSize ∨
          require.toNat * objSize.toNat ≤ objNum.toNat * objSize.toNat % 2 ^ 32)) ∧
      ((∀ require, recheckMempool require smpool = 0 →
        Served smpool (mempoolBytes objNum objSize).toNat (allocFirst require.toNat smpool)) ↔
          ProductFits objNum objSize) := by
  have h := simpleMempoolCreate_some hv hcreate
  have hfits := productFits_iff h.pos h.lt
  have hmul : (objNum * objSize).toNat = objNum.toNat * objSize.toNat % 2 ^ 32 :=
    BitVec.toNat_mul objNum objSize
  have hiff : ∀ n, Served smpool (mempoolBytes objNum objSize).toNat (allocFirst n smpool) ↔
      n * objSize.toNat ≤ (objNum * objSize).toNat := by
    intro n
    rw [h.bytes, served_iff h n, h.objSize]
  have henough : ∀ require : BitVec 32, recheckMempool require smpool = 0 →
      ProductFits objNum objSize → require.toNat * objSize.toNat ≤ (objNum * objSize).toNat := by
    intro require hrecheck hprod
    rw [recheckMempool_eq_zero, h.objNum] at hrecheck
    rw [← hfits.mp hprod]
    exact Nat.mul_le_mul_right _ hrecheck
  refine ⟨fun require hrecheck => ?_, fun hall => ?_, fun hprod require hrecheck => ?_⟩
  · rw [hiff, ← hmul]
    exact ⟨.inr, fun hor => hor.elim (henough require hrecheck) id⟩
  · -- the recheck lets through as many objects as the pool counts
    have hnum := hall objNum (recheckMempool_eq_zero.mpr (by rw [h.objNum]))
    rw [hiff] at hnum
    refine hfits.mpr (le_antisymm hnum ?_)
    rw [hmul]
    exact Nat.mod_le _ _
  · rw [hiff]
    exact henough require hrecheck hprod

end Served

/-- Blocks of less than 1 TiB at the start of the area of `vmalloc`. -/
def vmallocStart : VmallocNode := fun size =>
  if size = 0 ∨ 2 ^ 40 ≤ size.toNat then 0 else 0xffffc90000000000

theorem vmallocStart_documented : vmallocStart.Documented where
  zero := rfl
  huge := by
    intro size hsize
    exact if_pos (.inr (by omega))
  below := by
    intro size hne
    rw [vmallocStart] at hne ⊢
    split at hne
    · exact absurd rfl hne
    · next hsize =>
      have hlt : ¬ 2 ^ 40 ≤ size.toNat := fun h => hsize (.inr h)
      rw [if_neg hsize]
      show 0xffffc90000000000 + size.toNat < 2 ^ 64
      omega

/-- The pool of `objNum` objects of `objSize` bytes that it makes. -/
def startPool (objNum objSize : BitVec 32) : SimpleMempool where
  vstart := 0xffffc90000000000
  vend := 0xffffc90000000000 + mempoolBytes objNum objSize
  allocAddr := 0xffffc90000000000
  objSize := objSize
  objNum := objNum

theorem simpleMempool_served_four :
    Served (startPool 4 64) 256 (allocFirst 4 (startPool 4 64)) := by
  have hcreate : simpleMempoolCreate true vmallocStart 4 64 = some (startPool 4 64) := by decide
  have hiff := (simpleMempool_served_iff vmallocStart_documented hcreate).1 4 (by decide)
  exact hiff.mpr (.inr (by decide))

/-- 16777217 objects of 256 bytes get a block of 256 bytes. -/
theorem simpleMempool_not_served :
    ¬ ∀ (kzalloc : Bool) (vmallocNode : VmallocNode), vmallocNode.Documented →
      ∀ objNum objSize smpool,
        simpleMempoolCreate kzalloc vmallocNode objNum objSize = some smpool →
        ∀ require, recheckMempool require smpool = 0 →
          Served smpool (mempoolBytes objNum objSize).toNat
            (allocFirst require.toNat smpool) := by
  intro h
  have hserved := h true vmallocStart vmallocStart_documented 16777217 256
    (startPool 16777217 256) (by decide) 2 (by decide)
  -- the second object begins where the block ends
  have hwithin := hserved.within 0xffffc90000000100 (by decide)
  have hmem := hwithin (show 0xffffc90000000100 ∈ _ by simp [objRange, startPool])
  exact absurd hmem.2 (by decide)

/-! ### Giving fields back -/

/-- What happens to fields: one is filled from the pool, or by another allocator, or is
released. -/
inductive FieldOp (F : Type*) where
  | pool (x : F)
  | other (x : F) (addr : BitVec 64)
  | release (x : F)

/-- A pool, the fields, and for every release the argument of its `kfree`, if any. -/
structure Reserve (F : Type*) where
  smp : SimpleMempool
  field : F → BitVec 64
  kfreed : List (F × Option (BitVec 64))

section Release

variable {F : Type*} [DecidableEq F]

/-- `alloc_.._reserve`, with the assignment to the field. -/
def allocReserve (s : Reserve F) (x : F) : Reserve F :=
  { s with
    smp := (simpleMempoolAlloc s.smp).2
    field := Function.update s.field x (simpleMempoolAlloc s.smp).1 }

/-- `release_.._reserve`. -/
def releaseReserve (s : Reserve F) (x : F) : Reserve F :=
  { s with
    field := Function.update s.field x 0
    kfreed := s.kfreed ++
      [(x, if isSimpleMempoolAddr s.smp (s.field x) then none else some (s.field x))] }

def Reserve.step (s : Reserve F) : FieldOp F → Reserve F
  | .pool x => allocReserve s x
  | .other x addr => { s with field := Function.update s.field x addr }
  | .release x => releaseReserve s x

def Reserve.run (s : Reserve F) (ops : List (FieldOp F)) : Reserve F := ops.foldl Reserve.step s

/-- A new pool, and no field is filled. -/
def Reserve.start (smpool : SimpleMempool) : Reserve F where
  smp := smpool
  field := fun _ => 0
  kfreed := []

/-- What a field holds: an object of the pool, or memory of the other allocator. -/
inductive Holding where
  | pool (k : ℕ)
  | other (addr : BitVec 64)

/-- Who owns what, whatever the addresses are. -/
structure Holdings (F : Type*) where
  served : ℕ
  held : F → Option Holding
  kfreed : List (F × Option (BitVec 64))

/-- What a release has to pass to `kfree`; a field that holds nothing is `NULL`. -/
def Holding.toKfree : Option Holding → Option (BitVec 64)
  | none => some 0
  | some (.pool _) => none
  | some (.other addr) => some addr

def Holdings.step (h : Holdings F) : FieldOp F → Holdings F
  | .pool x =>
    { h with served := h.served + 1, held := Function.update h.held x (some (.pool h.served)) }
  | .other x addr => { h with held := Function.update h.held x (some (.other addr)) }
  | .release x =>
    { h with
      held := Function.update h.held x none
      kfreed := h.kfreed ++ [(x, Holding.toKfree (h.held x))] }

def Holdings.run (h : Holdings F) (ops : List (FieldOp F)) : Holdings F :=
  ops.foldl Holdings.step h

def Holdings.start : Holdings F where
  served := 0
  held := fun _ => none
  kfreed := []

def FieldOp.isPool : FieldOp F → Bool
  | .pool _ => true
  | _ => false

/-- The pool is not asked for more objects than it counts, and the other allocator
returns addresses outside of the block. -/
structure Admissible (smpool : SimpleMempool) (ops : List (FieldOp F)) : Prop where
  capacity : ops.countP FieldOp.isPool ≤ smpool.objNum.toNat
  outside : ∀ x addr, .other x addr ∈ ops →
    addr.toNat ∉ Set.Ico smpool.vstart.toNat smpool.vend.toNat

/-- The address tells whose the field is: memory of the other allocator does not begin
at the end of the block, an object of the pool does not begin behind it. -/
def Holding.Recognised (smpool : SimpleMempool) : Holding → Prop
  | .pool k => k * smpool.objSize.toNat ≤ (smpool.objNum * smpool.objSize).toNat
  | .other addr => addr ≠ smpool.vend

/-- The contents of a field. -/
def Holding.addr (smpool : SimpleMempool) : Option Holding → BitVec 64
  | none => 0
  | some (.pool k) => smpool.objAddr k
  | some (.other addr) => addr

/-- The holdings after a history are those that its fills and releases give. -/
structure Represents (smpool : SimpleMempool) (ops : List (FieldOp F)) (s : Reserve F)
    (h : Holdings F) : Prop where
  smp : s.smp = { smpool with allocAddr := smpool.objAddr h.served }
  served : h.served = ops.countP FieldOp.isPool
  field : ∀ x, s.field x = Holding.addr smpool (h.held x)
  pool : ∀ x k, h.held x = some (.pool k) → k < h.served
  other : ∀ x addr, h.held x = some (.other addr) → ∃ y, .other y addr ∈ ops
  length : s.kfreed.length = h.kfreed.length

variable {smpool : SimpleMempool} {objNum objSize : BitVec 32}

theorem isSimpleMempoolAddr_iff {addr : BitVec 64} :
    isSimpleMempoolAddr smpool addr = true ↔
      smpool.vstart.toNat ≤ addr.toNat ∧ addr.toNat ≤ smpool.vend.toNat := by
  simp [isSimpleMempoolAddr, BitVec.le_def]

/-- The test on an object of the pool. -/
theorem CreatedPool.isAddr_pool (hc : CreatedPool objNum objSize smpool) {k : ℕ}
    (hk : k < objNum.toNat) :
    isSimpleMempoolAddr smpool (smpool.objAddr k) = true ↔
      k * objSize.toNat ≤ (objNum * objSize).toNat := by
  have hsmall : k * objSize.toNat < 2 ^ 64 := by
    calc k * objSize.toNat < 2 ^ 32 * 2 ^ 32 :=
          Nat.mul_lt_mul'' (hk.trans objNum.isLt) objSize.isLt
      _ = 2 ^ 64 := by norm_num
  have htop := hc.top
  rw [isSimpleMempoolAddr_iff, hc.vend, SimpleMempool.objAddr, hc.objSize, BitVec.toNat_add,
    BitVec.toNat_ofNat, Nat.add_mod_mod]
  -- past the end the sum wraps to an address below the block
  constructor
  · omega
  · omega

/-- The test on memory of the other allocator. -/
theorem CreatedPool.isAddr_other (hc : CreatedPool objNum objSize smpool) {addr : BitVec 64}
    (haddr : addr.toNat ∉ Set.Ico smpool.vstart.toNat smpool.vend.toNat) :
    isSimpleMempoolAddr smpool addr = true ↔ addr = smpool.vend := by
  rw [isSimpleMempoolAddr_iff, BitVec.toNat_eq]
  have hvend := hc.vend
  constructor
  · rintro ⟨hle, hle'⟩
    have hnot : ¬ addr.toNat < smpool.vend.toNat := fun hlt => haddr ⟨hle, hlt⟩
    omega
  · intro heq
    omega

theorem CreatedPool.isAddr_null (hc : CreatedPool objNum objSize smpool) :
    isSimpleMempoolAddr smpool 0 = false := by
  rw [← Bool.not_eq_true, isSimpleMempoolAddr_iff]
  rintro ⟨hle, -⟩
  have hzero : smpool.vstart.toNat = 0 := Nat.le_zero.mp hle
  exact hc.vstart_ne (BitVec.eq_of_toNat_eq hzero)

/-- One release is right exactly if the address tells whose the field is. -/
theorem passed_eq_iff (hc : CreatedPool objNum objSize smpool) {hold : Option Holding}
    (hpool : ∀ k, hold = some (.pool k) → k < objNum.toNat)
    (hother : ∀ addr, hold = some (.other addr) →
      addr.toNat ∉ Set.Ico smpool.vstart.toNat smpool.vend.toNat) :
    (if isSimpleMempoolAddr smpool (Holding.addr smpool hold) then none
      else some (Holding.addr smpool hold)) = Holding.toKfree hold ↔
      ∀ h, hold = some h → h.Recognised smpool := by
  match hold with
  | none =>
    rw [Holding.addr, hc.isAddr_null]
    simp [Holding.toKfree]
  | some (.pool k) =>
    have hiff := hc.isAddr_pool (hpool k rfl)
    rw [← hc.objNum, ← hc.objSize] at hiff
    simp [Holding.addr, Holding.toKfree, Holding.Recognised, hiff]
  | some (.other addr) =>
    have hiff := hc.isAddr_other (hother addr rfl)
    simp [Holding.addr, Holding.toKfree, Holding.Recognised, hiff]

theorem SimpleMempool.objAddr_succ (smpool : SimpleMempool) (k : ℕ) :
    smpool.objAddr k + smpool.objSize.zeroExtend 64 = smpool.objAddr (k + 1) := by
  rw [objAddr, objAddr, ← zeroExtend_add_ofNat, BitVec.add_assoc,
    BitVec.add_comm (BitVec.ofNat 64 _)]

theorem Reserve.run_concat (s : Reserve F) (ops : List (FieldOp F)) (op : FieldOp F) :
    s.run (ops ++ [op]) = (s.run ops).step op := List.foldl_concat ..

theorem Holdings.run_concat (h : Holdings F) (ops : List (FieldOp F)) (op : FieldOp F) :
    h.run (ops ++ [op]) = (h.run ops).step op := List.foldl_concat ..

/-- After an update a field holds what it is given or what it held. -/
theorem held_update {held : F → Option Holding} {hd : Option Holding} {x y : F} {v : Holding}
    (h : Function.update held x hd y = some v) : hd = some v ∨ held y = some v := by
  rw [Function.update_apply] at h
  split at h
  · exact .inl h
  · exact .inr h

/-- One operation keeps the relation. -/
theorem Represents.step {ops : List (FieldOp F)} {s : Reserve F} {h : Holdings F}
    (hr : Represents smpool ops s h) (op : FieldOp F) :
    Represents smpool (ops ++ [op]) (s.step op) (h.step op) := by
  have hold : ∀ addr, (∃ y, .other y addr ∈ ops) → ∃ y, .other y addr ∈ ops ++ [op] := by
    rintro addr ⟨y, hy⟩
    exact ⟨y, List.mem_append_left _ hy⟩
  -- what an update of one field does to the two arrays
  have hupdate : ∀ (x : F) (hd : Option Holding) (y : F),
      Function.update s.field x (Holding.addr smpool hd) y =
        Holding.addr smpool (Function.update h.held x hd y) := by
    intro x hd y
    by_cases hy : y = x
    · subst hy
      rw [Function.update_self, Function.update_self]
    · rw [Function.update_of_ne hy, Function.update_of_ne hy, hr.field]
  cases op with
  | pool x =>
    have hs : simpleMempoolAlloc s.smp = (smpool.objAddr h.served,
        { smpool with allocAddr := smpool.objAddr (h.served + 1) }) := by
      rw [hr.smp, simpleMempoolAlloc, ← smpool.objAddr_succ]
    refine
      { smp := congrArg Prod.snd hs
        served := ?_
        field := fun y => ?_
        pool := fun y k hy => ?_
        other := fun y addr hy => ?_
        length := hr.length }
    · show h.served + 1 = _
      rw [List.countP_append, hr.served]
      rfl
    · show Function.update s.field x (simpleMempoolAlloc s.smp).1 y = _
      rw [hs]
      exact hupdate x (some (.pool h.served)) y
    · rcases held_update hy with heq | hy
      · obtain rfl : h.served = k := by simpa using heq
        exact Nat.lt_succ_self _
      · exact (hr.pool y k hy).trans (Nat.lt_succ_self _)
    · rcases held_update hy with heq | hy
      · cases heq
      · exact hold addr (hr.other y addr hy)
  | other x a =>
    refine
      { smp := hr.smp
        served := ?_
        field := hupdate x (some (.other a))
        pool := fun y k hy => ?_
        other := fun y addr hy => ?_
        length := hr.length }
    · rw [List.countP_append, ← hr.served]
      rfl
    · rcases held_update hy with heq | hy
      · cases heq
      · exact hr.pool y k hy
    · rcases held_update hy with heq | hy
      · obtain rfl : a = addr := by simpa using heq
        exact ⟨x, List.mem_concat_self⟩
      · exact hold addr (hr.other y addr hy)
  | release x =>
    refine
      { smp := hr.smp
        served := ?_
        field := hupdate x none
        pool := fun y k hy => ?_
        other := fun y addr hy => ?_
        length := ?_ }
    · rw [List.countP_append, ← hr.served]
      rfl
    · rcases held_update hy with heq | hy
      · cases heq
      · exact hr.pool y k hy
    · rcases held_update hy with heq | hy
      · cases heq
      · exact hold addr (hr.other y addr hy)
    · show (s.kfreed ++ [_]).length = (h.kfreed ++ [_]).length
      rw [List.length_append, List.length_append, hr.length]
      rfl

theorem represents_run (hc : CreatedPool objNum objSize smpool) (ops : List (FieldOp F)) :
    Represents smpool ops ((Reserve.start smpool).run ops) (Holdings.start.run ops) := by
  induction ops using List.reverseRecOn with
  | nil =>
    have hzero : smpool.objAddr 0 = smpool.vstart := by simp [SimpleMempool.objAddr]
    refine
      { smp := ?_
        served := rfl
        field := fun _ => rfl
        pool := fun _ _ h => by cases h
        other := fun _ _ h => by cases h
        length := rfl }
    have hsame : ∀ addr, addr = smpool.allocAddr → smpool = { smpool with allocAddr := addr } := by
      rintro addr rfl
      rfl
    exact hsame _ (hzero.trans hc.allocAddr.symm)
  | append_singleton ops op ih =>
    rw [Reserve.run_concat, Holdings.run_concat]
    exact ih.step op

/-- The logs are those of the releases before, and the last entry. -/
theorem kfreed_release_iff (s : Reserve F) (h : Holdings F) (y : F) :
    (s.step (.release y)).kfreed = (h.step (.release y)).kfreed ↔ s.kfreed = h.kfreed ∧
      (if isSimpleMempoolAddr s.smp (s.field y) then none else some (s.field y)) =
        Holding.toKfree (h.held y) := by
  show _ ++ [_] = _ ++ [_] ↔ _
  constructor
  · intro heq
    obtain ⟨hinit, hend⟩ := List.append_inj' heq rfl
    simp only [List.cons.injEq, Prod.mk.injEq, true_and, and_true] at hend
    exact ⟨hinit, hend⟩
  · rintro ⟨hinit, hend⟩
    rw [hinit, hend]

/-- In every history the releases pass to `kfree` what they have to, exactly if at each
of them the address tells whose the field is. -/
theorem kfreed_iff (hc : CreatedPool objNum objSize smpool) {ops : List (FieldOp F)}
    (hadm : Admissible smpool ops) :
    ((Reserve.start smpool).run ops).kfreed = (Holdings.start.run ops).kfreed ↔
      ∀ pre x, pre ++ [.release x] <+: ops →
        ∀ hold, (Holdings.start.run pre).held x = some hold → hold.Recognised smpool := by
  induction ops using List.reverseRecOn with
  | nil => simp [Reserve.run, Holdings.run, Reserve.start, Holdings.start]
  | append_singleton ops op ih =>
    have hr := represents_run hc ops
    have hadm' : Admissible smpool ops :=
      { capacity := le_trans (by simp) hadm.capacity
        outside := fun x addr h => hadm.outside x addr (List.mem_append_left _ h) }
    rw [Reserve.run_concat, Holdings.run_concat]
    simp only [List.prefix_concat_iff]
    match op with
    | .pool y | .other y _ =>
      refine (ih hadm').trans ⟨fun hall pre x h => ?_, fun hall pre x h => hall pre x (.inr h)⟩
      rcases h with heq | hpre
      · simp at heq
      · exact hall pre x hpre
    | .release y =>
      have hpool : ∀ k, (Holdings.start.run ops).held y = some (.pool k) → k < objNum.toNat := by
        intro k hk
        rw [← hc.objNum]
        refine (hr.pool y k hk).trans_le ?_
        rw [hr.served]
        exact hadm'.capacity
      have hother : ∀ addr, (Holdings.start.run ops).held y = some (.other addr) →
          addr.toNat ∉ Set.Ico smpool.vstart.toNat smpool.vend.toNat := by
        intro addr haddr
        obtain ⟨x, hx⟩ := hr.other y addr haddr
        exact hadm'.outside x addr hx
      have hlast := passed_eq_iff hc hpool hother
      have hsame : isSimpleMempoolAddr ((Reserve.start smpool).run ops).smp =
          isSimpleMempoolAddr smpool := by
        rw [hr.smp]
        rfl
      rw [← hr.field, ← hsame] at hlast
      rw [kfreed_release_iff, hlast, ih hadm']
      constructor
      · rintro ⟨hall, hend⟩ pre x (heq | hpre)
        · obtain ⟨rfl, hxy⟩ := List.append_inj' heq rfl
          obtain rfl : x = y := by simpa using hxy
          exact hend
        · exact hall pre x hpre
      · intro hall
        exact ⟨fun pre x h => hall pre x (.inr h), hall ops y (.inl rfl)⟩

/-- A pool of `objNum` objects counts no object behind the end of its block unless the
`int` product overflows. -/
theorem CreatedPool.mul_le (hc : CreatedPool objNum objSize smpool)
    (hfits : ProductFits objNum objSize) {k : ℕ} (hk : k < objNum.toNat) :
    k * objSize.toNat ≤ (objNum * objSize).toNat := by
  rw [← (productFits_iff hc.pos hc.lt).mp hfits]
  exact Nat.mul_le_mul_right _ hk.le

/-- In every history `release_.._reserve` passes to `kfree` exactly the fields that the
other allocator has filled, if and only if no such field holds the address at the end
of the block and no object of the pool that is released lies behind it; the latter
needs an overflow of the `int` product. -/
theorem releaseReserve_iff {kzalloc : Bool} {vmallocNode : VmallocNode}
    (hv : vmallocNode.Documented)
    (hcreate : simpleMempoolCreate kzalloc vmallocNode objNum objSize = some smpool)
    {ops : List (FieldOp F)} (hadm : Admissible smpool ops) :
    (((Reserve.start smpool).run ops).kfreed = (Holdings.start.run ops).kfreed ↔
      ∀ pre x, pre ++ [.release x] <+: ops →
        (∀ addr, (Holdings.start.run pre).held x = some (.other addr) →
          addr ≠ smpool.vstart + mempoolBytes objNum objSize) ∧
        ∀ k, (Holdings.start.run pre).held x = some (.pool k) →
          k * objSize.toNat ≤ objNum.toNat * objSize.toNat % 2 ^ 32) ∧
      (ProductFits objNum objSize →
        (((Reserve.start smpool).run ops).kfreed = (Holdings.start.run ops).kfreed ↔
          ∀ pre x, pre ++ [.release x] <+: ops →
            ∀ addr, (Holdings.start.run pre).held x = some (.other addr) →
              addr ≠ smpool.vstart + mempoolBytes objNum objSize)) := by
  have hc := simpleMempoolCreate_some hv hcreate
  have hend : smpool.vend = smpool.vstart + mempoolBytes objNum objSize := by
    refine BitVec.eq_of_toNat_eq ?_
    rw [hc.vend, BitVec.toNat_add, hc.bytes, Nat.mod_eq_of_lt hc.top]
  have hmul : (objNum * objSize).toNat = objNum.toNat * objSize.toNat % 2 ^ 32 :=
    BitVec.toNat_mul objNum objSize
  have hiff : ((Reserve.start smpool).run ops).kfreed = (Holdings.start.run ops).kfreed ↔
      ∀ pre x, pre ++ [.release x] <+: ops →
        (∀ addr, (Holdings.start.run pre).held x = some (.other addr) →
          addr ≠ smpool.vstart + mempoolBytes objNum objSize) ∧
        ∀ k, (Holdings.start.run pre).held x = some (.pool k) →
          k * objSize.toNat ≤ objNum.toNat * objSize.toNat % 2 ^ 32 := by
    rw [kfreed_iff hc hadm]
    refine forall_congr' fun pre => forall_congr' fun x => imp_congr_right fun _ => ?_
    rw [← hend, ← hmul]
    cases (Holdings.start.run pre).held x with
    | none => simp
    | some hold =>
      cases hold <;> simp [Holding.Recognised, hc.objNum, hc.objSize]
  refine ⟨hiff, fun hfits => hiff.trans ?_⟩
  refine forall_congr' fun pre => forall_congr' fun x => imp_congr_right fun hpre => ?_
  refine and_iff_left fun k hk => ?_
  rw [← hmul]
  -- the object was handed out before, within the capacity
  have hr := represents_run hc pre
  have hserved : k < pre.countP FieldOp.isPool := by
    rw [← hr.served]
    exact hr.pool x k hk
  have hcount : pre.countP FieldOp.isPool ≤ ops.countP FieldOp.isPool :=
    ((List.prefix_append pre _).trans hpre).sublist.countP_le
  have hcap := hadm.capacity
  rw [hc.objNum] at hcap
  exact hc.mul_le hfits (by omega)

end Release

/-- An object of the pool, memory of the other allocator, and a field released twice. -/
def mixedOps : List (FieldOp ℕ) :=
  [.pool 0, .other 1 0xffff888000001000, .release 0, .release 1, .release 1]

theorem releaseReserve_mixed :
    ((Reserve.start (startPool 4 64)).run mixedOps).kfreed =
      [(0, none), (1, some 0xffff888000001000), (1, some 0)] := by
  have hcreate : simpleMempoolCreate true vmallocStart 4 64 = some (startPool 4 64) := by decide
  have houtside : ∀ x addr, .other x addr ∈ mixedOps → addr = 0xffff888000001000 := by
    intro x addr h
    simp [mixedOps] at h
    exact h.2
  have hadm : Admissible (startPool 4 64) mixedOps :=
    { capacity := by decide
      outside := by
        intro x addr h hmem
        rw [houtside x addr h] at hmem
        exact absurd hmem.1 (by decide) }
  have hiff := (releaseReserve_iff vmallocStart_documented hcreate hadm).2 (by decide)
  refine hiff.mpr fun pre x hpre addr haddr => ?_
  have hr := represents_run (simpleMempoolCreate_some vmallocStart_documented hcreate) pre
  obtain ⟨y, hy⟩ := hr.other x addr haddr
  rw [houtside y addr (((List.prefix_append pre _).trans hpre).subset hy)]
  decide

/-- Memory at the end of a block of a page is taken for an object of the pool. -/
theorem releaseReserve_keeps_foreign :
    ¬ ∀ (kzalloc : Bool) (vmallocNode : VmallocNode), vmallocNode.Documented →
      ∀ objNum objSize smpool,
        simpleMempoolCreate kzalloc vmallocNode objNum objSize = some smpool →
        ∀ ops : List (FieldOp ℕ), Admissible smpool ops →
          ((Reserve.start smpool).run ops).kfreed = (Holdings.start.run ops).kfreed := by
  intro h
  have hkfreed := h true vmallocStart vmallocStart_documented 64 64 (startPool 64 64) (by decide)
    [.other 0 0xffffc90000001000, .release 0]
    { capacity := by decide
      outside := by
        intro x addr haddr hmem
        simp at haddr
        rw [haddr.2] at hmem
        exact absurd hmem.2 (by decide) }
  exact absurd hkfreed (by decide)

end Plugsched
