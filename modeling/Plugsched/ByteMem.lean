/-
Byte memories and patches.

A memory maps addresses to bytes.  `writeBytes` overwrites a range, a `Patch` is
such a write as data, `applyAll` performs a list of patches in order:

* `applyAll_of_not_covered`, `applyAll_of_covered` — a list of patches decides the
  bytes it covers and leaves the others alone;
* `applyAll_saved` — patches that hold the bytes of an old memory put them back,
  whether or not the patches overlap;
* `readBytes_applyAll` — patches that do not overlap can all be read back;
* `leBytes_leWord`, `leWord_leBytes` — a little-endian word and its bytes.
-/
import Mathlib.Order.Interval.Set.Basic
import Mathlib.Order.CompletePartialOrder
import Mathlib.Data.Set.BooleanAlgebra
import Mathlib.Data.List.Basic
import Mathlib.Data.List.Pairwise

namespace ByteMem

variable {β : Type*}

/-- A memory: one byte at every address. -/
abbrev Mem (β : Type*) := ℕ → β

def readBytes (m : Mem β) (a n : ℕ) : List β := (List.range n).map fun i => m (a + i)

/-- Overwrite `bs.length` bytes from `a` on. -/
def writeBytes (m : Mem β) (a : ℕ) (bs : List β) : Mem β := fun x =>
  if a ≤ x then bs[x - a]?.getD (m x) else m x

@[simp] theorem length_readBytes (m : Mem β) (a n : ℕ) : (readBytes m a n).length = n := by
  simp [readBytes]

theorem readBytes_getElem? (m : Mem β) (a : ℕ) {n i : ℕ} (hi : i < n) :
    (readBytes m a n)[i]? = some (m (a + i)) := by
  simp [readBytes, hi]

theorem readBytes_congr {m m' : Mem β} {a n : ℕ} (h : ∀ x ∈ Set.Ico a (a + n), m x = m' x) :
    readBytes m a n = readBytes m' a n := by
  refine List.map_congr_left fun i hi => h (a + i) ?_
  have hi' : i < n := List.mem_range.mp hi
  exact ⟨Nat.le_add_right a i, Nat.add_lt_add_left hi' a⟩

theorem writeBytes_of_notMem (m : Mem β) {a x : ℕ} {bs : List β}
    (hx : x ∉ Set.Ico a (a + bs.length)) : writeBytes m a bs x = m x := by
  rw [writeBytes]
  split
  · next hle =>
    have hlen : bs.length ≤ x - a := by
      have hlt : ¬ x < a + bs.length := fun hlt => hx ⟨hle, hlt⟩
      omega
    rw [List.getElem?_eq_none hlen, Option.getD_none]
  · rfl

theorem writeBytes_add (m : Mem β) (a : ℕ) {bs : List β} {i : ℕ} {b : β} (hb : bs[i]? = some b) :
    writeBytes m a bs (a + i) = b := by
  rw [writeBytes, if_pos (Nat.le_add_right a i), Nat.add_sub_cancel_left, hb, Option.getD_some]

theorem readBytes_writeBytes_self (m : Mem β) (a : ℕ) (bs : List β) :
    readBytes (writeBytes m a bs) a bs.length = bs := by
  refine List.ext_getElem? ?_
  intro i
  by_cases hi : i < bs.length
  · have hb : bs[i]? = some bs[i] := List.getElem?_eq_getElem hi
    rw [readBytes_getElem? _ _ hi, writeBytes_add m a hb, hb]
  · have hle : bs.length ≤ i := Nat.le_of_not_lt hi
    rw [List.getElem?_eq_none hle, List.getElem?_eq_none (by rwa [length_readBytes])]

/-! ### Patches -/

/-- The bytes to be written from `addr` on. -/
structure Patch (β : Type*) where
  addr : ℕ
  bytes : List β

/-- The addresses a patch writes. -/
def Patch.span (p : Patch β) : Set ℕ := Set.Ico p.addr (p.addr + p.bytes.length)

def Patch.apply (m : Mem β) (p : Patch β) : Mem β := writeBytes m p.addr p.bytes

theorem Patch.apply_of_notMem (m : Mem β) {p : Patch β} {x : ℕ} (hx : x ∉ p.span) :
    p.apply m x = m x :=
  writeBytes_of_notMem m hx

theorem Patch.apply_of_mem (m : Mem β) {p : Patch β} {x : ℕ} (hx : x ∈ p.span) :
    p.bytes[x - p.addr]? = some (p.apply m x) := by
  obtain ⟨hle, hlt⟩ := hx
  obtain ⟨i, rfl⟩ := Nat.exists_eq_add_of_le hle
  have hi : i < p.bytes.length := Nat.lt_of_add_lt_add_left hlt
  have hb : p.bytes[i]? = some p.bytes[i] := List.getElem?_eq_getElem hi
  rw [Nat.add_sub_cancel_left, hb]
  exact congrArg some (writeBytes_add m p.addr hb).symm

/-- Perform the patches in the order of the list. -/
def applyAll (ps : List (Patch β)) (m : Mem β) : Mem β := ps.foldl Patch.apply m

@[simp] theorem applyAll_nil (m : Mem β) : applyAll [] m = m := rfl

@[simp] theorem applyAll_cons (p : Patch β) (ps : List (Patch β)) (m : Mem β) :
    applyAll (p :: ps) m = applyAll ps (p.apply m) := rfl

theorem applyAll_append (ps qs : List (Patch β)) (m : Mem β) :
    applyAll (ps ++ qs) m = applyAll qs (applyAll ps m) :=
  List.foldl_append

/-- Some patch of the list writes the byte at `x`. -/
def Covered (ps : List (Patch β)) (x : ℕ) : Prop := ∃ p ∈ ps, x ∈ p.span

theorem applyAll_of_not_covered {ps : List (Patch β)} {x : ℕ} (hx : ¬ Covered ps x)
    (m : Mem β) : applyAll ps m x = m x := by
  induction ps generalizing m with
  | nil => rfl
  | cons p ps ih =>
    have hp : x ∉ p.span := fun hmem => hx ⟨p, List.mem_cons_self, hmem⟩
    have hps : ¬ Covered ps x := fun ⟨q, hq, hmem⟩ => hx ⟨q, List.mem_cons_of_mem p hq, hmem⟩
    rw [applyAll_cons, ih hps, Patch.apply_of_notMem m hp]

/-- The bytes that are covered do not depend on the memory before. -/
theorem applyAll_of_covered {ps : List (Patch β)} {x : ℕ} (hx : Covered ps x)
    (m m' : Mem β) : applyAll ps m x = applyAll ps m' x := by
  induction ps generalizing m m' with
  | nil =>
    obtain ⟨p, hp, -⟩ := hx
    simp at hp
  | cons p ps ih =>
    rw [applyAll_cons, applyAll_cons]
    by_cases hps : Covered ps x
    · exact ih hps _ _
    · -- the first patch is the last one to write `x`
      have hp : x ∈ p.span := by
        obtain ⟨q, hq, hmem⟩ := hx
        rcases List.mem_cons.mp hq with rfl | hq
        · exact hmem
        · exact absurd ⟨q, hq, hmem⟩ hps
      rw [applyAll_of_not_covered hps, applyAll_of_not_covered hps]
      exact Option.some.inj ((Patch.apply_of_mem m hp).symm.trans (Patch.apply_of_mem m' hp))

/-- Performing a list of patches twice is performing it once. -/
theorem applyAll_idem (ps : List (Patch β)) (m : Mem β) :
    applyAll ps (applyAll ps m) = applyAll ps m := by
  funext x
  by_cases hx : Covered ps x
  · exact applyAll_of_covered hx _ _
  · exact applyAll_of_not_covered hx _

/-- The patch holds the bytes of `m₀`. -/
def Patch.Saved (m₀ : Mem β) (p : Patch β) : Prop :=
  p.bytes = readBytes m₀ p.addr p.bytes.length

theorem Patch.Saved.apply_of_mem {m₀ : Mem β} {p : Patch β} (h : p.Saved m₀) (m : Mem β)
    {x : ℕ} (hx : x ∈ p.span) : p.apply m x = m₀ x := by
  obtain ⟨hle, hlt⟩ := hx
  obtain ⟨i, rfl⟩ := Nat.exists_eq_add_of_le hle
  have hi : i < p.bytes.length := Nat.lt_of_add_lt_add_left hlt
  have hb : p.bytes[i]? = some (m₀ (p.addr + i)) := by
    rw [h]
    exact readBytes_getElem? m₀ p.addr hi
  exact writeBytes_add m p.addr hb

/-- Saved bytes come back, in whatever order and however often they are written. -/
theorem applyAll_saved {m₀ : Mem β} {ps : List (Patch β)} (h : ∀ p ∈ ps, p.Saved m₀)
    {x : ℕ} (hx : Covered ps x) (m : Mem β) : applyAll ps m x = m₀ x := by
  -- the patches do nothing to `m₀`, and what they cover does not depend on `m`
  have hkeep : applyAll ps m₀ = m₀ := by
    clear hx
    induction ps with
    | nil => rfl
    | cons p ps ih =>
      have hp : p.apply m₀ = m₀ := by
        funext y
        by_cases hy : y ∈ p.span
        · exact (h p List.mem_cons_self).apply_of_mem m₀ hy
        · exact Patch.apply_of_notMem m₀ hy
      rw [applyAll_cons, hp]
      exact ih fun q hq => h q (List.mem_cons_of_mem p hq)
  rw [applyAll_of_covered hx m m₀, hkeep]

/-! ### Patches that do not overlap -/

theorem readBytes_applyAll_of_disjoint {ps : List (Patch β)} {a n : ℕ}
    (h : ∀ p ∈ ps, Disjoint (Set.Ico a (a + n)) p.span) (m : Mem β) :
    readBytes (applyAll ps m) a n = readBytes m a n := by
  refine readBytes_congr fun x hx => applyAll_of_not_covered ?_ m
  rintro ⟨p, hp, hmem⟩
  exact Set.disjoint_left.mp (h p hp) hx hmem

/-- What is written by a patch that no later one touches can be read back. -/
theorem readBytes_applyAll {ps : List (Patch β)}
    (h : ps.Pairwise fun p q => Disjoint p.span q.span) {p : Patch β} (hp : p ∈ ps)
    (m : Mem β) : readBytes (applyAll ps m) p.addr p.bytes.length = p.bytes := by
  obtain ⟨ps₁, ps₂, rfl⟩ := List.append_of_mem hp
  have hlater : ∀ q ∈ ps₂, Disjoint p.span q.span := by
    have htail := (List.pairwise_append.mp h).2.1
    exact (List.pairwise_cons.mp htail).1
  rw [applyAll_append, applyAll_cons, readBytes_applyAll_of_disjoint hlater]
  exact readBytes_writeBytes_self _ p.addr p.bytes

/-! ### Little-endian words -/

/-- A 32-bit word in memory, least significant byte first. -/
def leBytes (w : BitVec 32) : List (BitVec 8) :=
  [w.extractLsb' 0 8, w.extractLsb' 8 8, w.extractLsb' 16 8, w.extractLsb' 24 8]

/-- The word that the first four of these bytes make. -/
def leWord (bs : List (BitVec 8)) : BitVec 32 :=
  bs.getD 3 0 ++ bs.getD 2 0 ++ bs.getD 1 0 ++ bs.getD 0 0

theorem leBytes_leWord {bs : List (BitVec 8)} (h : bs.length = 4) : leBytes (leWord bs) = bs := by
  match bs, h with
  | [b0, b1, b2, b3], _ =>
    have h0 : (b3 ++ b2 ++ b1 ++ b0).extractLsb' 0 8 = b0 := by
      rw [BitVec.extractLsb'_append_eq_of_add_le (by omega), BitVec.extractLsb'_eq_self]
    have h1 : (b3 ++ b2 ++ b1 ++ b0).extractLsb' 8 8 = b1 := by
      rw [BitVec.extractLsb'_append_eq_of_le (by omega), Nat.sub_self,
        BitVec.extractLsb'_append_eq_of_add_le (by omega), BitVec.extractLsb'_eq_self]
    have h2 : (b3 ++ b2 ++ b1 ++ b0).extractLsb' 16 8 = b2 := by
      rw [BitVec.extractLsb'_append_eq_of_le (by omega),
        BitVec.extractLsb'_append_eq_of_le (by omega),
        BitVec.extractLsb'_append_eq_of_add_le (by omega), BitVec.extractLsb'_eq_self]
    have h3 : (b3 ++ b2 ++ b1 ++ b0).extractLsb' 24 8 = b3 := by
      rw [BitVec.extractLsb'_append_eq_of_le (by omega),
        BitVec.extractLsb'_append_eq_of_le (by omega),
        BitVec.extractLsb'_append_eq_of_le (by omega), BitVec.extractLsb'_eq_self]
    show [(b3 ++ b2 ++ b1 ++ b0).extractLsb' 0 8, (b3 ++ b2 ++ b1 ++ b0).extractLsb' 8 8,
      (b3 ++ b2 ++ b1 ++ b0).extractLsb' 16 8, (b3 ++ b2 ++ b1 ++ b0).extractLsb' 24 8] = _
    rw [h0, h1, h2, h3]

/-- A word is read back from its bytes. -/
theorem leWord_leBytes (w : BitVec 32) : leWord (leBytes w) = w := by
  show w.extractLsb' 24 8 ++ w.extractLsb' 16 8 ++ w.extractLsb' 8 8 ++ w.extractLsb' 0 8 = w
  ext i hi
  simp only [BitVec.getElem_append, BitVec.getElem_extractLsb']
  split
  · rw [Nat.zero_add, BitVec.getLsbD_eq_getElem hi]
  · next h8 =>
    split
    · rw [show 8 + (i - 8) = i by omega, BitVec.getLsbD_eq_getElem hi]
    · next h16 =>
      split
      · rw [show 16 + (i - 8 - 8) = i by omega, BitVec.getLsbD_eq_getElem hi]
      · rw [show 24 + (i - 8 - 8 - 8) = i by omega, BitVec.getLsbD_eq_getElem hi]

end ByteMem
