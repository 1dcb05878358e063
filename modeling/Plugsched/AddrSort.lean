/-
The helpers of `helper.h` for tables of functions: `addr_sort` and `bsearch`.

A table is two arrays, of addresses and of sizes, sorted together by address.
Indices are bounded by their type; `int` positions of `bsearch` are integers,
as its `end` may run below the first entry.

* `addrSort_sorted`, `addrSort_perm` — the sort, and what it keeps;
* `bsearch_bounds`, `bsearch_spec` — the last entry not above the target.
-/
import Mathlib.Data.Int.ConditionallyCompleteOrder
import Mathlib.Order.ConditionallyCompleteLattice.Basic
import Mathlib.Order.Fin.Basic
import Plugsched.HeapSift

open HeapSift

namespace Plugsched

/-- `func_addr` and `func_size`. -/
@[ext]
structure FuncTable (n : ℕ) where
  addr : Fin n → ℕ
  size : Fin n → ℕ

variable {n : ℕ}

/-! ### Exchanging entries -/

/-- `addr_swap(f + a, f + b)`. -/
def addrSwap (f : Fin n → ℕ) (a b : Fin n) : Fin n → ℕ :=
  if f a ^^^ f b ≠ 0 then
    let f := Function.update f a (f a ^^^ f b)
    let f := Function.update f b (f b ^^^ f a)
    Function.update f a (f a ^^^ f b)
  else f

/-- The exclusive-ors exchange the entries, also when both are the same one. -/
theorem addrSwap_eq (f : Fin n → ℕ) (a b : Fin n) : addrSwap f a b = f ∘ Equiv.swap a b := by
  funext x
  rw [addrSwap, Function.comp_apply]
  split
  · next hne =>
    have hab : a ≠ b := by
      rintro rfl
      exact hne (Nat.xor_self _)
    have hb : f b ^^^ (f a ^^^ f b) = f a := by
      rw [Nat.xor_comm (f a), ← Nat.xor_assoc, Nat.xor_self, Nat.zero_xor]
    have ha : (f a ^^^ f b) ^^^ f a = f b := by
      rw [Nat.xor_comm (f a), Nat.xor_assoc, Nat.xor_self, Nat.xor_zero]
    by_cases hxa : x = a
    · subst hxa
      simp [hab, hab.symm, ha, hb]
    · by_cases hxb : x = b
      · subst hxb
        simp [hab, hab.symm, hb]
      · rw [Equiv.swap_apply_of_ne_of_ne hxa hxb]
        simp [hxa, hxb]
  · next heq =>
    have hval : f a = f b := by
      rw [← Nat.xor_zero (f a), ← not_not.mp heq, ← Nat.xor_assoc, Nat.xor_self, Nat.zero_xor]
    by_cases hxa : x = a
    · rw [hxa, Equiv.swap_apply_left, hval]
    · by_cases hxb : x = b
      · rw [hxb, Equiv.swap_apply_right, hval]
      · rw [Equiv.swap_apply_of_ne_of_ne hxa hxb]

namespace FuncTable

/-- The table with its entries in another order. -/
def comp (t : FuncTable n) (σ : Equiv.Perm (Fin n)) : FuncTable n where
  addr := t.addr ∘ σ
  size := t.size ∘ σ

/-- Both arrays exchange the entries `a` and `b`. -/
def swap (t : FuncTable n) (a b : Fin n) : FuncTable n where
  addr := addrSwap t.addr a b
  size := addrSwap t.size a b

theorem swap_eq (t : FuncTable n) (a b : Fin n) : t.swap a b = t.comp (Equiv.swap a b) := by
  rw [swap, comp, addrSwap_eq, addrSwap_eq]

theorem comp_comp (t : FuncTable n) (σ τ : Equiv.Perm (Fin n)) :
    (t.comp σ).comp τ = t.comp (τ.trans σ) := rfl

/-! ### Sifting down -/

/-- `c`: the child of `r` that is exchanged with it, in a heap of `m` entries. -/
def pickChild (m : ℕ) (hm : m ≤ n) (t : FuncTable n) (r : ℕ) (h : r * 2 + 1 < m) : Fin n :=
  if h' : r * 2 + 1 < m - 1 then
    if t.addr ⟨r * 2 + 1, by omega⟩ < t.addr ⟨r * 2 + 2, by omega⟩ then ⟨r * 2 + 2, by omega⟩
    else ⟨r * 2 + 1, by omega⟩
  else ⟨r * 2 + 1, by omega⟩

theorem pickChild_child (m : ℕ) (hm : m ≤ n) (t : FuncTable n) (r : ℕ) (h : r * 2 + 1 < m) :
    Child r (pickChild m hm t r h) ∧ (pickChild m hm t r h).1 < m := by
  rw [pickChild]
  split
  · split
    · exact ⟨.inr rfl, by dsimp only; omega⟩
    · exact ⟨.inl rfl, h⟩
  · exact ⟨.inl rfl, h⟩

/-- No child of `r` has a larger address. -/
theorem le_pickChild (m : ℕ) (hm : m ≤ n) (t : FuncTable n) (r : ℕ) (h : r * 2 + 1 < m)
    (d : Fin n) (hd : d.1 < m) (hchild : Child r d) :
    t.addr d ≤ t.addr (pickChild m hm t r h) := by
  rw [pickChild]
  rcases hchild with hleft | hright
  · have hd' : d = ⟨r * 2 + 1, by omega⟩ := Fin.ext hleft
    split
    · split
      · next hlt => exact hd' ▸ hlt.le
      · exact (congrArg t.addr hd').le
    · exact (congrArg t.addr hd').le
  · have hd' : d = ⟨r * 2 + 2, by omega⟩ := Fin.ext hright
    rw [dif_pos (by omega)]
    split
    · exact (congrArg t.addr hd').le
    · next hle => exact hd' ▸ not_lt.mp hle

/-- The inner loop of `addr_sort`, on the first `m` entries, from entry `r`. -/
def siftDown (m : ℕ) (hm : m ≤ n) (t : FuncTable n) (r : ℕ) : FuncTable n :=
  if h : r * 2 + 1 < m then
    let c := pickChild m hm t r h
    if t.addr ⟨r, by omega⟩ ≥ t.addr c then t
    else siftDown m hm (t.swap ⟨r, by omega⟩ c) c
  else t
termination_by m - r
decreasing_by
  have := (pickChild_child m hm t r h).1.lt
  omega

/-- Sifting only reorders the first `m` entries. -/
theorem siftDown_comp (m : ℕ) (hm : m ≤ n) (t : FuncTable n) (r : ℕ) :
    ∃ σ : Equiv.Perm (Fin n), siftDown m hm t r = t.comp σ ∧ ∀ x : Fin n, m ≤ x.1 → σ x = x := by
  fun_induction siftDown m hm t r with
  | case1 t r h c hge => exact ⟨Equiv.refl _, rfl, fun _ _ => rfl⟩
  | case2 t r h c hlt ih =>
    obtain ⟨σ, heq, hfix⟩ := ih
    refine ⟨σ.trans (Equiv.swap ⟨r, by omega⟩ c), ?_, fun x hx => ?_⟩
    · rw [heq, swap_eq, comp_comp]
    · have hc := (pickChild_child m hm t r h).2
      rw [Equiv.trans_apply, hfix x hx, Equiv.swap_apply_of_ne_of_ne]
      · exact Fin.ne_of_gt (show r < x.1 by omega)
      · exact Fin.ne_of_gt (show c.1 < x.1 from lt_of_lt_of_le hc hx)
  | case3 t r h => exact ⟨Equiv.refl _, rfl, fun _ _ => rfl⟩

theorem siftDown_heap {lo m : ℕ} (hm : m ≤ n) (t : FuncTable n) {r : ℕ} (hr : r < n)
    (hlo : lo ≤ r) (h : HeapExcept t.addr lo m ⟨r, hr⟩) :
    HeapFrom (siftDown m hm t r).addr lo m := by
  fun_induction siftDown m hm t r with
  | case1 t r hlt c hge =>
    refine h.done fun d hd hchild => ?_
    exact (le_pickChild m hm t r hlt d hd hchild).trans hge
  | case2 t r hlt c hge ih =>
    obtain ⟨hchild, hc⟩ := pickChild_child m hm t r hlt
    refine ih c.2 (hlo.trans hchild.lt.le) ?_
    rw [swap_eq]
    exact h.step hlo hc hchild (not_le.mp hge) fun d hd hd' => le_pickChild m hm t r hlt d hd hd'
  | case3 t r hlt =>
    refine h.done fun d hd hchild => ?_
    have := hchild.lt
    rcases hchild with hd' | hd' <;> dsimp only at hd' <;> omega

/-! ### The sort -/

/-- The first loop: entries `i - 1` down to 0 are sifted. -/
def heapify : ℕ → FuncTable n → FuncTable n
  | 0, t => t
  | i + 1, t => heapify i (siftDown n le_rfl t i)

/-- The second loop: the root goes behind the heap, `i` times. -/
def popAll : (i : ℕ) → i < n → FuncTable n → FuncTable n
  | 0, _, t => t
  | i + 1, hi, t =>
    popAll i (by omega)
      (siftDown (i + 1) hi.le (t.swap ⟨0, by omega⟩ ⟨i + 1, hi⟩) 0)

end FuncTable

/-- `addr_sort`. -/
def addrSort (t : FuncTable n) : FuncTable n :=
  if hn : 0 < n then (t.heapify (n / 2)).popAll (n - 1) (by omega) else t

namespace FuncTable

theorem heapify_comp (i : ℕ) (t : FuncTable n) : ∃ σ, heapify i t = t.comp σ := by
  induction i generalizing t with
  | zero => exact ⟨Equiv.refl _, rfl⟩
  | succ i ih =>
    obtain ⟨σ, hσ⟩ := ih (siftDown n le_rfl t i)
    obtain ⟨τ, hτ, -⟩ := siftDown_comp n le_rfl t i
    exact ⟨_, by rw [heapify, hσ, hτ, comp_comp]⟩

theorem popAll_comp (i : ℕ) (hi : i < n) (t : FuncTable n) : ∃ σ, popAll i hi t = t.comp σ := by
  induction i generalizing t with
  | zero => exact ⟨Equiv.refl _, rfl⟩
  | succ i ih =>
    obtain ⟨σ, hσ⟩ := ih (by omega)
      (siftDown (i + 1) hi.le (t.swap ⟨0, by omega⟩ ⟨i + 1, hi⟩) 0)
    obtain ⟨τ, hτ, -⟩ := siftDown_comp (i + 1) hi.le (t.swap ⟨0, by omega⟩ ⟨i + 1, hi⟩) 0
    exact ⟨_, by rw [popAll, hσ, hτ, swap_eq, comp_comp, comp_comp]⟩

theorem heapify_heap (i : ℕ) (hi : i ≤ n) (t : FuncTable n) (h : HeapFrom t.addr i n) :
    HeapFrom (heapify i t).addr 0 n := by
  induction i generalizing t with
  | zero => exact h
  | succ i ih =>
    exact ih (by omega) _ (siftDown_heap le_rfl t hi le_rfl (HeapFrom.extend (r := ⟨i, hi⟩) h))

/-- The first `i` entries are a heap, the others sorted and not below them. -/
structure HalfSorted (t : FuncTable n) (i : ℕ) : Prop where
  heap : HeapFrom t.addr 0 i
  sorted : ∀ x y : Fin n, i ≤ x.1 → x ≤ y → t.addr x ≤ t.addr y
  below : ∀ x y : Fin n, x.1 < i → i ≤ y.1 → t.addr x ≤ t.addr y

/-- What only reorders the first `m` places keeps them together. -/
theorem lt_of_fixes {m : ℕ} {σ : Equiv.Perm (Fin n)} (hfix : ∀ x : Fin n, m ≤ x.1 → σ x = x)
    {x : Fin n} (hx : x.1 < m) : (σ x).1 < m := by
  by_contra hge
  have hself := σ.injective (hfix (σ x) (not_lt.mp hge))
  rw [hself] at hge
  exact hge hx

/-- What the places hold after a round of the second loop. -/
structure Popped (t t' : FuncTable n) (i : ℕ) : Prop where
  last : ∀ x y : Fin n, x.1 = 0 → y.1 = i → t'.addr y = t.addr x
  behind : ∀ x : Fin n, i < x.1 → t'.addr x = t.addr x
  front : ∀ x : Fin n, x.1 < i → ∃ x' : Fin n, x'.1 < i + 1 ∧ t'.addr x = t.addr x'

theorem popped (t : FuncTable n) {i : ℕ} (hi : i < n) :
    Popped t (siftDown i hi.le (t.swap ⟨0, by omega⟩ ⟨i, hi⟩) 0) i := by
  obtain ⟨σ, heq, hfix⟩ := siftDown_comp i hi.le (t.swap ⟨0, by omega⟩ ⟨i, hi⟩) 0
  rw [heq, swap_eq, comp_comp]
  constructor
  · intro x y hx hy
    have hroot : x = ⟨0, Nat.zero_lt_of_lt hi⟩ := Fin.ext hx
    have hplace : y = ⟨i, hi⟩ := Fin.ext hy
    rw [hroot, hplace]
    simp [comp, hfix ⟨i, hi⟩ le_rfl]
  · intro x hx
    have h0 : x ≠ ⟨0, by omega⟩ := Fin.ne_of_gt (show 0 < x.1 by omega)
    have hi' : x ≠ ⟨i, hi⟩ := Fin.ne_of_gt hx
    simp [comp, hfix x hx.le, Equiv.swap_apply_of_ne_of_ne h0 hi']
  · intro x hx
    refine ⟨Equiv.swap ⟨0, by omega⟩ ⟨i, hi⟩ (σ x), ?_, rfl⟩
    rw [Equiv.swap_apply_def]
    split
    · exact Nat.lt_succ_self i
    · split
      · exact Nat.succ_pos i
      · exact (lt_of_fixes hfix hx).trans (Nat.lt_succ_self i)

/-- The maximum of the heap goes to its place. -/
theorem HalfSorted.pop {t : FuncTable n} {i : ℕ} (h : HalfSorted t (i + 1)) (hi : i < n)
    (hpos : 0 < i) :
    HalfSorted (siftDown i hi.le (t.swap ⟨0, by omega⟩ ⟨i, hi⟩) 0) i := by
  have hp := popped t hi
  have hmax : ∀ x : Fin n, x.1 < i + 1 → t.addr x ≤ t.addr ⟨0, by omega⟩ := fun x hx =>
    h.heap.le_root rfl x hx
  refine ⟨?_, fun x y hx hxy => ?_, fun x y hx hy => ?_⟩
  · refine siftDown_heap hi.le _ (by omega) le_rfl ?_
    rw [swap_eq]
    exact HeapFrom.pop ⟨i, hi⟩ h.heap rfl
  · rcases Nat.eq_or_lt_of_le hx with hxi | hxi
    · rcases eq_or_lt_of_le hxy with hy | hy
      · rw [hy]
      · have hiy : i < y.1 := lt_of_le_of_lt hx hy
        rw [hp.last ⟨0, by omega⟩ x rfl hxi.symm, hp.behind y hiy]
        exact h.below _ y (Nat.succ_pos i) hiy
    · rw [hp.behind x hxi, hp.behind y (lt_of_lt_of_le hxi hxy)]
      exact h.sorted x y hxi hxy
  · obtain ⟨x', hx', heqx⟩ := hp.front x hx
    rw [heqx]
    rcases Nat.eq_or_lt_of_le hy with hyi | hyi
    · rw [hp.last ⟨0, by omega⟩ y rfl hyi.symm]
      exact hmax x' hx'
    · rw [hp.behind y hyi]
      exact h.below x' y hx' hyi

theorem popAll_sorted (i : ℕ) (hi : i < n) (t : FuncTable n) (h : HalfSorted t (i + 1)) :
    Monotone (popAll i hi t).addr := by
  induction i generalizing t with
  | zero =>
    intro x y hxy
    rcases Nat.eq_zero_or_pos x.1 with hx | hx
    · rcases Nat.eq_zero_or_pos y.1 with hy | hy
      · rw [show x = y from Fin.ext (hx.trans hy.symm)]
      · exact h.below x y (by omega) hy
    · exact h.sorted x y hx hxy
  | succ i ih => exact ih (by omega) _ (h.pop hi (Nat.succ_pos i))

end FuncTable

/-- `addr_sort` sorts by address. -/
theorem addrSort_sorted (t : FuncTable n) : Monotone (addrSort t).addr := by
  rw [addrSort]
  split
  · next hn =>
    refine FuncTable.popAll_sorted _ _ _ ?_
    rw [Nat.sub_add_cancel hn]
    refine ⟨FuncTable.heapify_heap _ (by omega) t ?_, fun x _ hx => ?_, fun _ y _ hy => ?_⟩
    · -- entries from `n / 2` on have no children
      intro p c hp hc hchild
      have := c.2
      rcases hchild with h | h <;> omega
    · exact absurd x.2 (not_lt.mpr hx)
    · exact absurd y.2 (not_lt.mpr hy)
  · next hn =>
    intro x
    exact absurd x.2 (by omega)

/-- The entries of both arrays stay together. -/
theorem addrSort_perm (t : FuncTable n) : ∃ σ : Equiv.Perm (Fin n), addrSort t = t.comp σ := by
  rw [addrSort]
  split
  · next hn =>
    obtain ⟨σ, hσ⟩ := FuncTable.heapify_comp (n / 2) t
    obtain ⟨τ, hτ⟩ := FuncTable.popAll_comp (n - 1) (by omega) (t.heapify (n / 2))
    exact ⟨_, by rw [hτ, hσ, FuncTable.comp_comp]⟩
  · exact ⟨Equiv.refl _, rfl⟩

/-! ### Binary search -/

/-- The loop of `bsearch`.  The middle is that of the code, whose `int` sum does not wrap in
arrays of up to `2 ^ 30` entries. -/
def bsearchLoop (arr : Fin n → ℕ) (tar : ℕ) (start stop : ℤ) (hs : 0 ≤ start) (he : stop < n) :
    ℤ :=
  if h : start ≤ stop then
    let mid := (start + stop) / 2
    have hmid : mid.toNat < n := by omega
    if tar = arr ⟨mid.toNat, hmid⟩ then mid
    else if tar < arr ⟨mid.toNat, hmid⟩ then bsearchLoop arr tar start (mid - 1) hs (by omega)
    else bsearchLoop arr tar (mid + 1) stop (by omega) he
  else stop
termination_by (stop + 1 - start).toNat

/-- `bsearch(arr, start, end, tar)`. -/
def bsearch (arr : Fin n → ℕ) (start stop : ℤ) (hs : 0 ≤ start) (he : stop < n) (tar : ℕ) : ℤ :=
  if h : stop < start then -1
  else if tar < arr ⟨start.toNat, by omega⟩ then -1
  else if tar ≥ arr ⟨stop.toNat, by omega⟩ then stop
  else bsearchLoop arr tar start stop hs he

/-- The result is an index of the array or -1, whatever the array holds. -/
theorem bsearchLoop_bounds (arr : Fin n → ℕ) (tar : ℕ) (start stop : ℤ) (hs : 0 ≤ start)
    (he : stop < n) (hle : start ≤ stop + 1) :
    -1 ≤ bsearchLoop arr tar start stop hs he ∧ bsearchLoop arr tar start stop hs he < n := by
  fun_induction bsearchLoop arr tar start stop hs he with
  | case1 start stop hs he h mid hmid heq => omega
  | case2 start stop hs he h mid hmid hne hlt ih => exact ih (by omega)
  | case3 start stop hs he h mid hmid hne hge ih => exact ih (by omega)
  | case4 start stop hs he h => omega

theorem bsearch_bounds (arr : Fin n → ℕ) (start stop : ℤ) (hs : 0 ≤ start) (he : stop < n)
    (tar : ℕ) :
    -1 ≤ bsearch arr start stop hs he tar ∧ bsearch arr start stop hs he tar < n := by
  rw [bsearch]
  split
  · omega
  · split
    · omega
    · split
      · omega
      · exact bsearchLoop_bounds arr tar start stop hs he (by omega)

/-- Everything below `start` is not above the target, everything behind `stop` is. -/
theorem bsearchLoop_spec (arr : Fin n → ℕ) (harr : StrictMono arr) (tar : ℕ) (start stop : ℤ)
    (hs : 0 ≤ start) (he : stop < n) (hle : start ≤ stop + 1)
    (hlo : ∀ i : Fin n, (i : ℤ) < start → arr i ≤ tar)
    (hhi : ∀ i : Fin n, stop < (i : ℤ) → tar < arr i) (i : Fin n) :
    arr i ≤ tar ↔ (i : ℤ) ≤ bsearchLoop arr tar start stop hs he := by
  fun_induction bsearchLoop arr tar start stop hs he with
  | case1 start stop hs he h mid hmid heq =>
    rw [heq, harr.le_iff_le, Fin.le_def]
    dsimp only
    omega
  | case2 start stop hs he h mid hmid hne hlt ih =>
    refine ih (by omega) hlo fun j hj => lt_of_lt_of_le hlt (harr.monotone ?_)
    rw [Fin.le_def]
    dsimp only
    omega
  | case3 start stop hs he h mid hmid hne hge ih =>
    refine ih (by omega) (fun j hj => le_trans (harr.monotone ?_) (not_lt.mp hge)) hhi
    rw [Fin.le_def]
    dsimp only
    omega
  | case4 start stop hs he h =>
    refine ⟨fun hi => ?_, fun hi => hlo i (by omega)⟩
    by_contra hgt
    exact absurd hi (not_le.mpr (hhi i (not_le.mp hgt)))

/-- In a sorted array `bsearch` finds the last entry that is not above the
target, or -1. -/
theorem bsearch_spec (arr : Fin n → ℕ) (harr : StrictMono arr) (tar : ℕ) (i : Fin n) :
    arr i ≤ tar ↔ (i : ℤ) ≤ bsearch arr 0 (n - 1) le_rfl (by omega) tar := by
  have hle : ∀ {i j : Fin n}, i.1 ≤ j.1 → arr i ≤ arr j := fun hij => harr.monotone hij
  have hi := i.2
  rw [bsearch, dif_neg (by omega)]
  split
  · next hlt =>
    refine ⟨fun hi => ?_, fun hi => absurd hi (by omega)⟩
    exact absurd (lt_of_lt_of_le hlt (hle (Nat.zero_le _))) (not_lt.mpr hi)
  · split
    · next hge =>
      refine ⟨fun _ => by omega, fun _ => le_trans (hle ?_) hge⟩
      dsimp only
      omega
    · exact bsearchLoop_spec arr harr tar 0 (n - 1) le_rfl (by omega) (by omega)
        (fun j hj => absurd hj (by omega)) (fun j hj => absurd j.2 (by omega)) i

end Plugsched
