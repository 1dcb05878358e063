/-
Binary heaps in an array, with one entry out of place.

The children of entry `p` are the entries `2p + 1` and `2p + 2`.  Sifting down
keeps a heap in which only one entry may be too small (`HeapExcept`):

* `HeapExcept.step` — exchanging it with its larger child moves it down;
* `HeapExcept.done` — where no child is larger, the heap is complete;
* `HeapFrom.le_root` — the root of a heap is its maximum.
-/
import Mathlib.Logic.Equiv.Basic
import Mathlib.Order.Lattice
import Mathlib.Tactic.Common

namespace HeapSift

variable {α : Type*} [LinearOrder α] {n : ℕ}

/-- Entry `c` is a child of entry `p`. -/
def Child (p c : ℕ) : Prop := c = p * 2 + 1 ∨ c = p * 2 + 2

theorem Child.lt {p c : ℕ} (h : Child p c) : p < c := by
  rcases h with h | h <;> omega

/-- A child has one parent. -/
theorem Child.unique {p q c : ℕ} (h : Child p c) (h' : Child q c) : p = q := by
  rcases h with h | h <;> rcases h' with h' | h' <;> omega

/-- Among the first `m` entries no child of an entry from `lo` on exceeds it. -/
def HeapFrom (a : Fin n → α) (lo m : ℕ) : Prop :=
  ∀ p c : Fin n, lo ≤ p.1 → c.1 < m → Child p c → a c ≤ a p

/-- The same but for the children of `r`, which do not exceed the parent of `r`. -/
structure HeapExcept (a : Fin n → α) (lo m : ℕ) (r : Fin n) : Prop where
  rest : ∀ p c : Fin n, lo ≤ p.1 → p ≠ r → c.1 < m → Child p c → a c ≤ a p
  grand : ∀ p c : Fin n, lo ≤ p.1 → Child p r → Child r c → c.1 < m → a c ≤ a p

variable {a : Fin n → α} {lo m : ℕ} {r : Fin n}

/-- One more entry in front of a heap. -/
theorem HeapFrom.extend (h : HeapFrom a (r.1 + 1) m) : HeapExcept a r.1 m r where
  rest p c hp hne hc hchild := by
    have hlt : r.1 ≠ p.1 := fun heq => hne (Fin.ext heq.symm)
    exact h p c (by omega) hc hchild
  grand p c hp hpr _ _ := absurd hpr.lt (by omega)

theorem HeapExcept.done (h : HeapExcept a lo m r)
    (hr : ∀ c : Fin n, c.1 < m → Child r c → a c ≤ a r) : HeapFrom a lo m := by
  intro p c hp hc hchild
  by_cases hpr : p = r
  · subst hpr
    exact hr c hc hchild
  · exact h.rest p c hp hpr hc hchild

/-- The entry `r` is exchanged with its child `c`, the larger one. -/
theorem HeapExcept.step (h : HeapExcept a lo m r) {c : Fin n} (hlo : lo ≤ r.1) (hc : c.1 < m)
    (hrc : Child r c) (hlt : a r < a c)
    (hlarger : ∀ d : Fin n, d.1 < m → Child r d → a d ≤ a c) :
    HeapExcept (a ∘ Equiv.swap r c) lo m c := by
  have hne : r ≠ c := fun heq => absurd hrc.lt (by rw [heq]; exact lt_irrefl _)
  have hswap_r : (a ∘ Equiv.swap r c) r = a c := by simp
  have hswap_c : (a ∘ Equiv.swap r c) c = a r := by simp
  have hswap : ∀ x, x ≠ r → x ≠ c → (a ∘ Equiv.swap r c) x = a x := fun x hxr hxc => by
    rw [Function.comp_apply, Equiv.swap_apply_of_ne_of_ne hxr hxc]
  constructor
  · intro p d hp hpc hd hchild
    by_cases hpr : p = r
    · -- the children of the entry that took the place of `r`
      subst hpr
      rw [hswap_r]
      by_cases hdc : d = c
      · rw [hdc, hswap_c]
        exact hlt.le
      · have hdp : d ≠ p := fun heq => absurd hchild.lt (by rw [heq]; exact lt_irrefl _)
        rw [hswap d hdp hdc]
        exact hlarger d hd hchild
    · rw [hswap p hpr hpc]
      by_cases hdr : d = r
      · subst hdr
        rw [hswap_r]
        exact h.grand p c hp hchild hrc hc
      · have hdc : d ≠ c := by
          rintro rfl
          exact hpr (Fin.ext (hchild.unique hrc))
        rw [hswap d hdr hdc]
        exact h.rest p d hp hpr hd hchild
  · intro p d hp hpc hcd hd
    obtain rfl : p = r := Fin.ext (hpc.unique hrc)
    have hdc : d ≠ c := fun heq => absurd hcd.lt (by rw [heq]; exact lt_irrefl _)
    have hdp : d ≠ p := by
      rintro rfl
      exact absurd (hrc.lt.trans hcd.lt) (lt_irrefl _)
    rw [hswap_r, hswap d hdp hdc]
    exact h.rest c d (hlo.trans hrc.lt.le) (Ne.symm hne) hd hcd

/-- The root exchanged with the last entry, which leaves the heap. -/
theorem HeapFrom.pop {root : Fin n} (last : Fin n) (h : HeapFrom a 0 (last.1 + 1))
    (hroot : root.1 = 0) :
    HeapExcept (a ∘ Equiv.swap root last) 0 last.1 root := by
  have hswap : ∀ x : Fin n, x ≠ root → x.1 < last.1 → (a ∘ Equiv.swap root last) x = a x := by
    intro x hx hlt
    rw [Function.comp_apply, Equiv.swap_apply_of_ne_of_ne hx (Fin.ne_of_lt hlt)]
  constructor
  · intro p c _ hp hc hchild
    have hlt := hchild.lt
    have hcr : c ≠ root := by
      rintro rfl
      omega
    rw [hswap c hcr hc, hswap p hp (hlt.trans hc)]
    exact h p c (Nat.zero_le _) (by omega) hchild
  · intro p c _ hp _ _
    exact absurd hp.lt (by omega)

/-- No entry of a heap exceeds its root. -/
theorem HeapFrom.le_root (h : HeapFrom a 0 m) {root : Fin n} (hroot : root.1 = 0) (c : Fin n)
    (hc : c.1 < m) : a c ≤ a root := by
  obtain ⟨c, hcn⟩ := c
  induction c using Nat.strong_induction_on with
  | _ c ih =>
    rcases Nat.eq_zero_or_pos c with hzero | hpos
    · subst hzero
      rw [show root = ⟨0, hcn⟩ from Fin.ext hroot]
    · have hparent : Child ((c - 1) / 2) c := by
        rw [Child]
        omega
      have hlt : (c - 1) / 2 < c := hparent.lt
      exact (h ⟨(c - 1) / 2, hlt.trans hcn⟩ ⟨c, hcn⟩ (Nat.zero_le _) hc hparent).trans
        (ih _ hlt (hlt.trans hcn) (hlt.trans hc))

end HeapSift
