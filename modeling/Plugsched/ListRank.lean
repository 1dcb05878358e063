/-
Positions in lists.

* `lastPos` — the position, counted from one, of the last element with a
  property; `lastPos_eq_some_iff` splits the list there;
* `countP_le_countP_iff` — when one property holds as often as another;
* `getElem?_eq_some_iff_countP` — in a sorted list the place of a value is given
  by the numbers of smaller and of not larger elements;
* `countP_lt_of_getElem?` — in a strictly sorted one as many are smaller as stand
  before it.
-/
import Mathlib.Order.Lattice
import Mathlib.Data.List.Basic

namespace ListRank

variable {α : Type*}

/-! ### The last element with a property -/

/-- The position, counted from one, of the last element that satisfies `p`. -/
def lastPos (p : α → Bool) : List α → Option ℕ
  | [] => none
  | a :: l =>
    match lastPos p l with
    | some k => some (k + 1)
    | none => if p a then some 1 else none

section LastPos

variable {p : α → Bool} {l : List α}

theorem lastPos_eq_none_iff : lastPos p l = none ↔ ∀ x ∈ l, p x = false := by
  induction l with
  | nil => simp [lastPos]
  | cons a l ih =>
    rw [lastPos, List.forall_mem_cons, ← ih]
    cases lastPos p l with
    | some k => simp
    | none => simp

theorem lastPos_eq_some_iff {k : ℕ} : lastPos p l = some k ↔
    ∃ a x b, l = a ++ x :: b ∧ p x = true ∧ (∀ y ∈ b, p y = false) ∧ k = a.length + 1 := by
  induction l generalizing k with
  | nil => simp [lastPos]
  | cons c l ih =>
    rw [lastPos]
    cases hl : lastPos p l with
    | some j =>
      obtain ⟨a, x, b, hsplit, hx, hb, hj⟩ := ih.mp hl
      constructor
      · intro h
        cases h
        exact ⟨c :: a, x, b, by rw [hsplit, List.cons_append], hx, hb, by rw [hj]; rfl⟩
      · rintro ⟨a', x', b', hsplit', hx', hb', rfl⟩
        cases a' with
        | nil =>
          -- the last element would be the first, yet `x` follows
          obtain ⟨rfl, rfl⟩ := List.cons.inj hsplit'
          rw [lastPos_eq_none_iff.mpr hb'] at hl
          cases hl
        | cons d a' =>
          obtain ⟨rfl, htail⟩ := List.cons.inj hsplit'
          rw [ih.mpr ⟨a', x', b', htail, hx', hb', rfl⟩] at hl
          cases hl
          rfl
    | none =>
      have hnone := lastPos_eq_none_iff.mp hl
      constructor
      · intro h
        dsimp only at h
        split at h
        · next hc =>
          cases h
          exact ⟨[], c, l, rfl, hc, hnone, rfl⟩
        · cases h
      · rintro ⟨a', x', b', hsplit', hx', hb', rfl⟩
        cases a' with
        | nil =>
          obtain ⟨rfl, rfl⟩ := List.cons.inj hsplit'
          simp [hx']
        | cons d a' =>
          obtain ⟨rfl, rfl⟩ := List.cons.inj hsplit'
          rw [hnone x' (by simp)] at hx'
          cases hx'

theorem lastPos_append {l' : List α} : lastPos p (l ++ l') =
    ((lastPos p l').map (l.length + ·)).or (lastPos p l) := by
  induction l with
  | nil => simp [lastPos]
  | cons a l ih =>
    rw [List.cons_append, lastPos, lastPos, ih]
    cases lastPos p l' with
    | some k => simp [Nat.add_right_comm]
    | none => simp

theorem lastPos_map {β : Type*} {p : β → Bool} (f : α → β) (l : List α) :
    lastPos p (l.map f) = lastPos (p ∘ f) l := by
  induction l with
  | nil => rfl
  | cons a l ih =>
    rw [List.map_cons, lastPos, lastPos, ih]
    rfl

/-- The element at that position is the last of those that satisfy `p`. -/
theorem getElem?_lastPos {k : ℕ} (h : lastPos p l = some k) :
    ∃ x, l[k - 1]? = some x ∧ (l.filter p).getLast? = some x ∧ k ≠ 0 := by
  obtain ⟨a, x, b, rfl, hx, hb, rfl⟩ := lastPos_eq_some_iff.mp h
  have hnone : b.filter p = [] :=
    List.filter_eq_nil_iff.mpr fun y hy => Bool.eq_false_iff.mp (hb y hy)
  exact ⟨x, by simp, by simp [hx, hnone], Nat.succ_ne_zero _⟩

theorem filter_of_lastPos_eq_none (h : lastPos p l = none) : l.filter p = [] :=
  List.filter_eq_nil_iff.mpr fun x hx => Bool.eq_false_iff.mp (lastPos_eq_none_iff.mp h x hx)

end LastPos

/-! ### Counts -/

/-- A property that is implied by another one holds as often only if it implies that. -/
theorem countP_le_countP_iff {p q : α → Bool} {l : List α}
    (h : ∀ x ∈ l, q x = true → p x = true) :
    l.countP p ≤ l.countP q ↔ ∀ x ∈ l, p x = true → q x = true := by
  induction l with
  | nil => simp
  | cons a l ih =>
    obtain ⟨ha, hl⟩ := List.forall_mem_cons.mp h
    have hle : l.countP q ≤ l.countP p := List.countP_mono_left hl
    rw [List.forall_mem_cons, ← ih hl, List.countP_cons, List.countP_cons]
    cases hp : p a <;> cases hq : q a
    · simp
    · rw [hp] at ha
      exact absurd (ha hq) Bool.false_ne_true
    · simp only [if_true, if_neg Bool.false_ne_true, Nat.add_zero]
      constructor
      · intro hlt
        omega
      · rintro ⟨hcontra, -⟩
        exact absurd (hcontra trivial) Bool.false_ne_true
    · simp

/-! ### Sorted lists -/

section Sorted

variable [LinearOrder α] {l : List α}

/-- The place of a value in a sorted list. -/
theorem getElem?_eq_some_iff_countP (h : l.Pairwise (· ≤ ·)) {i : ℕ} {v : α} :
    l[i]? = some v ↔ l.countP (· < v) ≤ i ∧ i < l.countP (· ≤ v) := by
  induction l generalizing i with
  | nil => simp
  | cons a l ih =>
    obtain ⟨ha, hl⟩ := List.pairwise_cons.mp h
    have hnone : v ≤ a → l.countP (· < v) = 0 := fun hva =>
      List.countP_eq_zero.mpr fun x hx => by simpa using hva.trans (ha x hx)
    rcases lt_trichotomy a v with hlt | rfl | hgt
    · cases i with
      | zero => simp [hlt, hlt.ne]
      | succ i => simp [hlt, hlt.le, ih hl]
    · cases i with
      | zero => simp [hnone le_rfl]
      | succ i => simp [ih hl, hnone le_rfl]
    · have habove : l.countP (· ≤ v) = 0 :=
        List.countP_eq_zero.mpr fun x hx => by simpa using hgt.trans_le (ha x hx)
      cases i with
      | zero => simp [hgt, hgt.ne', habove]
      | succ i => simp [hgt, habove, ih hl]

/-- In a strictly sorted list as many elements are smaller as stand before. -/
theorem countP_lt_of_getElem? (h : l.Pairwise (· < ·)) {i : ℕ} {v : α} (hi : l[i]? = some v) :
    l.countP (· < v) = i := by
  induction l generalizing i with
  | nil => simp at hi
  | cons a l ih =>
    obtain ⟨ha, hl⟩ := List.pairwise_cons.mp h
    cases i with
    | zero =>
      obtain rfl : a = v := by simpa using hi
      rw [List.countP_eq_zero]
      intro x hx
      rcases List.mem_cons.mp hx with rfl | hx
      · simp
      · simpa using (ha x hx).le
    | succ i =>
      rw [List.getElem?_cons_succ] at hi
      have hav : a < v := ha v (List.mem_of_getElem? hi)
      rw [List.countP_cons, ih hl hi]
      simp [hav]

end Sorted

end ListRank
