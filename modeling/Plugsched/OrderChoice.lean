/-
What does not depend on the order of a list.

A choice `c` gives each row a value, or none.  Such choices come from the order of lists
of which the first or the last element counts: `rearrange p q` moves the elements with `p`
to the front and those with `q` to the end.

* `lastPos_const_iff` — the last row with each value is the same for all choices exactly if
  a row that may have a value must have it, or a later one must;
* `values_const_iff` — the same for the set of values;
* `head?_rearrange`, `getLast?_rearrange`, `head?_perm` — what comes first and last.
-/
import Mathlib.Data.List.Basic
import Plugsched.ListRank

open ListRank

namespace OrderChoice

/-! ### Rows and choices -/

section Choices

variable {ι α β : Type*} {r : ι → α → Option β} {l : List α}

/-- Some choice gives the row this value. -/
def May (r : ι → α → Option β) (x : α) (v : β) : Prop := ∃ c, r c x = some v

/-- Every choice gives the row this value. -/
def Must (r : ι → α → Option β) (x : α) (v : β) : Prop := ∀ c, r c x = some v

/-- Where a row may have a value, it must have it, or a later row must. -/
def LastSettled (r : ι → α → Option β) (l : List α) : Prop :=
  ∀ a x b, l = a ++ x :: b → ∀ v, May r x v → Must r x v ∨ ∃ y ∈ b, Must r y v

/-- Where a row may have a value, some row must. -/
def ValuesSettled (r : ι → α → Option β) (l : List α) : Prop :=
  ∀ x ∈ l, ∀ v, May r x v → ∃ y ∈ l, Must r y v

section Last

variable [DecidableEq β]

open Classical in
/-- The last row with a value is the last that must have it. -/
theorem LastSettled.lastPos_eq (h : LastSettled r l) (c : ι) (v : β) :
    lastPos (fun x => r c x = some v) l = lastPos (fun x => Must r x v) l := by
  cases hlast : lastPos (fun x => decide (Must r x v)) l with
  | none =>
    rw [lastPos_eq_none_iff] at hlast ⊢
    intro x hx
    rw [decide_eq_false_iff_not]
    intro hv
    obtain ⟨a, b, rfl⟩ := List.append_of_mem hx
    rcases h a x b rfl v ⟨c, hv⟩ with hmust | ⟨y, hy, hmust⟩
    · exact absurd hmust (of_decide_eq_false (hlast x hx))
    · exact absurd hmust (of_decide_eq_false (hlast y (by simp [hy])))
  | some k =>
    obtain ⟨a, x, b, rfl, hx, hb, rfl⟩ := lastPos_eq_some_iff.mp hlast
    refine lastPos_eq_some_iff.mpr ⟨a, x, b, rfl, ?_, ?_, rfl⟩
    · exact decide_eq_true (of_decide_eq_true hx c)
    · -- a later row with the value would have to be followed by one that must have it
      intro y hy
      rw [decide_eq_false_iff_not]
      intro hv
      obtain ⟨b₁, b₂, rfl⟩ := List.append_of_mem hy
      rcases h (a ++ x :: b₁) y b₂ (by simp) v ⟨c, hv⟩ with hmust | ⟨z, hz, hmust⟩
      · exact absurd hmust (of_decide_eq_false (hb y hy))
      · exact absurd hmust (of_decide_eq_false (hb z (by simp [hz])))

theorem lastSettled_of_const (h : ∀ c c' v, lastPos (fun x => decide (r c x = some v)) l =
    lastPos (fun x => decide (r c' x = some v)) l) : LastSettled r l := by
  rintro a x b rfl v ⟨c, hc⟩
  cases hlast : lastPos (fun x => decide (r c x = some v)) (a ++ x :: b) with
  | none =>
    have hx := lastPos_eq_none_iff.mp hlast x (by simp)
    exact absurd hc (of_decide_eq_false hx)
  | some k =>
    obtain ⟨a', y, b', hsplit, -, hb', rfl⟩ := lastPos_eq_some_iff.mp hlast
    -- for every choice this is the last row with the value
    have hmust : Must r y v := by
      intro c'
      obtain ⟨a'', z, b'', hsplit', hz, -, hlen⟩ :=
        lastPos_eq_some_iff.mp ((h c' c v).trans hlast)
      obtain ⟨-, htail⟩ := List.append_inj (hsplit.symm.trans hsplit') (Nat.succ.inj hlen)
      obtain ⟨rfl, -⟩ := List.cons.inj htail
      exact of_decide_eq_true hz
    rcases List.append_eq_append_iff.mp hsplit with ⟨t, -, ht⟩ | ⟨t, -, ht⟩
    · cases t with
      | nil =>
        obtain ⟨rfl, -⟩ := List.cons.inj ht
        exact .inl hmust
      | cons w t =>
        obtain ⟨-, rfl⟩ := List.cons.inj ht
        exact .inr ⟨y, by simp, hmust⟩
    · cases t with
      | nil =>
        obtain ⟨rfl, -⟩ := List.cons.inj ht
        exact .inl hmust
      | cons w t =>
        obtain ⟨-, rfl⟩ := List.cons.inj ht
        exact absurd hc (of_decide_eq_false (hb' x (by simp)))

theorem lastPos_const_iff : (∀ c c' v, lastPos (fun x => decide (r c x = some v)) l =
    lastPos (fun x => decide (r c' x = some v)) l) ↔ LastSettled r l := by
  constructor
  · exact lastSettled_of_const
  · intro h c c' v
    rw [h.lastPos_eq c v, h.lastPos_eq c' v]

end Last

/-- If the rows that need not have a value can be kept from it at once, the set of values
is the same for all choices exactly if it is settled. -/
theorem values_const_iff
    (havoid : ∀ v, (∀ x ∈ l, ¬ Must r x v) → ∃ c, ∀ x ∈ l, r c x ≠ some v) :
    (∀ c c' v, (∃ x ∈ l, r c x = some v) → ∃ x ∈ l, r c' x = some v) ↔ ValuesSettled r l := by
  constructor
  · rintro h x hx v ⟨c, hc⟩
    by_contra hnone
    push Not at hnone
    obtain ⟨c', hc'⟩ := havoid v hnone
    obtain ⟨y, hy, hv⟩ := h c c' v ⟨x, hx, hc⟩
    exact hc' y hy hv
  · rintro h c c' v ⟨x, hx, hc⟩
    obtain ⟨y, hy, hmust⟩ := h x hx v ⟨c, hc⟩
    exact ⟨y, hy, hmust c'⟩

end Choices

/-! ### Orders -/

section Orders

variable {α β : Type*} {p q : α → Bool} {l : List α}

/-- The elements with `p` first, those with `q` last. -/
def rearrange (p q : α → Bool) (l : List α) : List α :=
  l.filter p ++ (l.filter (fun x => !p x && !q x) ++ l.filter fun x => !p x && q x)

theorem rearrange_perm (p q : α → Bool) (l : List α) : (rearrange p q l).Perm l := by
  have hrest : (l.filter (fun x => !p x && !q x) ++ l.filter fun x => !p x && q x).Perm
      (l.filter fun x => !p x) := by
    have h := List.filter_append_perm q (l.filter fun x => !p x)
    rw [List.filter_filter, List.filter_filter] at h
    refine List.Perm.trans ?_ (List.perm_append_comm.trans h)
    simp [Bool.and_comm]
  exact (hrest.append_left _).trans (List.filter_append_perm p l)

theorem filter_rearrange (p q s : α → Bool) (l : List α) :
    (rearrange p q l).filter s = rearrange p q (l.filter s) := by
  simp only [rearrange, List.filter_append, List.filter_filter]
  simp only [Bool.and_comm, Bool.and_left_comm]

theorem map_rearrange (f : β → α) (p q : α → Bool) (l : List β) :
    (rearrange (p ∘ f) (q ∘ f) l).map f = rearrange p q (l.map f) := by
  simp only [rearrange, List.map_append, List.filter_map]
  rfl

@[simp] theorem rearrange_nil (p q : α → Bool) : rearrange p q [] = [] := rfl

@[simp] theorem rearrange_singleton (p q : α → Bool) (x : α) : rearrange p q [x] = [x] := by
  cases hp : p x <;> cases hq : q x <;> simp [rearrange, hp, hq]

@[simp] theorem rearrange_eq_nil_iff : rearrange p q l = [] ↔ l = [] := by
  rw [← List.length_eq_zero_iff, (rearrange_perm p q l).length_eq, List.length_eq_zero_iff]

/-- What comes first. -/
theorem head?_rearrange (h : ∃ x ∈ l, p x = true) :
    ∃ x ∈ l, (rearrange p q l).head? = some x ∧ p x = true := by
  obtain ⟨x, hx, hpx⟩ := h
  have hmem : x ∈ l.filter p := List.mem_filter.mpr ⟨hx, hpx⟩
  obtain ⟨y, rest, hfilter⟩ := List.exists_cons_of_ne_nil (List.ne_nil_of_mem hmem)
  obtain ⟨hy, hpy⟩ := List.mem_filter.mp (hfilter ▸ List.mem_cons_self)
  refine ⟨y, hy, ?_, hpy⟩
  rw [rearrange, hfilter]
  rfl

/-- What comes last. -/
theorem getLast?_rearrange (hp : ∀ x ∈ l, q x = true → p x = false) (h : ∃ x ∈ l, q x = true) :
    ∃ x ∈ l, (rearrange p q l).getLast? = some x ∧ q x = true := by
  obtain ⟨x, hx, hqx⟩ := h
  have hmem : x ∈ l.filter fun x => !p x && q x :=
    List.mem_filter.mpr ⟨hx, by rw [hp x hx hqx, hqx]; rfl⟩
  have hne := List.ne_nil_of_mem hmem
  obtain ⟨hy, hqy⟩ := List.mem_filter.mp (List.getLast_mem hne)
  refine ⟨_, hy, ?_, (Bool.and_eq_true_iff.mp hqy).2⟩
  rw [rearrange, List.getLast?_append_of_ne_nil _ (List.append_ne_nil_of_right_ne_nil _ hne),
    List.getLast?_append_of_ne_nil _ hne, List.getLast?_eq_some_getLast hne]

/-- If all elements are equal, the first is the same in all orders. -/
theorem head?_perm {l' : List α} (h : l'.Perm l) (heq : ∀ x ∈ l, ∀ y ∈ l, x = y) :
    l'.head? = l.head? := by
  cases l with
  | nil => rw [List.perm_nil.mp h]
  | cons x l =>
    cases l' with
    | nil => exact absurd (List.nil_perm.mp h) (List.cons_ne_nil x l)
    | cons y l' =>
      have hy : y ∈ x :: l := h.mem_iff.mp List.mem_cons_self
      rw [List.head?_cons, List.head?_cons, heq y hy x List.mem_cons_self]

/-- The first of the lists that is not empty. -/
def firstNonempty : List (List α) → List α
  | [] => []
  | l :: ls => if l.isEmpty then firstNonempty ls else l

theorem firstNonempty_cons_nil (ls : List (List α)) :
    firstNonempty ([] :: ls) = firstNonempty ls := rfl

theorem firstNonempty_cons_of_ne_nil (hl : l ≠ []) (ls : List (List α)) :
    firstNonempty (l :: ls) = l := by
  rw [firstNonempty, if_neg (by simp [hl])]

theorem head?_flatten (ls : List (List α)) : ls.flatten.head? = (firstNonempty ls).head? := by
  induction ls with
  | nil => rfl
  | cons l ls ih =>
    cases l with
    | nil => exact ih
    | cons a l => rfl

theorem getLast?_flatten (ls : List (List α)) :
    ls.flatten.getLast? = (firstNonempty ls.reverse).getLast? := by
  have h := head?_flatten (ls.reverse.map List.reverse)
  rw [List.map_reverse, ← List.reverse_flatten, List.head?_reverse] at h
  rw [h, ← List.map_reverse]
  generalize ls.reverse = ks
  induction ks with
  | nil => rfl
  | cons l ks ih =>
    cases l with
    | nil => simpa [firstNonempty] using ih
    | cons a l =>
      show (firstNonempty ((a :: l).reverse :: ks.map List.reverse)).head? = (a :: l).getLast?
      rw [firstNonempty_cons_of_ne_nil (by simp), List.head?_reverse]

theorem firstNonempty_map_rearrange (p q : α → Bool) (ls : List (List α)) :
    firstNonempty (ls.map (rearrange p q)) = rearrange p q (firstNonempty ls) := by
  induction ls with
  | nil => rfl
  | cons l ls ih =>
    rw [List.map_cons]
    by_cases hl : l = []
    · rw [hl, rearrange_nil, firstNonempty_cons_nil, firstNonempty_cons_nil, ih]
    · have hne : rearrange p q l ≠ [] := fun h => hl (rearrange_eq_nil_iff.mp h)
      rw [firstNonempty_cons_of_ne_nil hl, firstNonempty_cons_of_ne_nil hne]

/-- A list of one element at the end gives the default. -/
theorem getLast?_firstNonempty_concat (ls : List (List α)) (x : α) :
    (firstNonempty (ls ++ [[x]])).getLast? = some ((firstNonempty ls).getLast?.getD x) := by
  induction ls with
  | nil => rfl
  | cons l ls ih =>
    rw [List.cons_append]
    by_cases hl : l = []
    · rw [hl, firstNonempty_cons_nil, firstNonempty_cons_nil, ih]
    · rw [firstNonempty_cons_of_ne_nil hl, firstNonempty_cons_of_ne_nil hl,
        List.getLast?_eq_some_getLast hl]
      rfl

/-- The same list is chosen from lists in another order. -/
theorem firstNonempty_perm {ls ls' : List (List α)} (h : List.Forall₂ List.Perm ls ls') :
    (firstNonempty ls).Perm (firstNonempty ls') := by
  induction h with
  | nil => exact List.Perm.nil
  | @cons l l' ls ls' hl _ ih =>
    by_cases hnil : l = []
    · subst hnil
      rw [List.nil_perm.mp hl]
      exact ih
    · have hnil' : l' ≠ [] := fun heq => hnil (List.perm_nil.mp (heq ▸ hl))
      rw [firstNonempty_cons_of_ne_nil hnil, firstNonempty_cons_of_ne_nil hnil']
      exact hl

end Orders

end OrderChoice
