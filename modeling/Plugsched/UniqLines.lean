/-
What `sort`, `uniq` and `uniq -d` do with lists.

`uniq` looks at neighbours only; after `sort` all copies of an element are neighbours.

* `nodup_uniq_sort`, `mem_uniq_sort` — `sort | uniq` keeps one copy of each element;
* `mem_uniqD_sort` — `sort | uniq -d` finds the elements with several copies;
* `mem_uniqD_merged` — the test for common elements of two lists, of which only the second
  is known to have no copies;
* `length_eq_countP_iff` — what comparing two counts tells.
-/
import Mathlib.Algebra.BigOperators.Group.Finset.Basic
import Mathlib.Algebra.Order.BigOperators.Group.Finset
import Mathlib.Data.List.Sort
import Mathlib.Data.List.Duplicate
import Mathlib.Data.List.Nodup

namespace UniqLines

variable {α : Type*}

section Sorting

variable [LinearOrder α]

/-- `sort`. -/
def sort (l : List α) : List α := l.insertionSort (· ≤ ·)

theorem sort_perm (l : List α) : (sort l).Perm l := List.perm_insertionSort _ l

theorem sort_pairwise (l : List α) : (sort l).Pairwise (· ≤ ·) := List.pairwise_insertionSort _ l

end Sorting

/-! ### Neighbours -/

section Neighbours

variable [DecidableEq α]

/-- `uniq` after the line `a`. -/
def uniqFrom (a : α) : List α → List α
  | [] => []
  | b :: l => if a = b then uniqFrom a l else b :: uniqFrom b l

/-- `uniq`. -/
def uniq : List α → List α
  | [] => []
  | a :: l => a :: uniqFrom a l

/-- `uniq -d` after the line `a`, of which `copies` tells whether it has been repeated. -/
def uniqDFrom (a : α) (copies : Bool) : List α → List α
  | [] => if copies then [a] else []
  | b :: l =>
    if a = b then uniqDFrom a true l
    else (if copies then [a] else []) ++ uniqDFrom b false l

/-- `uniq -d`. -/
def uniqD : List α → List α
  | [] => []
  | a :: l => uniqDFrom a false l

theorem mem_uniqFrom_or {a x : α} {l : List α} : x = a ∨ x ∈ uniqFrom a l ↔ x = a ∨ x ∈ l := by
  induction l generalizing a with
  | nil => rfl
  | cons b l ih =>
    rw [uniqFrom]
    by_cases hab : a = b
    · subst hab
      rw [if_pos rfl, ih, List.mem_cons]
      tauto
    · rw [if_neg hab, List.mem_cons, List.mem_cons, ih]

@[simp] theorem mem_uniq {x : α} {l : List α} : x ∈ uniq l ↔ x ∈ l := by
  cases l with
  | nil => rfl
  | cons a l => rw [uniq, List.mem_cons, List.mem_cons, mem_uniqFrom_or]

end Neighbours

/-! ### Counting -/

/-- Of names that occur once at most, as many are found as there are exactly if each is found. -/
theorem length_eq_countP_iff [DecidableEq α] {names l : List α} (hnames : names.Nodup)
    {q : α → Bool} {P : α → Prop} (hq : ∀ n, q n = true ↔ n ∈ names ∧ P n)
    (hone : ∀ n ∈ names, l.countP (fun m => decide (m = n)) ≤ 1) :
    names.length = l.countP q ↔ ∀ n ∈ names, P n ∧ l.countP (fun m => decide (m = n)) = 1 := by
  have hle : ∀ n ∈ names.toFinset, (l.filter q).count n ≤ 1 := by
    intro n hn
    exact (List.filter_sublist.count_le n).trans (hone n (List.mem_toFinset.mp hn))
  have hsum : ∑ n ∈ names.toFinset, (l.filter q).count n = (l.filter q).length := by
    have hmem : ∀ n ∈ (l.filter q : Multiset α), n ∈ names.toFinset := by
      intro n hn
      have hin := (hq n).mp (List.mem_filter.mp (Multiset.mem_coe.mp hn)).2
      exact List.mem_toFinset.mpr hin.1
    have hcard := Multiset.sum_count_eq_card hmem
    simpa using hcard
  rw [List.countP_eq_length_filter, ← hsum, ← List.toFinset_card_of_nodup hnames,
    Finset.card_eq_sum_ones, eq_comm, Finset.sum_eq_sum_iff_of_le hle]
  constructor
  · intro h n hn
    have hfound := h n (List.mem_toFinset.mpr hn)
    have hmem : n ∈ l.filter q := List.count_pos_iff.mp (by omega)
    have hqn := (List.mem_filter.mp hmem).2
    rw [List.count_filter hqn] at hfound
    exact ⟨((hq n).mp hqn).2, hfound⟩
  · intro h n hn
    have hn := List.mem_toFinset.mp hn
    obtain ⟨hP, hcount⟩ := h n hn
    rw [List.count_filter ((hq n).mpr ⟨hn, hP⟩)]
    exact hcount

/-! ### Sorted lists -/

variable [LinearOrder α] [DecidableEq α]

theorem pairwise_uniqFrom {a : α} {l : List α} (h : (a :: l).Pairwise (· ≤ ·)) :
    (a :: uniqFrom a l).Pairwise (· < ·) := by
  induction l generalizing a with
  | nil => exact List.pairwise_singleton _ a
  | cons b l ih =>
    obtain ⟨ha, hl⟩ := List.pairwise_cons.mp h
    rw [uniqFrom]
    by_cases hab : a = b
    · subst hab
      rw [if_pos rfl]
      exact ih hl
    · rw [if_neg hab]
      refine List.pairwise_cons.mpr ⟨?_, ih hl⟩
      intro x hx
      have hlt : a < b := lt_of_le_of_ne (ha b List.mem_cons_self) hab
      rcases List.mem_cons.mp hx with rfl | hx
      · exact hlt
      · exact hlt.trans ((List.pairwise_cons.mp (ih hl)).1 x hx)

theorem nodup_uniq_sort (l : List α) : (uniq (sort l)).Nodup := by
  have hsorted := sort_pairwise l
  cases hsort : sort l with
  | nil => exact List.nodup_nil
  | cons a rest =>
    rw [hsort] at hsorted
    exact (pairwise_uniqFrom hsorted).imp ne_of_lt

@[simp] theorem mem_uniq_sort {x : α} {l : List α} : x ∈ uniq (sort l) ↔ x ∈ l := by
  rw [mem_uniq, (sort_perm l).mem_iff]

theorem mem_uniqDFrom {a x : α} {copies : Bool} {l : List α} (h : (a :: l).Pairwise (· ≤ ·)) :
    x ∈ uniqDFrom a copies l ↔
      if x = a then copies = true ∨ a ∈ l else List.Duplicate x l := by
  induction l generalizing a copies with
  | nil => cases copies <;> simp [uniqDFrom, List.not_duplicate_nil]
  | cons b l ih =>
    obtain ⟨ha, hl⟩ := List.pairwise_cons.mp h
    rw [uniqDFrom]
    by_cases hab : a = b
    · subst hab
      rw [if_pos rfl, ih hl]
      by_cases hx : x = a
      · simp [hx]
      · rw [if_neg hx, if_neg hx, List.duplicate_cons_iff_of_ne hx]
    · -- no copy of `a` comes after a greater element
      have hlt : a < b := lt_of_le_of_ne (ha b List.mem_cons_self) hab
      have hnot : a ∉ b :: l := by
        intro hmem
        rcases List.mem_cons.mp hmem with rfl | hmem
        · exact hab rfl
        · exact absurd ((List.pairwise_cons.mp hl).1 a hmem) (not_le.mpr hlt)
      have hnotl : ¬ List.Duplicate a l := fun hdup => hnot (List.mem_cons_of_mem b hdup.mem)
      rw [if_neg hab, List.mem_append, ih hl]
      by_cases hx : x = a
      · subst hx
        rw [if_pos rfl, if_neg hab]
        cases copies <;> simp [hnot, hnotl]
      · rw [if_neg hx]
        have hcopies : x ∉ (if copies then [a] else []) := by
          cases copies <;> simp [hx]
        by_cases hxb : x = b
        · subst hxb
          simp [hcopies]
        · rw [if_neg hxb, List.duplicate_cons_iff_of_ne hxb]
          simp [hcopies]

theorem mem_uniqD_sort {x : α} {l : List α} : x ∈ uniqD (sort l) ↔ List.Duplicate x l := by
  rw [List.duplicate_iff_two_le_count, ← (sort_perm l).count_eq x,
    ← List.duplicate_iff_two_le_count]
  have hsorted := sort_pairwise l
  cases hsort : sort l with
  | nil => simp [uniqD, List.not_duplicate_nil]
  | cons a rest =>
    rw [hsort] at hsorted
    rw [uniqD, mem_uniqDFrom hsorted]
    by_cases hx : x = a
    · subst hx
      simp
    · rw [if_neg hx, List.duplicate_cons_iff_of_ne hx]

/-- Copies in the first list are found like elements of both. -/
theorem mem_uniqD_merged {x : α} {l l' : List α} :
    x ∈ uniqD (sort (l ++ uniq (sort l'))) ↔ List.Duplicate x l ∨ (x ∈ l ∧ x ∈ l') := by
  rw [mem_uniqD_sort, List.duplicate_iff_two_le_count, List.duplicate_iff_two_le_count,
    List.count_append]
  by_cases hx : x ∈ l'
  · rw [List.count_eq_one_of_mem (nodup_uniq_sort l') (mem_uniq_sort.mpr hx)]
    rw [← List.one_le_count_iff]
    simp only [hx, and_true]
    omega
  · rw [List.count_eq_zero_of_not_mem fun hmem => hx (mem_uniq_sort.mp hmem)]
    simp [hx]

end UniqLines
