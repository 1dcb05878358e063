/-
The longest common prefix of two lists.

* `take_lcp`, `le_lcp` — the lists agree so far, and no further;
* `exists_mismatch` — what is at the first difference, if neither list ends there;
* `lt_iff_of_mismatch` — in the lexicographic order, a list that differs earlier from a
  third one stands on the side of its first difference.
-/
import Mathlib.Order.Lattice
import Mathlib.Data.List.Lex
import Mathlib.Data.List.Basic

namespace CommonPrefix

variable {α : Type*} [DecidableEq α]

/-- The length of the longest common prefix. -/
def lcp : List α → List α → ℕ
  | a :: s, b :: t => if a = b then lcp s t + 1 else 0
  | _, _ => 0

@[simp] theorem lcp_cons_self (a : α) (s t : List α) : lcp (a :: s) (a :: t) = lcp s t + 1 := by
  rw [lcp, if_pos rfl]

theorem lcp_cons_of_ne {a b : α} (h : a ≠ b) (s t : List α) : lcp (a :: s) (b :: t) = 0 := by
  rw [lcp, if_neg h]

theorem lcp_le (s t : List α) : lcp s t ≤ min s.length t.length := by
  fun_induction lcp s t with
  | case1 b s t ih =>
    rw [List.length_cons, List.length_cons]
    omega
  | case2 a s b t h => exact Nat.zero_le _
  | case3 s t h => exact Nat.zero_le _

theorem take_lcp (s t : List α) : s.take (lcp s t) = t.take (lcp s t) := by
  fun_induction lcp s t with
  | case1 b s t ih => rw [List.take_succ_cons, List.take_succ_cons, ih]
  | case2 a s b t h => rfl
  | case3 s t h => rfl

theorem length_le_lcp {p s t : List α} (hs : p <+: s) (ht : p <+: t) : p.length ≤ lcp s t := by
  induction p generalizing s t with
  | nil => exact Nat.zero_le _
  | cons a p ih =>
    obtain ⟨s', rfl, hs'⟩ := List.cons_prefix_iff.mp hs
    obtain ⟨t', rfl, ht'⟩ := List.cons_prefix_iff.mp ht
    rw [lcp_cons_self]
    exact Nat.succ_le_succ (ih hs' ht')

/-- The lists differ in an element that both have. -/
theorem exists_mismatch {s t : List α} (h : lcp s t < min s.length t.length) :
    ∃ a b, s[lcp s t]? = some a ∧ t[lcp s t]? = some b ∧ a ≠ b := by
  fun_induction lcp s t with
  | case1 b s t ih =>
    rw [List.length_cons, List.length_cons] at h
    obtain ⟨x, y, hx, hy, hxy⟩ := ih (by omega)
    exact ⟨x, y, by simpa using hx, by simpa using hy, hxy⟩
  | case2 a s b t hab => exact ⟨a, b, rfl, rfl, hab⟩
  | case3 s t hnil =>
    match s, t with
    | [], _ => simp at h
    | _ :: _, [] => simp at h
    | a :: s, b :: t => exact (hnil a s b t rfl rfl).elim

/-- An element inside the common prefix is the same in both lists. -/
theorem getElem?_of_lt_lcp {s t : List α} {i : ℕ} (h : i < lcp s t) : s[i]? = t[i]? := by
  rw [← List.getElem?_take_of_lt h, take_lcp, List.getElem?_take_of_lt h]

/-- Where `t'` first differs from `r`, it differs from a list that agrees with `r` longer. -/
theorem split_at_mismatch {r t t' : List α} (h : lcp r t' < lcp r t) {a c : α}
    (hr : r[lcp r t']? = some c) (ht : t'[lcp r t']? = some a) :
    ∃ p u v, t' = p ++ a :: u ∧ t = p ++ c :: v := by
  have hsame : t.take (lcp r t') = t'.take (lcp r t') := by
    calc t.take (lcp r t') = (t.take (lcp r t)).take (lcp r t') := by
          rw [List.take_take, min_eq_left h.le]
      _ = r.take (lcp r t') := by rw [← take_lcp, List.take_take, min_eq_left h.le]
      _ = t'.take (lcp r t') := take_lcp r t'
  have hsplit : ∀ {l : List α} {b : α}, l[lcp r t']? = some b →
      l = l.take (lcp r t') ++ b :: l.drop (lcp r t' + 1) := by
    intro l b hb
    obtain ⟨hlt, rfl⟩ := List.getElem?_eq_some_iff.mp hb
    rw [← List.drop_eq_getElem_cons hlt, List.take_append_drop]
  rw [getElem?_of_lt_lcp h] at hr
  refine ⟨t'.take (lcp r t'), t'.drop (lcp r t' + 1), t.drop (lcp r t' + 1), hsplit ht, ?_⟩
  rw [← hsame]
  exact hsplit hr

/-- On which side of `t` the list `t'` stands, if it differs from `r` earlier. -/
theorem lt_iff_of_mismatch [LinearOrder α] {r t t' : List α} (h : lcp r t' < lcp r t) {a c : α}
    (hr : r[lcp r t']? = some c) (ht : t'[lcp r t']? = some a) (hne : a ≠ c) :
    t' < t ↔ a < c := by
  obtain ⟨p, u, v, rfl, rfl⟩ := split_at_mismatch h hr ht
  rcases lt_or_gt_of_ne hne with hlt | hgt
  · have hcons : a :: u < c :: v := List.cons_lt_cons_iff.mpr (.inl hlt)
    exact iff_of_true (List.append_left_lt hcons) hlt
  · have hcons : c :: v < a :: u := List.cons_lt_cons_iff.mpr (.inl hgt)
    exact iff_of_false (List.append_left_lt hcons).not_gt hgt.not_gt

end CommonPrefix
