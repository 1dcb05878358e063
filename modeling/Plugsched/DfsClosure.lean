/-
Depth-first search with one visited set and a bounded stack.

* `dfs` — the search from one vertex, `dfsAll` from a list of them;
* `Grown` — what a search adds to the visited set, `dfs_grown`;
* `exists_dfs_eq_ok` — a stack that is deeper than the unvisited vertices are many
  does not overflow;
* `dfsAll_isLeast` — from an empty visited set the search finds the closure.
-/
import Mathlib.Data.Finset.Card
import Mathlib.Logic.Relation
import Mathlib.Order.Bounds.Defs
import Plugsched.ExceptRules

open ExceptRules Relation

namespace DfsClosure

variable {α ε : Type} [DecidableEq α]

/-- The search from `a`, with `depth` frames left on the stack; `seen` is the visited
set. -/
def dfs (overflow : ε) (succ : α → List α) : ℕ → α → Finset α → Except ε (Finset α)
  | 0, _, _ => .error overflow
  | depth + 1, a, seen =>
    if a ∈ seen then .ok seen
    else (succ a).foldlM (fun seen b => dfs overflow succ depth b seen) (insert a seen)

/-- The searches from the members of a list, one after the other. -/
def dfsAll (overflow : ε) (succ : α → List α) (depth : ℕ) (roots : List α) (seen : Finset α) :
    Except ε (Finset α) :=
  roots.foldlM (fun seen a => dfs overflow succ depth a seen) seen

variable {overflow : ε} {succ : α → List α}

theorem dfs_succ (depth : ℕ) (a : α) (seen : Finset α) :
    dfs overflow succ (depth + 1) a seen =
      if a ∈ seen then .ok seen else dfsAll overflow succ depth (succ a) (insert a seen) := rfl

/-! ### What a search adds -/

/-- The visited set grows from `seen` to `seen'` by the vertices that can be reached
from `roots`, each with all its successors. -/
structure Grown {α : Type} (succ : α → List α) (roots : List α) (seen seen' : Finset α) :
    Prop where
  subset : seen ⊆ seen'
  roots_mem : ∀ a ∈ roots, a ∈ seen'
  closed : ∀ b ∈ seen', b ∉ seen → ∀ c ∈ succ b, c ∈ seen'
  reached : ∀ b ∈ seen', b ∉ seen → ∃ a ∈ roots, ReflTransGen (fun x y => y ∈ succ x) a b

omit [DecidableEq α] in
theorem Grown.nil (seen : Finset α) : Grown succ [] seen seen where
  subset := Finset.Subset.refl seen
  roots_mem a ha := by cases ha
  closed b hb hnew := absurd hb hnew
  reached b hb hnew := absurd hb hnew

omit [DecidableEq α] in
/-- Two searches in a row. -/
theorem Grown.cons {a : α} {roots : List α} {s₀ s₁ s₂ : Finset α} (h₁ : Grown succ [a] s₀ s₁)
    (h₂ : Grown succ roots s₁ s₂) : Grown succ (a :: roots) s₀ s₂ where
  subset := h₁.subset.trans h₂.subset
  roots_mem b hb := by
    rcases List.mem_cons.mp hb with rfl | hb
    · exact h₂.subset (h₁.roots_mem b List.mem_cons_self)
    · exact h₂.roots_mem b hb
  closed b hb hnew c hc := by
    by_cases hfirst : b ∈ s₁
    · exact h₂.subset (h₁.closed b hfirst hnew c hc)
    · exact h₂.closed b hb hfirst c hc
  reached b hb hnew := by
    by_cases hfirst : b ∈ s₁
    · obtain ⟨a', ha', hreach⟩ := h₁.reached b hfirst hnew
      rw [List.mem_singleton] at ha'
      exact ⟨a', ha' ▸ List.mem_cons_self, hreach⟩
    · obtain ⟨a', ha', hreach⟩ := h₂.reached b hb hfirst
      exact ⟨a', List.mem_cons_of_mem a ha', hreach⟩

/-- The search from `a` goes on from its successors. -/
theorem Grown.visit {a : α} {seen seen' : Finset α}
    (h : Grown succ (succ a) (insert a seen) seen') : Grown succ [a] seen seen' where
  subset := (Finset.subset_insert a seen).trans h.subset
  roots_mem b hb := by
    rw [List.mem_singleton] at hb
    subst hb
    exact h.subset (Finset.mem_insert_self b seen)
  closed b hb hnew c hc := by
    by_cases hba : b = a
    · subst hba
      exact h.roots_mem c hc
    · exact h.closed b hb (by simp [hba, hnew]) c hc
  reached b hb hnew := by
    refine ⟨a, List.mem_cons_self, ?_⟩
    by_cases hba : b = a
    · subst hba
      exact .refl
    · obtain ⟨c, hc, hreach⟩ := h.reached b hb (by simp [hba, hnew])
      exact .head hc hreach

theorem dfsAll_grown_of {depth : ℕ} {roots : List α} {seen seen' : Finset α}
    (hdfs : ∀ a s s', dfs overflow succ depth a s = .ok s' → Grown succ [a] s s')
    (h : dfsAll overflow succ depth roots seen = .ok seen') : Grown succ roots seen seen' := by
  induction roots generalizing seen with
  | nil =>
    obtain rfl : seen = seen' := Except.ok.inj h
    exact .nil seen
  | cons a roots ih =>
    obtain ⟨s₁, hfirst, hrest⟩ := foldlM_cons_ok h
    exact (hdfs a seen s₁ hfirst).cons (ih hrest)

/-- A search that ends has added what it should. -/
theorem dfs_grown {depth : ℕ} {a : α} {seen seen' : Finset α}
    (h : dfs overflow succ depth a seen = .ok seen') : Grown succ [a] seen seen' := by
  induction depth generalizing a seen seen' with
  | zero => cases h
  | succ depth ih =>
    rw [dfs_succ] at h
    split at h
    · next hmem =>
      cases h
      exact ⟨Finset.Subset.refl seen, fun b hb => (List.mem_singleton.mp hb) ▸ hmem,
        fun b hb hnew => absurd hb hnew, fun b hb hnew => absurd hb hnew⟩
    · exact .visit (dfsAll_grown_of (fun _ _ _ => ih) h)

theorem dfsAll_grown {depth : ℕ} {roots : List α} {seen seen' : Finset α}
    (h : dfsAll overflow succ depth roots seen = .ok seen') : Grown succ roots seen seen' :=
  dfsAll_grown_of (fun _ _ _ => dfs_grown) h

/-! ### The stack -/

theorem exists_dfsAll_eq_ok_of {V : Finset α} {depth : ℕ} {roots : List α} {seen : Finset α}
    (hdfs : ∀ a ∈ V, ∀ s, (V \ s).card ≤ (V \ seen).card →
      ∃ s', dfs overflow succ depth a s = .ok s')
    (hroots : ∀ a ∈ roots, a ∈ V) : ∃ seen', dfsAll overflow succ depth roots seen = .ok seen' := by
  induction roots generalizing seen with
  | nil => exact ⟨seen, rfl⟩
  | cons a roots ih =>
    obtain ⟨s₁, hfirst⟩ := hdfs a (hroots a List.mem_cons_self) seen le_rfl
    have hsub : (V \ s₁).card ≤ (V \ seen).card :=
      Finset.card_le_card (Finset.sdiff_subset_sdiff le_rfl (dfs_grown hfirst).subset)
    obtain ⟨s₂, hrest⟩ := ih (fun b hb s hs => hdfs b hb s (hs.trans hsub))
      fun b hb => hroots b (List.mem_cons_of_mem a hb)
    refine ⟨s₂, ?_⟩
    rw [dfsAll, List.foldlM_cons, hfirst]
    exact hrest

/-- Each frame of the stack belongs to a vertex that was not visited before. -/
theorem exists_dfs_eq_ok {V : Finset α} (hV : ∀ a ∈ V, ∀ b ∈ succ a, b ∈ V) {depth : ℕ} {a : α}
    {seen : Finset α} (ha : a ∈ V) (hdepth : (V \ seen).card < depth) :
    ∃ seen', dfs overflow succ depth a seen = .ok seen' := by
  induction depth generalizing a seen with
  | zero => omega
  | succ depth ih =>
    rw [dfs_succ]
    split
    · exact ⟨seen, rfl⟩
    · next hnew =>
      have hless : (V \ insert a seen).card < (V \ seen).card := by
        refine Finset.card_lt_card (Finset.ssubset_iff_subset_ne.mpr ⟨?_, fun heq => ?_⟩)
        · exact Finset.sdiff_subset_sdiff le_rfl (Finset.subset_insert a seen)
        · have hmem : a ∈ V \ insert a seen := by
            rw [heq]
            exact Finset.mem_sdiff.mpr ⟨ha, hnew⟩
          exact (Finset.mem_sdiff.mp hmem).2 (Finset.mem_insert_self a seen)
      refine exists_dfsAll_eq_ok_of (V := V) (fun b hb s hs => ih hb ?_) (hV a ha)
      omega

theorem exists_dfsAll_eq_ok {V : Finset α} (hV : ∀ a ∈ V, ∀ b ∈ succ a, b ∈ V) {depth : ℕ}
    {roots : List α} {seen : Finset α} (hroots : ∀ a ∈ roots, a ∈ V)
    (hdepth : (V \ seen).card < depth) :
    ∃ seen', dfsAll overflow succ depth roots seen = .ok seen' := by
  refine exists_dfsAll_eq_ok_of (V := V) (fun a ha s hs => exists_dfs_eq_ok hV ha ?_) hroots
  omega

/-! ### The closure -/

/-- A search from an empty visited set finds the least set with the roots that is
closed under successors. -/
theorem dfsAll_isLeast {depth : ℕ} {roots : List α} {found : Finset α}
    (h : dfsAll overflow succ depth roots ∅ = .ok found) :
    IsLeast {S : Set α | (∀ a ∈ roots, a ∈ S) ∧ ∀ a ∈ S, ∀ b ∈ succ a, b ∈ S} ↑found := by
  have hgrown := dfsAll_grown h
  refine ⟨⟨hgrown.roots_mem, fun a ha => hgrown.closed a ha (Finset.notMem_empty a)⟩, ?_⟩
  rintro S ⟨hroots, hclosed⟩ b hb
  obtain ⟨a, ha, hreach⟩ := hgrown.reached b hb (Finset.notMem_empty b)
  clear hb
  induction hreach with
  | refl => exact hroots a ha
  | tail _ hstep ih => exact hclosed _ ih _ hstep

/-- The search looks at the successors of reachable vertices only. -/
theorem dfs_congr {succ' : α → List α} {P : α → Prop} (heq : ∀ a, P a → succ a = succ' a)
    (hP : ∀ a, P a → ∀ b ∈ succ a, P b) (depth : ℕ) {a : α} (ha : P a) (seen : Finset α) :
    dfs overflow succ depth a seen = dfs overflow succ' depth a seen := by
  induction depth generalizing a seen with
  | zero => rfl
  | succ depth ih =>
    rw [dfs, dfs, ← heq a ha]
    split
    · rfl
    · exact foldlM_congr (fun b hb s => ih (hP a ha b hb) s) _

end DfsClosure
