/-
Sets of vertices that can only be entered through a cut.

* `Guarded` — every predecessor of a member is a member or lies in the cut;
  `Guarded.mem_of_isPath`: a path that avoids the cut stays in a guarded set;
* `prune` — drops vertices round after round until no round drops any;
  `prune_stable`: that happens within as many rounds as there are vertices,
  `subset_prune`: a set from which nothing is dropped is kept;
* `Through` — a path whose inner vertices satisfy a predicate;
* `unreached_isGreatest` — the greatest guarded subset is what no path from
  outside leads to.
-/
import Mathlib.Data.Finset.Card
import Mathlib.Data.List.GetD
import Mathlib.Order.Bounds.Defs

namespace CutGraph

variable {α : Type*}

/-! ### Guarded sets -/

/-- Every predecessor of a member of `S` is in `S` or in `cut`. -/
def Guarded (E : α → α → Prop) (cut S : Set α) : Prop :=
  ∀ a b, E a b → b ∈ S → a ∈ S ∨ a ∈ cut

/-- `g 0, …, g k` is a path. -/
def IsPath (E : α → α → Prop) (g : ℕ → α) (k : ℕ) : Prop :=
  ∀ i < k, E (g i) (g (i + 1))

/-- The elements of a chain, up to position `k`. -/
theorem isPath_of_isChain {E : α → α → Prop} {l : List α} (h : l.IsChain E) (d : α) {k : ℕ}
    (hk : k < l.length) : IsPath E (fun i => l.getD i d) k := by
  intro i hi
  dsimp only
  rw [List.getD_eq_getElem _ _ (by omega), List.getD_eq_getElem _ _ (by omega)]
  exact List.isChain_iff_getElem.mp h i (by omega)

/-- A path that stays off the cut stays in the set, read backwards. -/
theorem Guarded.mem_of_isPath {E : α → α → Prop} {cut S : Set α} (h : Guarded E cut S)
    {g : ℕ → α} {k : ℕ} (hpath : IsPath E g k) (hk : g k ∈ S)
    (hcut : ∀ i < k, g i ∉ cut) {i : ℕ} (hi : i ≤ k) : g i ∈ S := by
  induction hi using Nat.decreasingInduction with
  | self => exact hk
  | of_succ i hi ih =>
    rcases h _ _ (hpath i hi) ih with hmem | hmem
    · exact hmem
    · exact absurd hmem (hcut i hi)

/-! ### Pruning -/

section Prune

variable [DecidableEq α]

/-- At most `n` rounds of removing what `drop` names. -/
def pruneRounds (drop : Finset α → List α) : ℕ → Finset α → Finset α
  | 0, S => S
  | n + 1, S =>
    if (drop S).isEmpty then S else pruneRounds drop n (S \ (drop S).toFinset)

/-- Remove what `drop` names until it names nothing. -/
def prune (drop : Finset α → List α) (S : Finset α) : Finset α :=
  pruneRounds drop S.card S

variable {drop : Finset α → List α}

theorem pruneRounds_subset (n : ℕ) (S : Finset α) : pruneRounds drop n S ⊆ S := by
  induction n generalizing S with
  | zero => exact Finset.Subset.refl S
  | succ n ih =>
    rw [pruneRounds]
    split
    · exact Finset.Subset.refl S
    · exact (ih _).trans Finset.sdiff_subset

theorem prune_subset (S : Finset α) : prune drop S ⊆ S := pruneRounds_subset _ S

theorem pruneRounds_stable (hdrop : ∀ S, ∀ a ∈ drop S, a ∈ S) {n : ℕ} {S : Finset α}
    (hn : S.card ≤ n) : drop (pruneRounds drop n S) = [] := by
  induction n generalizing S with
  | zero =>
    -- nothing is left that could be dropped
    have hS : S = ∅ := Finset.card_eq_zero.mp (Nat.le_zero.mp hn)
    refine List.eq_nil_iff_forall_not_mem.mpr ?_
    intro a ha
    exact absurd (hdrop _ a ha) (by simp [pruneRounds, hS])
  | succ n ih =>
    rw [pruneRounds]
    split
    · next hempty => exact List.isEmpty_iff.mp hempty
    · next hne =>
      refine ih (Nat.le_of_lt_succ (lt_of_lt_of_le (Finset.card_lt_card ?_) hn))
      obtain ⟨a, ha⟩ := List.exists_mem_of_ne_nil _ (mt List.isEmpty_iff.mpr hne)
      refine Finset.ssubset_iff_subset_ne.mpr ⟨Finset.sdiff_subset, fun heq => ?_⟩
      have hmem : a ∈ S \ (drop S).toFinset := by
        rw [heq]
        exact hdrop S a ha
      exact (Finset.mem_sdiff.mp hmem).2 (List.mem_toFinset.mpr ha)

/-- The rounds come to an end. -/
theorem prune_stable (hdrop : ∀ S, ∀ a ∈ drop S, a ∈ S) (S : Finset α) :
    drop (prune drop S) = [] :=
  pruneRounds_stable hdrop le_rfl

/-- The loop without a bound on its rounds: `none` if it is still running after `n`
rounds. -/
def pruneLoop (drop : Finset α → List α) : ℕ → Finset α → Option (Finset α)
  | 0, _ => none
  | n + 1, S =>
    if (drop S).isEmpty then some S else pruneLoop drop n (S \ (drop S).toFinset)

/-- A loop that has another round to find out that nothing is left to drop ends. -/
theorem pruneLoop_succ {n : ℕ} {S : Finset α} (h : drop (pruneRounds drop n S) = []) :
    pruneLoop drop (n + 1) S = some (pruneRounds drop n S) := by
  induction n generalizing S with
  | zero =>
    rw [pruneRounds] at h
    rw [pruneLoop, if_pos (List.isEmpty_iff.mpr h), pruneRounds]
  | succ n ih =>
    rw [pruneRounds] at h ⊢
    rw [pruneLoop]
    split at h
    · next hempty => rw [if_pos hempty, if_pos hempty]
    · next hne =>
      rw [if_neg hne, if_neg hne]
      exact ih h

theorem pruneLoop_mono {n m : ℕ} (hnm : n ≤ m) {S T : Finset α}
    (h : pruneLoop drop n S = some T) : pruneLoop drop m S = some T := by
  induction n generalizing m S with
  | zero => cases h
  | succ n ih =>
    obtain ⟨m, rfl⟩ : ∃ k, m = k + 1 := ⟨m - 1, by omega⟩
    rw [pruneLoop] at h ⊢
    split at h
    · next hempty =>
      rw [if_pos hempty]
      exact h
    · next hne =>
      rw [if_neg hne]
      exact ih (by omega) h

/-- The loop returns what the bounded rounds leave. -/
theorem pruneLoop_eq_some (hdrop : ∀ S, ∀ a ∈ drop S, a ∈ S) {n : ℕ} {S : Finset α}
    (hn : S.card < n) : pruneLoop drop n S = some (prune drop S) :=
  pruneLoop_mono hn (pruneLoop_succ (prune_stable hdrop S))

/-- What no round may drop is never dropped. -/
theorem subset_pruneRounds {T : Finset α} (hkeep : ∀ S, T ⊆ S → ∀ a ∈ drop S, a ∉ T) (n : ℕ)
    {S : Finset α} (hTS : T ⊆ S) : T ⊆ pruneRounds drop n S := by
  induction n generalizing S with
  | zero => exact hTS
  | succ n ih =>
    rw [pruneRounds]
    split
    · exact hTS
    · refine ih fun a ha => Finset.mem_sdiff.mpr ⟨hTS ha, fun hmem => ?_⟩
      exact hkeep S hTS a (List.mem_toFinset.mp hmem) ha

theorem subset_prune {T : Finset α} (hkeep : ∀ S, T ⊆ S → ∀ a ∈ drop S, a ∉ T) {S : Finset α}
    (hTS : T ⊆ S) : T ⊆ prune drop S :=
  subset_pruneRounds hkeep _ hTS

end Prune

/-! ### Paths through given vertices -/

/-- A path from `a` whose inner vertices satisfy `P`. -/
inductive Through (E : α → α → Prop) (P : α → Prop) (a : α) : α → Prop where
  | edge {b : α} : E a b → Through E P a b
  | snoc {c b : α} : Through E P a c → P c → E c b → Through E P a b

/-- `Through` with the vertices of the path listed. -/
theorem through_iff {E : α → α → Prop} {P : α → Prop} {a b : α} :
    Through E P a b ↔ ∃ (g : ℕ → α) (k : ℕ), 1 ≤ k ∧ g 0 = a ∧ g k = b ∧ IsPath E g k ∧
      ∀ i, 1 ≤ i → i < k → P (g i) := by
  constructor
  · intro h
    induction h with
    | @edge b hab =>
      refine ⟨fun i => if i = 0 then a else b, 1, le_rfl, rfl, rfl, fun i hi => ?_, ?_⟩
      · obtain rfl : i = 0 := Nat.lt_one_iff.mp hi
        exact hab
      · intro i h1 h2
        omega
    | @snoc c b _ hc hcb ih =>
      obtain ⟨g, k, hk, h0, hgk, hpath, hP⟩ := ih
      refine ⟨fun i => if i ≤ k then g i else b, k + 1, by omega, by simp [h0], by simp,
        fun i hi => ?_, fun i h1 h2 => ?_⟩
      · rcases Nat.lt_succ_iff_lt_or_eq.mp hi with hlt | rfl
        · simpa [hlt.le, Nat.succ_le_of_lt hlt] using hpath i hlt
        · simpa [hgk, Nat.not_succ_le_self] using hcb
      · rcases Nat.lt_succ_iff_lt_or_eq.mp h2 with hlt | rfl
        · simpa [hlt.le] using hP i h1 hlt
        · simpa [hgk] using hc
  · rintro ⟨g, k, hk, rfl, rfl, hpath, hP⟩
    induction k, hk using Nat.le_induction with
    | base => exact .edge (hpath 0 Nat.one_pos)
    | succ k hk ih =>
      refine .snoc (ih (fun i hi => hpath i (by omega)) fun i h1 h2 => hP i h1 (by omega)) ?_
        (hpath k (by omega))
      exact hP k hk (by omega)

/-! ### The greatest guarded subset -/

/-- The vertices of `I` to which no path leads that starts outside `I` and the cut and
goes through `I` off the cut. -/
def unreached (E : α → α → Prop) (cut I : Set α) : Set α :=
  {b | b ∈ I ∧ ∀ a, a ∉ I → a ∉ cut → ¬ Through E (fun c => c ∈ I ∧ c ∉ cut) a b}

theorem unreached_guarded (E : α → α → Prop) (cut I : Set α) :
    Guarded E cut (unreached E cut I) := by
  intro a b hab hb
  by_contra hno
  rw [not_or] at hno
  by_cases haI : a ∈ I
  · -- a path that leads to `a` goes on to `b`
    refine hno.1 ⟨haI, fun c hcI hccut hpath => ?_⟩
    exact hb.2 c hcI hccut (hpath.snoc ⟨haI, hno.2⟩ hab)
  · exact hb.2 a haI hno.2 (.edge hab)

/-- No path from outside ends in a guarded set. -/
theorem Guarded.notMem_of_through {E : α → α → Prop} {cut I S : Set α} (h : Guarded E cut S)
    (hSI : S ⊆ I) {a b : α} (haI : a ∉ I) (hacut : a ∉ cut)
    (hpath : Through E (fun c => c ∈ I ∧ c ∉ cut) a b) : b ∉ S := by
  induction hpath with
  | edge hab =>
    intro hb
    rcases h _ _ hab hb with hmem | hmem
    · exact haI (hSI hmem)
    · exact hacut hmem
  | snoc _ hc hcb ih =>
    intro hb
    rcases h _ _ hcb hb with hmem | hmem
    · exact ih hmem
    · exact hc.2 hmem

/-- The greatest guarded subset. -/
theorem unreached_isGreatest (E : α → α → Prop) (cut I : Set α) :
    IsGreatest {S | S ⊆ I ∧ Guarded E cut S} (unreached E cut I) := by
  refine ⟨⟨fun b hb => hb.1, unreached_guarded E cut I⟩, ?_⟩
  rintro S ⟨hSI, hS⟩ b hb
  exact ⟨hSI hb, fun a haI hacut hpath => hS.notMem_of_through hSI haI hacut hpath hb⟩

end CutGraph
