/-
Lists that are made of two others.

A shuffle has the elements of both in their orders; those of the second are changed by a
function on their way.  A loop over a shuffle, whose body does to a state of two parts what
two other bodies do to the parts, does what the loops over the parts do.

* `Shuffle.append`, `Shuffle.filter`, `Shuffle.erase_left`, `Shuffle.erase_right` — how
  shuffles are made, and what they are afterwards;
* `Shuffle.foldlM` — the rule for loops.
-/
import Plugsched.ExceptRules

open ExceptRules

namespace Shuffles

variable {α β : Type}

/-- `l` consists of the elements of `as` and of the values of `f` on those of `bs`. -/
inductive Shuffle (f : β → α) : List α → List β → List α → Prop where
  | nil : Shuffle f [] [] []
  | left {as : List α} {bs : List β} {l : List α} (a : α) (h : Shuffle f as bs l) :
    Shuffle f (a :: as) bs (a :: l)
  | right {as : List α} {bs : List β} {l : List α} (b : β) (h : Shuffle f as bs l) :
    Shuffle f as (b :: bs) (f b :: l)

namespace Shuffle

variable {f : β → α} {as as' l l' : List α} {bs bs' : List β}

theorem append (h : Shuffle f as bs l) (h' : Shuffle f as' bs' l') :
    Shuffle f (as ++ as') (bs ++ bs') (l ++ l') := by
  induction h with
  | nil => exact h'
  | left a _ ih => exact ih.left a
  | right b _ ih => exact ih.right b

theorem filter {p : α → Bool} {q : β → Bool} (hpq : ∀ b, p (f b) = q b) (h : Shuffle f as bs l) :
    Shuffle f (as.filter p) (bs.filter q) (l.filter p) := by
  induction h with
  | nil => exact nil
  | left a _ ih =>
    by_cases hp : p a = true
    · rw [List.filter_cons_of_pos hp, List.filter_cons_of_pos hp]
      exact ih.left a
    · rw [List.filter_cons_of_neg hp, List.filter_cons_of_neg hp]
      exact ih
  | right b _ ih =>
    by_cases hq : q b = true
    · rw [List.filter_cons_of_pos hq, List.filter_cons_of_pos (by rwa [hpq])]
      exact ih.right b
    · rw [List.filter_cons_of_neg hq, List.filter_cons_of_neg (by rwa [hpq])]
      exact ih

section Erase

variable [DecidableEq α]

theorem erase_left {a : α} (ha : ∀ b ∈ bs, f b ≠ a) (h : Shuffle f as bs l) :
    Shuffle f (as.erase a) bs (l.erase a) := by
  induction h with
  | nil => exact nil
  | @left as bs l a' h ih =>
    by_cases heq : a' = a
    · subst heq
      rw [List.erase_cons_head, List.erase_cons_head]
      exact h
    · have hne : ¬ (a' == a) = true := by simpa using heq
      rw [List.erase_cons_tail hne, List.erase_cons_tail hne]
      exact (ih ha).left a'
  | @right as bs l b h ih =>
    obtain ⟨hb, hbs⟩ := List.forall_mem_cons.mp ha
    have hne : ¬ (f b == a) = true := by simpa using hb
    rw [List.erase_cons_tail hne]
    exact (ih hbs).right b

theorem erase_right [DecidableEq β] (hf : Function.Injective f) {b : β} (hb : ∀ a ∈ as, a ≠ f b)
    (h : Shuffle f as bs l) : Shuffle f as (bs.erase b) (l.erase (f b)) := by
  induction h with
  | nil => exact nil
  | @left as bs l a h ih =>
    obtain ⟨ha, has⟩ := List.forall_mem_cons.mp hb
    have hne : ¬ (a == f b) = true := by simpa using ha
    rw [List.erase_cons_tail hne]
    exact (ih has).left a
  | @right as bs l b' h ih =>
    by_cases heq : b' = b
    · subst heq
      rw [List.erase_cons_head, List.erase_cons_head]
      exact h
    · have hne : ¬ (b' == b) = true := by simpa using heq
      have hne' : ¬ (f b' == f b) = true := by simpa using fun h => heq (hf h)
      rw [List.erase_cons_tail hne, List.erase_cons_tail hne']
      exact (ih hb).right b'

end Erase

/-- **The rule for loops.**  `R` tells how the state of the loop over the shuffle is made of
those of the loops over its parts. -/
theorem foldlM {ε σ τ υ : Type} {R : σ → τ → υ → Prop} {opA : σ → α → Except ε σ}
    {opB : τ → β → Except ε τ} {op : υ → α → Except ε υ} (h : Shuffle f as bs l)
    (hleft : ∀ a ∈ as, ∀ s s' t u, R s t u → opA s a = .ok s' →
      ∃ u', op u a = .ok u' ∧ R s' t u')
    (hright : ∀ b ∈ bs, ∀ s t t' u, R s t u → opB t b = .ok t' →
      ∃ u', op u (f b) = .ok u' ∧ R s t' u')
    {s s' : σ} {t t' : τ} {u : υ} (hs : as.foldlM opA s = .ok s') (ht : bs.foldlM opB t = .ok t')
    (hR : R s t u) : ∃ u', l.foldlM op u = .ok u' ∧ R s' t' u' := by
  induction h generalizing s t u with
  | nil =>
    obtain rfl := Except.ok.inj hs
    obtain rfl := Except.ok.inj ht
    exact ⟨u, rfl, hR⟩
  | left a _ ih =>
    obtain ⟨ha, has⟩ := List.forall_mem_cons.mp hleft
    obtain ⟨s₁, hfirst, hrest⟩ := foldlM_cons_ok hs
    obtain ⟨u₁, hop, hR₁⟩ := ha s s₁ t u hR hfirst
    obtain ⟨u', hloop, hR'⟩ := ih has hright hrest ht hR₁
    refine ⟨u', ?_, hR'⟩
    rw [List.foldlM_cons, hop]
    exact hloop
  | right b _ ih =>
    obtain ⟨hb, hbs⟩ := List.forall_mem_cons.mp hright
    obtain ⟨t₁, hfirst, hrest⟩ := foldlM_cons_ok ht
    obtain ⟨u₁, hop, hR₁⟩ := hb s t t₁ u hR hfirst
    obtain ⟨u', hloop, hR'⟩ := ih hleft hbs hs hrest hR₁
    refine ⟨u', ?_, hR'⟩
    rw [List.foldlM_cons, hop]
    exact hloop

end Shuffle

end Shuffles
