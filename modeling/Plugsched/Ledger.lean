/-
Ledgers of resources that are obtained and released.

A ledger is the list of what a program has obtained and released, in order.  `Holds`
says which resources are still to be released, and that none has ever been released
more often than it was obtained; a ledger that holds nothing is settled.

* `Holds.obtain`, `Holds.release` — one entry;
* `Holds.obtainAll`, `Holds.releaseAll` — a loop over a list of resources.
-/
import Mathlib.Data.List.Count
import Mathlib.Data.List.Basic

namespace Ledger

variable {ρ : Type*}

inductive Entry (ρ : Type*) where
  | obtained (r : ρ)
  | released (r : ρ)
  deriving DecidableEq

variable [DecidableEq ρ]

/-- The resources of the list are what the ledger still holds. -/
structure Holds (log : List (Entry ρ)) (held : List ρ) : Prop where
  never_ahead : ∀ pre, pre <+: log → ∀ r, pre.count (.released r) ≤ pre.count (.obtained r)
  balance : ∀ r, log.count (.obtained r) = log.count (.released r) + held.count r

/-- Everything obtained has been released as often, and nothing else. -/
def AllReleased (log : List (Entry ρ)) : Prop := Holds log []

variable {log : List (Entry ρ)} {held held' : List ρ} {r : ρ}

@[simp] theorem count_concat_obtained (log : List (Entry ρ)) (r s : ρ) :
    (log ++ [Entry.obtained r]).count (Entry.obtained s) =
      log.count (Entry.obtained s) + [r].count s := by
  simp [List.count_singleton]

@[simp] theorem count_concat_released (log : List (Entry ρ)) (r s : ρ) :
    (log ++ [Entry.released r]).count (Entry.released s) =
      log.count (Entry.released s) + [r].count s := by
  simp [List.count_singleton]

@[simp] theorem count_released_concat (log : List (Entry ρ)) (r s : ρ) :
    (log ++ [Entry.obtained r]).count (Entry.released s) = log.count (Entry.released s) := by
  simp

@[simp] theorem count_obtained_concat (log : List (Entry ρ)) (r s : ρ) :
    (log ++ [Entry.released r]).count (Entry.obtained s) = log.count (Entry.obtained s) := by
  simp

theorem count_cons_eq (r s : ρ) (held : List ρ) :
    (r :: held).count s = [r].count s + held.count s := by
  rw [← List.count_append, List.singleton_append]

theorem holds_nil : Holds ([] : List (Entry ρ)) [] where
  never_ahead := by
    intro pre hpre r
    rw [List.prefix_nil.mp hpre]
    exact Nat.le_refl 0
  balance := fun _ => rfl

theorem Holds.perm (h : Holds log held) (hp : held.Perm held') : Holds log held' where
  never_ahead := h.never_ahead
  balance := fun r => by rw [h.balance r, hp.count_eq r]

theorem Holds.obtain (h : Holds log held) (r : ρ) :
    Holds (log ++ [.obtained r]) (r :: held) where
  never_ahead := by
    intro pre hpre s
    rcases List.prefix_concat_iff.mp hpre with rfl | hpre
    · have hle := h.never_ahead log (List.prefix_refl log) s
      rw [count_released_concat, count_concat_obtained]
      exact Nat.le_trans hle (Nat.le_add_right _ _)
    · exact h.never_ahead pre hpre s
  balance := by
    intro s
    rw [count_concat_obtained, count_released_concat, count_cons_eq r s held, h.balance s]
    omega

theorem Holds.release (h : Holds log (r :: held)) : Holds (log ++ [.released r]) held := by
  have hbalance : ∀ s, (log ++ [Entry.released r]).count (Entry.obtained s) =
      (log ++ [Entry.released r]).count (Entry.released s) + held.count s := by
    intro s
    have hs := h.balance s
    rw [count_cons_eq r s held] at hs
    rw [count_obtained_concat, count_concat_released, hs, Nat.add_assoc]
  refine { never_ahead := fun pre hpre s => ?_, balance := hbalance }
  rcases List.prefix_concat_iff.mp hpre with rfl | hpre
  · rw [hbalance s]
    exact Nat.le_add_right _ _
  · exact h.never_ahead pre hpre s

theorem Holds.obtainAll (h : Holds log held) (rs : List ρ) :
    Holds (log ++ rs.map .obtained) (rs ++ held) := by
  induction rs generalizing log held with
  | nil => simpa using h
  | cons r rs ih =>
    have hrest := ih (h.obtain r)
    rw [List.append_assoc] at hrest
    exact hrest.perm List.perm_middle

theorem Holds.releaseAll {rs : List ρ} (h : Holds log (rs ++ held)) :
    Holds (log ++ rs.map .released) held := by
  induction rs generalizing log with
  | nil => simpa using h
  | cons r rs ih =>
    have hrest := ih h.release
    rwa [List.append_assoc] at hrest

end Ledger
