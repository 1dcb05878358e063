/-
A search by plain recursion, without a visited set.

Each vertex has a list of steps: one ends the search with success, one is passed
over, one enters another vertex.  On a cycle the search may run forever.

* `search_eq_ok` — an answer is right: `Found` is what the search looks for;
* `exists_search_iff_acc` — it answers exactly where `Enters` is well founded;
* `acc_iff_no_cycle` — on a finite graph, where it enters no cycle.
-/
import Mathlib.Data.Set.Finite.Basic
import Mathlib.Logic.Relation
import Mathlib.Order.WellFounded
import Plugsched.ExceptRules

open ExceptRules Relation

namespace PlainSearch

variable {α ε : Type}

/-- What the search does at a step. -/
inductive Step (α : Type) where
  | hit
  | skip
  | enter (b : α)

/-- The search from `a`, with `depth` frames left on the stack. -/
def search (overflow : ε) (steps : α → List (Step α)) : ℕ → α → Except ε Bool
  | 0, _ => .error overflow
  | depth + 1, a =>
    (steps a).anyM fun step =>
      match step with
      | .hit => .ok true
      | .skip => .ok false
      | .enter b => search overflow steps depth b

/-- A successful step can be reached. -/
inductive Found (steps : α → List (Step α)) : α → Prop where
  | hit {a : α} : .hit ∈ steps a → Found steps a
  | enter {a b : α} : .enter b ∈ steps a → Found steps b → Found steps a

/-- Neither successful nor the entry to a successful vertex. -/
def Step.Fails (steps : α → List (Step α)) : Step α → Prop
  | .hit => False
  | .skip => True
  | .enter b => ¬ Found steps b

/-- The search from `a` enters `b`: the steps in front fail. -/
def Enters (steps : α → List (Step α)) (a b : α) : Prop :=
  ∃ front rest, steps a = front ++ .enter b :: rest ∧ ∀ step ∈ front, step.Fails steps

variable {overflow : ε} {steps : α → List (Step α)}

theorem found_iff {a : α} : Found steps a ↔ ∃ step ∈ steps a, ¬ step.Fails steps := by
  constructor
  · intro h
    cases h with
    | hit hmem => exact ⟨.hit, hmem, not_false⟩
    | enter hmem hb => exact ⟨.enter _, hmem, not_not.mpr hb⟩
  · rintro ⟨step, hmem, hstep⟩
    cases step with
    | hit => exact .hit hmem
    | skip => exact absurd trivial hstep
    | enter b => exact .enter hmem (not_not.mp hstep)

/-! ### An answer is right -/

/-- What the search answers at a step. -/
def Step.answer (overflow : ε) (steps : α → List (Step α)) (depth : ℕ) : Step α → Except ε Bool
  | .hit => .ok true
  | .skip => .ok false
  | .enter b => search overflow steps depth b

theorem search_succ (depth : ℕ) (a : α) : search overflow steps (depth + 1) a =
    (steps a).anyM (Step.answer overflow steps depth) := by
  rw [search]
  congr 1

theorem search_eq_ok {depth : ℕ} {a : α} {r : Bool}
    (h : search overflow steps depth a = .ok r) : r = true ↔ Found steps a := by
  induction depth generalizing a r with
  | zero => cases h
  | succ depth ih =>
    have hanswer : ∀ (step : Step α) (s : Bool), step.answer overflow steps depth = .ok s →
        (s = true ↔ ¬ step.Fails steps) := by
      intro step s hs
      cases step with
      | hit =>
        cases hs
        exact iff_of_true rfl not_false
      | skip =>
        cases hs
        exact iff_of_false Bool.false_ne_true (not_not.mpr trivial)
      | enter b => exact (ih hs).trans not_not.symm
    rw [search_succ] at h
    rw [found_iff]
    cases r with
    | true =>
      obtain ⟨step, hmem, hstep⟩ := anyM_eq_true h
      exact iff_of_true rfl ⟨step, hmem, (hanswer step true hstep).mp rfl⟩
    | false =>
      refine iff_of_false Bool.false_ne_true ?_
      rintro ⟨step, hmem, hno⟩
      have hstep := anyM_eq_false h step hmem
      exact Bool.false_ne_true ((hanswer step false hstep).mpr hno)

/-- More stack does not change an answer. -/
theorem search_mono {depth depth' : ℕ} (hle : depth ≤ depth') {a : α} {r : Bool}
    (h : search overflow steps depth a = .ok r) : search overflow steps depth' a = .ok r := by
  induction depth generalizing depth' a r with
  | zero => cases h
  | succ depth ih =>
    obtain ⟨depth', rfl⟩ : ∃ k, depth' = k + 1 := ⟨depth' - 1, by omega⟩
    rw [search_succ] at h ⊢
    refine anyM_mono h fun step _ s hs => ?_
    cases step with
    | hit => exact hs
    | skip => exact hs
    | enter b => exact ih (by omega) hs

theorem Step.answer_mono {depth depth' : ℕ} (hle : depth ≤ depth') {step : Step α} {r : Bool}
    (h : step.answer overflow steps depth = .ok r) :
    step.answer overflow steps depth' = .ok r := by
  cases step with
  | hit => exact h
  | skip => exact h
  | enter b => exact search_mono hle h

/-! ### When there is an answer -/

/-- Where the search answers, no sequence of entered vertices is infinite. -/
theorem acc_of_search {depth : ℕ} {a : α} {r : Bool}
    (h : search overflow steps depth a = .ok r) : Acc (fun b a => Enters steps a b) a := by
  induction depth generalizing a r with
  | zero => cases h
  | succ depth ih =>
    refine .intro a fun b hab => ?_
    obtain ⟨front, rest, hsteps, hfront⟩ := hab
    rw [search_succ, hsteps] at h
    rcases anyM_append_ok h with ⟨step, hmem, hstep⟩ | ⟨s, hs⟩
    · -- no step in front of the entry succeeds
      exfalso
      have hfails := hfront step hmem
      cases step with
      | hit => exact hfails
      | skip => cases hstep
      | enter c => exact hfails ((search_eq_ok hstep).mp rfl)
    · exact ih hs

/-- The rest of the steps of a vertex is searched to the end. -/
theorem exists_anyM_of_enters {a : α} {front rest : List (Step α)}
    (hsteps : steps a = front ++ rest) (hfront : ∀ step ∈ front, step.Fails steps)
    (hb : ∀ b, Enters steps a b → ∃ depth r, search overflow steps depth b = .ok r) :
    ∃ depth r, rest.anyM (Step.answer overflow steps depth) = .ok r := by
  induction rest generalizing front with
  | nil => exact ⟨0, false, rfl⟩
  | cons step rest ih =>
    have happend : steps a = (front ++ [step]) ++ rest := by simp [hsteps]
    by_cases hfails : step.Fails steps
    · obtain ⟨depth, r, hrest⟩ := ih happend (List.forall_mem_append.mpr
        ⟨hfront, List.forall_mem_singleton.mpr hfails⟩)
      have hstep : ∃ depth, step.answer overflow steps depth = .ok false := by
        cases step with
        | hit => exact absurd hfails not_false
        | skip => exact ⟨0, rfl⟩
        | enter b =>
          obtain ⟨depth, s, hs⟩ := hb b ⟨front, rest, hsteps, hfront⟩
          cases s with
          | true => exact absurd ((search_eq_ok hs).mp rfl) hfails
          | false => exact ⟨depth, hs⟩
      obtain ⟨depth', hstep⟩ := hstep
      refine ⟨max depth depth', r, ?_⟩
      rw [List.anyM, step.answer_mono (le_max_right depth depth') hstep]
      exact anyM_mono hrest fun _ _ _ => Step.answer_mono (le_max_left depth depth')
    · -- the search ends here
      have hstep : ∃ depth, step.answer overflow steps depth = .ok true := by
        cases step with
        | hit => exact ⟨0, rfl⟩
        | skip => exact absurd trivial hfails
        | enter b =>
          obtain ⟨depth, s, hs⟩ := hb b ⟨front, rest, hsteps, hfront⟩
          have htrue : s = true := (search_eq_ok hs).mpr (not_not.mp hfails)
          exact ⟨depth, htrue ▸ hs⟩
      obtain ⟨depth, hstep⟩ := hstep
      refine ⟨depth, true, ?_⟩
      rw [List.anyM, hstep]
      rfl

/-- The search answers exactly where it enters no infinite sequence of vertices. -/
theorem exists_search_iff_acc (overflow : ε) {a : α} :
    (∃ depth r, search overflow steps depth a = .ok r) ↔ Acc (fun b a => Enters steps a b) a := by
  constructor
  · rintro ⟨depth, r, h⟩
    exact acc_of_search h
  · intro h
    induction h with
    | intro a _ ih =>
      obtain ⟨depth, r, h⟩ := exists_anyM_of_enters (List.nil_append (steps a)).symm (by simp) ih
      exact ⟨depth + 1, r, by rw [search_succ]; exact h⟩

/-- A relation is well founded at `a` if no cycle can be reached, provided that only
finitely many vertices can. -/
theorem acc_iff_no_cycle {r : α → α → Prop} {a : α} (hfin : {b | ReflTransGen r a b}.Finite) :
    Acc (fun b a => r a b) a ↔ ¬ ∃ b, ReflTransGen r a b ∧ TransGen r b b := by
  constructor
  · rintro h ⟨b, hab, hbb⟩
    have hb : Acc (fun b a => r a b) b := by
      clear hbb
      induction hab with
      | refl => exact h
      | tail _ hbc ih => exact ih.inv hbc
    clear hab
    induction hb with
    | intro b _ ih =>
      -- the cycle also leads from the next vertex to itself
      obtain ⟨c, hbc, hcb⟩ := TransGen.head'_iff.mp hbb
      exact ih c hbc (TransGen.tail' hcb hbc)
  · intro h
    have hwf : WellFounded fun x y : {b | ReflTransGen r a b} => TransGen r y.1 x.1 := by
      have htrans : IsTrans {b | ReflTransGen r a b} fun x y => TransGen r y.1 x.1 :=
        ⟨fun x y z hxy hyz => hyz.trans hxy⟩
      have hirrefl : Std.Irrefl fun x y : {b | ReflTransGen r a b} => TransGen r y.1 x.1 :=
        ⟨fun x hx => h ⟨x.1, x.2, hx⟩⟩
      have := hfin.to_subtype
      exact Finite.wellFounded_of_trans_of_irrefl _
    suffices hall : ∀ x : {b | ReflTransGen r a b}, Acc (fun b a => r a b) x.1 from hall ⟨a, .refl⟩
    intro x
    induction x using hwf.induction with
    | _ x ih => exact .intro x.1 fun y hxy => ih ⟨y, x.2.tail hxy⟩ (.single hxy)

end PlainSearch
