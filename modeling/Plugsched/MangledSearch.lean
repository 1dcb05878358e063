/-
When `check_redirect_mangled` comes to an end.

The walk over the callers of a cloned function keeps no record of the functions it
has passed, so it may run round a cycle of calls for ever.

* `checkRedirectMangled_eq_search` — the walk as an instance of the general search;
* `found_mangled_iff` — what it looks for are chains from a `sched_outsider`;
* `checkRedirectMangled_iff` — it answers rightly exactly off the cycles it enters.
-/
import Plugsched.MangledCheck
import Plugsched.PlainSearch

open CutGraph ExceptRules PlainSearch Relation

namespace Plugsched

/-- What the loop body does with an edge. -/
def mangledStep (fc : FuncClass) (f : Signature) (edge : LinkedEdge) : Step Signature :=
  match edge.toSym with
  | none => .skip
  | some toSym =>
    if toSym ≠ f ∨ toSym.2 ≠ edge.fromSym.2 then .skip
    else if edge.fromSym ∈ fc.schedOutsider then .hit
    else if fc.Optimized edge.fromSym then .enter edge.fromSym
    else .skip

/-- The loop of `check_redirect_mangled` as a list of steps. -/
def mangledSteps (fc : FuncClass) (edges : List LinkedEdge) (f : Signature) :
    List (Step Signature) :=
  edges.map (mangledStep fc f)

/-- A chain of calls inside the file leads from a `sched_outsider` to `f`, through
cloned or absent functions. -/
def CalledByOutsider (fc : FuncClass) (edges : List LinkedEdge) (f : Signature) : Prop :=
  ∃ g ∈ fc.schedOutsider, Through (SameFileCall edges) fc.Optimized g f

/-- The walk goes on from `f` to its caller `g`: the callers that are listed in front
are no `sched_outsider`s, nor do chains from one lead to them. -/
def FollowsCaller (fc : FuncClass) (edges : List LinkedEdge) (f g : Signature) : Prop :=
  ∃ front edge rest, edges = front ++ edge :: rest ∧ SameFileCall [edge] g f ∧
    g ∉ fc.schedOutsider ∧ fc.Optimized g ∧ ∀ a, SameFileCall front a f →
      a ∉ fc.schedOutsider ∧ (fc.Optimized a → ¬ CalledByOutsider fc edges a)

section Search

variable {fc : FuncClass} {edges : List LinkedEdge} {f g : Signature}

theorem checkRedirectMangled_eq_search (depth : ℕ) (f : Signature) :
    checkRedirectMangled fc edges depth f =
      search .recursion (mangledSteps fc edges) depth f := by
  induction depth generalizing f with
  | zero => rfl
  | succ depth ih =>
    rw [checkRedirectMangled, search_succ, mangledSteps, anyM_map]
    congr 1
    funext edge
    rw [Function.comp_apply, mangledStep]
    cases edge.toSym with
    | none => rfl
    | some toSym =>
      dsimp only
      split
      · rfl
      · split
        · rfl
        · split
          · exact ih _
          · rfl

theorem sameFileCall_singleton {edge : LinkedEdge} :
    SameFileCall [edge] g f ↔ g.2 = f.2 ∧ edge.fromSym = g ∧ edge.toSym = some f := by
  simp [SameFileCall]

theorem sameFileCall_iff : SameFileCall edges g f ↔ ∃ edge ∈ edges, SameFileCall [edge] g f := by
  rw [SameFileCall]
  simp only [sameFileCall_singleton]
  constructor
  · rintro ⟨hfile, edge, hedge, hfrom, hto⟩
    exact ⟨edge, hedge, hfile, hfrom, hto⟩
  · rintro ⟨edge, hedge, hfile, hfrom, hto⟩
    exact ⟨hfile, edge, hedge, hfrom, hto⟩

/-- The step of an edge that is a call of `f` inside the file. -/
theorem mangledStep_of_call {edge : LinkedEdge} (h : SameFileCall [edge] g f) :
    mangledStep fc f edge = if g ∈ fc.schedOutsider then .hit
      else if fc.Optimized g then .enter g else .skip := by
  obtain ⟨hfile, rfl, hto⟩ := sameFileCall_singleton.mp h
  rw [mangledStep, hto]
  dsimp only
  rw [if_neg (by simp [hfile])]

theorem mangledStep_cases (fc : FuncClass) (f : Signature) (edge : LinkedEdge) :
    mangledStep fc f edge = .skip ∨ SameFileCall [edge] edge.fromSym f := by
  rw [mangledStep, sameFileCall_singleton]
  split
  · exact .inl rfl
  · next toSym hto =>
    split
    · exact .inl rfl
    · next hcall =>
      push Not at hcall
      obtain ⟨rfl, hfile⟩ := hcall
      exact .inr ⟨hfile.symm, rfl, hto⟩

theorem hit_mem_iff : .hit ∈ mangledSteps fc edges f ↔
    ∃ g, SameFileCall edges g f ∧ g ∈ fc.schedOutsider := by
  rw [mangledSteps, List.mem_map]
  constructor
  · rintro ⟨edge, hedge, hstep⟩
    rcases mangledStep_cases fc f edge with hskip | hcall
    · rw [hskip] at hstep
      cases hstep
    · refine ⟨edge.fromSym, sameFileCall_iff.mpr ⟨edge, hedge, hcall⟩, ?_⟩
      by_contra hout
      rw [mangledStep_of_call hcall, if_neg hout] at hstep
      split at hstep <;> cases hstep
  · rintro ⟨g, hcall, hout⟩
    obtain ⟨edge, hedge, hcall⟩ := sameFileCall_iff.mp hcall
    exact ⟨edge, hedge, by rw [mangledStep_of_call hcall, if_pos hout]⟩

theorem mangledStep_eq_enter {edge : LinkedEdge} : mangledStep fc f edge = .enter g ↔
    SameFileCall [edge] g f ∧ g ∉ fc.schedOutsider ∧ fc.Optimized g := by
  constructor
  · intro hstep
    rcases mangledStep_cases fc f edge with hskip | hcall
    · rw [hskip] at hstep
      cases hstep
    · rw [mangledStep_of_call hcall] at hstep
      split at hstep
      · cases hstep
      · next hout =>
        split at hstep
        · next hopt =>
          cases hstep
          exact ⟨hcall, hout, hopt⟩
        · cases hstep
  · rintro ⟨hcall, hout, hopt⟩
    rw [mangledStep_of_call hcall, if_neg hout, if_pos hopt]

/-- The walk looks for a chain from a `sched_outsider`. -/
theorem found_mangled_iff :
    Found (mangledSteps fc edges) f ↔ CalledByOutsider fc edges f := by
  constructor
  · intro h
    induction h with
    | hit hmem =>
      obtain ⟨g, hcall, hout⟩ := hit_mem_iff.mp hmem
      exact ⟨g, hout, .edge hcall⟩
    | enter hmem _ ih =>
      obtain ⟨edge, hedge, hstep⟩ := List.mem_map.mp hmem
      obtain ⟨hcall, -, hopt⟩ := mangledStep_eq_enter.mp hstep
      obtain ⟨g, hout, hchain⟩ := ih
      exact ⟨g, hout, hchain.snoc hopt (sameFileCall_iff.mpr ⟨edge, hedge, hcall⟩)⟩
  · rintro ⟨g, hout, hchain⟩
    induction hchain with
    | edge hcall => exact .hit (hit_mem_iff.mpr ⟨g, hcall, hout⟩)
    | @snoc c b _ hopt hcall ih =>
      by_cases hc : c ∈ fc.schedOutsider
      · exact .hit (hit_mem_iff.mpr ⟨c, hcall, hc⟩)
      · obtain ⟨edge, hedge, hcall⟩ := sameFileCall_iff.mp hcall
        exact .enter (List.mem_map.mpr ⟨edge, hedge, mangledStep_eq_enter.mpr ⟨hcall, hc, hopt⟩⟩) ih

theorem fails_mangledStep_iff {edge : LinkedEdge} :
    (mangledStep fc f edge).Fails (mangledSteps fc edges) ↔
      ∀ a, SameFileCall [edge] a f →
        a ∉ fc.schedOutsider ∧ (fc.Optimized a → ¬ CalledByOutsider fc edges a) := by
  constructor
  · intro h a hcall
    rw [mangledStep_of_call hcall] at h
    split at h
    · exact absurd h not_false
    · next hout =>
      refine ⟨hout, fun hopt => ?_⟩
      rw [if_pos hopt] at h
      exact mt found_mangled_iff.mpr h
  · intro h
    rcases mangledStep_cases fc f edge with hskip | hcall
    · rw [hskip]
      trivial
    · obtain ⟨hout, hchain⟩ := h _ hcall
      rw [mangledStep_of_call hcall, if_neg hout]
      split
      · next hopt => exact mt found_mangled_iff.mp (hchain hopt)
      · trivial

theorem enters_mangled_iff :
    Enters (mangledSteps fc edges) f g ↔ FollowsCaller fc edges f g := by
  constructor
  · rintro ⟨front', rest', hsteps, hfront⟩
    obtain ⟨front, tail, rfl, rfl, htail⟩ := List.map_eq_append_iff.mp hsteps
    obtain ⟨edge, rest, rfl, hstep, -⟩ := List.map_eq_cons_iff.mp htail
    obtain ⟨hcall, hout, hopt⟩ := mangledStep_eq_enter.mp hstep
    refine ⟨front, edge, rest, rfl, hcall, hout, hopt, fun a ha => ?_⟩
    obtain ⟨edge', hedge', hcall'⟩ := sameFileCall_iff.mp ha
    exact fails_mangledStep_iff.mp (hfront _ (List.mem_map_of_mem hedge')) a hcall'
  · rintro ⟨front, edge, rest, rfl, hcall, hout, hopt, hfront⟩
    refine ⟨front.map (mangledStep fc f), rest.map (mangledStep fc f), ?_, fun step hstep => ?_⟩
    · rw [mangledSteps, List.map_append, List.map_cons,
        mangledStep_eq_enter.mpr ⟨hcall, hout, hopt⟩]
    · obtain ⟨edge', hedge', rfl⟩ := List.mem_map.mp hstep
      exact fails_mangledStep_iff.mpr fun a ha =>
        hfront a (sameFileCall_iff.mpr ⟨edge', hedge', ha⟩)

/-- The walk stays among the callers that the metadata lists. -/
theorem finite_follows (fc : FuncClass) (edges : List LinkedEdge) (f : Signature) :
    {g | ReflTransGen (FollowsCaller fc edges) f g}.Finite := by
  refine (insert f (edges.map LinkedEdge.fromSym).toFinset).finite_toSet.subset fun g hg => ?_
  rw [Finset.mem_coe, Finset.mem_insert, List.mem_toFinset]
  rcases ReflTransGen.cases_tail hg with rfl | ⟨c, -, front, edge, rest, rfl, hcall, -⟩
  · exact .inl rfl
  · right
    rw [List.map_append, List.map_cons, ← (sameFileCall_singleton.mp hcall).2.1]
    exact List.mem_append_right _ List.mem_cons_self

end Search

/-- **When the check of a clone ends.**  `check_redirect_mangled` returns, with the
right answer, exactly if the walk from `f` enters no cycle. -/
theorem checkRedirectMangled_iff (fc : FuncClass) (edges : List LinkedEdge) (f : Signature) :
    (∃ depth, ∀ limit ≥ depth, ∃ r, checkRedirectMangled fc edges limit f = .ok r ∧
        (r = true ↔ CalledByOutsider fc edges f)) ↔
      ¬ ∃ g, ReflTransGen (FollowsCaller fc edges) f g ∧
        TransGen (FollowsCaller fc edges) g g := by
  rw [← acc_iff_no_cycle (finite_follows fc edges f)]
  simp only [← enters_mangled_iff, ← exists_search_iff_acc Failure.recursion,
    checkRedirectMangled_eq_search]
  constructor
  · rintro ⟨depth, h⟩
    obtain ⟨r, hr, -⟩ := h depth le_rfl
    exact ⟨depth, r, hr⟩
  · rintro ⟨depth, r, h⟩
    refine ⟨depth, fun limit hlimit => ⟨r, search_mono hlimit h, ?_⟩⟩
    rw [search_eq_ok h, found_mangled_iff]

/-- The interface `tg_charge` calls itself. -/
def recursiveMetas : List Meta :=
  [ { path := "kernel/sched/core.c.boundary"
      fn := [plainFn "tg_charge" "kernel/sched/core.c"]
      edge := [⟨("tg_charge", "kernel/sched/core.c"), ("tg_charge", "kernel/sched/core.c")⟩]
      callback := []
      interface := [("tg_charge", "kernel/sched/core.c")] } ]

/-- `tg_charge` has a clone. -/
def recursiveLines : List (List String) :=
  [[], [], [], elfRow "FILE" "LOCAL" "core.c", elfRow "FUNC" "LOCAL" "tg_charge.constprop.0",
    elfRow "FUNC" "GLOBAL" "tg_charge"]

def recursiveClass : FuncClass :=
  ((analyze smallConfig 1000 recursiveMetas recursiveLines).toOption).getD smallClass

/-- The check of the recursive function does not end, whatever the recursion limit. -/
theorem recursive_clone_unchecked :
    analyze smallConfig 1000 recursiveMetas recursiveLines = .ok recursiveClass ∧
      ("tg_charge", "kernel/sched/core.c") ∈ recursiveClass.redirectedClones ∧
      ∃ edges, metaOf (collected smallConfig recursiveMetas) ("tg_charge", "kernel/sched/core.c") =
          .ok edges ∧
        ∀ limit, checkRedirectMangled recursiveClass edges limit
          ("tg_charge", "kernel/sched/core.c") = .error .recursion := by
  have hout : ("tg_charge", "kernel/sched/core.c") ∉ recursiveClass.schedOutsider := by decide
  have hopt : recursiveClass.Optimized ("tg_charge", "kernel/sched/core.c") := by decide
  refine ⟨rfl, by decide, [⟨("tg_charge", "kernel/sched/core.c"),
    some ("tg_charge", "kernel/sched/core.c")⟩], rfl, fun limit => ?_⟩
  induction limit with
  | zero => rfl
  | succ limit ih =>
    rw [checkRedirectMangled, List.anyM]
    dsimp only
    rw [if_neg (by simp), if_neg hout, if_pos hopt, ih]
    rfl

end Plugsched
