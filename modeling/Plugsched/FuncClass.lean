/-
`func_class_arithmetics`: which functions stay in the kernel, which move to
the module, and which are redirected.

`border` and `sidecar` functions are redirected, `insider` functions live in
the module only, `sched_outsider` functions are taken from the kernel.  An
insider may only be called by insiders and by functions of the cut
`border | init | sidecar`; `inflect` removes the others.

* `inflect_greatest` — what is left is the greatest set that can only be entered
  through the cut;
* `insider_entered_through_cut` — a call chain reaches an insider from outside
  only through a border, sidecar or init function;
* `border_insider_outsider` — the three classes cover the module, and on which inputs
  they partition it.
-/
import Mathlib.Data.Set.Finite.Basic
import Plugsched.CutGraph
import Plugsched.Vmlinux

open CutGraph ExceptRules

namespace Plugsched

/-! ### Inflection -/

/-- `inflect_one`: the callee of the edge, if it has to be removed. -/
def inflectOne (inflectCut insiders : Finset Signature) (edge : Signature × Signature) :
    Option Signature :=
  if edge.2 ∈ insiders ∧ edge.1 ∉ insiders ∪ inflectCut then some edge.2 else none

/-- `inflect`: the loop ends when `delete_insider` is empty. -/
def inflect (inflectCut initialInsiders : Finset Signature)
    (edges : List (Signature × Signature)) : Finset Signature :=
  prune (fun insiders => edges.filterMap (inflectOne inflectCut insiders)) initialInsiders

section Inflect

variable {inflectCut initialInsiders : Finset Signature}
  {edges : List (Signature × Signature)}

theorem inflectOne_eq_some {insiders : Finset Signature} {edge : Signature × Signature}
    {sym : Signature} : inflectOne inflectCut insiders edge = some sym ↔
      edge.2 = sym ∧ sym ∈ insiders ∧ edge.1 ∉ insiders ∧ edge.1 ∉ inflectCut := by
  rw [inflectOne]
  constructor
  · intro h
    split at h
    · next hcond =>
      cases h
      rw [Finset.mem_union, not_or] at hcond
      exact ⟨rfl, hcond.1, hcond.2⟩
    · cases h
  · rintro ⟨rfl, hmem, hin, hcut⟩
    rw [if_pos ⟨hmem, by simp [hin, hcut]⟩]

theorem inflect_subset : inflect inflectCut initialInsiders edges ⊆ initialInsiders :=
  prune_subset _

/-- A round only removes insiders. -/
theorem mem_of_mem_deleteInsider {insiders : Finset Signature} {sym : Signature}
    (hsym : sym ∈ edges.filterMap (inflectOne inflectCut insiders)) : sym ∈ insiders := by
  obtain ⟨edge, -, hedge⟩ := List.mem_filterMap.mp hsym
  exact (inflectOne_eq_some.mp hedge).2.1

/-- What `inflect` returns is entered only through the cut. -/
theorem inflect_guarded : Guarded (fun a b => (a, b) ∈ edges) ↑inflectCut
    (↑(inflect inflectCut initialInsiders edges) : Set Signature) := by
  intro a b hab hb
  by_contra hno
  rw [not_or, Finset.mem_coe, Finset.mem_coe] at hno
  -- the edge from `a` would make the last round remove `b`
  have hdrop : ∀ insiders : Finset Signature,
      ∀ sym ∈ edges.filterMap (inflectOne inflectCut insiders), sym ∈ insiders :=
    fun _ _ => mem_of_mem_deleteInsider
  have hstable := prune_stable hdrop initialInsiders
  refine List.eq_nil_iff_forall_not_mem.mp hstable b (List.mem_filterMap.mpr ⟨(a, b), hab, ?_⟩)
  exact inflectOne_eq_some.mpr ⟨rfl, hb, hno⟩

/-- A guarded set of initial insiders survives every round. -/
theorem subset_inflect {S : Finset Signature} (hS : S ⊆ initialInsiders)
    (hguard : Guarded (fun a b => (a, b) ∈ edges) ↑inflectCut (↑S : Set Signature)) :
    S ⊆ inflect inflectCut initialInsiders edges := by
  refine subset_prune (fun insiders hsub sym hsym hmem => ?_) hS
  obtain ⟨⟨a, b⟩, hedge, hone⟩ := List.mem_filterMap.mp hsym
  obtain ⟨rfl, -, hin, hcut⟩ := inflectOne_eq_some.mp hone
  rcases hguard a b hedge hmem with ha | ha
  · exact hin (hsub ha)
  · exact hcut ha

/-- `inflect` as a set: the functions that no caller chain from outside reaches. -/
theorem coe_inflect : (↑(inflect inflectCut initialInsiders edges) : Set Signature) =
    unreached (fun a b => (a, b) ∈ edges) ↑inflectCut ↑initialInsiders := by
  have hgreatest := unreached_isGreatest (fun a b => (a, b) ∈ edges)
    (↑inflectCut : Set Signature) (↑initialInsiders : Set Signature)
  refine Set.Subset.antisymm ?_ ?_
  · exact hgreatest.2 ⟨Finset.coe_subset.mpr inflect_subset, inflect_guarded⟩
  · -- the set is finite, so it is among the guarded sets above
    have hfin : (unreached (fun a b => (a, b) ∈ edges) (↑inflectCut : Set Signature)
        ↑initialInsiders).Finite := initialInsiders.finite_toSet.subset hgreatest.1.1
    obtain ⟨S, hS⟩ := hfin.exists_finset_coe
    rw [← hS] at hgreatest ⊢
    exact Finset.coe_subset.mpr (subset_inflect (Finset.coe_subset.mp hgreatest.1.1)
      hgreatest.1.2)

/-- The `while True` loop of `inflect`, for `fuel` rounds at most. -/
def inflectLoop (inflectCut : Finset Signature) (edges : List (Signature × Signature))
    (fuel : ℕ) (insiders : Finset Signature) : Option (Finset Signature) :=
  pruneLoop (fun insiders => edges.filterMap (inflectOne inflectCut insiders)) fuel insiders

/-- **What `inflect` computes.**  The loop ends; it leaves the greatest set of initial
insiders that is entered only from itself and from the cut.  A function is removed
exactly if a caller chain from outside leads to it through initial insiders off the
cut, and the edges matter as a set only. -/
theorem inflect_greatest (inflectCut initialInsiders : Finset Signature)
    (edges : List (Signature × Signature)) :
    (∃ rounds, ∀ fuel ≥ rounds, inflectLoop inflectCut edges fuel initialInsiders =
      some (inflect inflectCut initialInsiders edges)) ∧
    IsGreatest {S : Finset Signature | S ⊆ initialInsiders ∧
        Guarded (fun a b => (a, b) ∈ edges) ↑inflectCut (↑S : Set Signature)}
      (inflect inflectCut initialInsiders edges) ∧
    (∀ f ∈ initialInsiders, f ∉ inflect inflectCut initialInsiders edges ↔
      ∃ a, a ∉ initialInsiders ∧ a ∉ inflectCut ∧
        Through (fun a b => (a, b) ∈ edges) (fun c => c ∈ initialInsiders ∧ c ∉ inflectCut) a f) ∧
    ∀ edges' : List (Signature × Signature), (∀ e, e ∈ edges' ↔ e ∈ edges) →
      inflect inflectCut initialInsiders edges' = inflect inflectCut initialInsiders edges := by
  refine ⟨⟨initialInsiders.card + 1, fun fuel hfuel => ?_⟩,
    ⟨⟨inflect_subset, inflect_guarded⟩, fun S hS => subset_inflect hS.1 hS.2⟩,
    fun f hf => ?_, fun edges' hsame => ?_⟩
  · exact pruneLoop_eq_some (fun _ _ => mem_of_mem_deleteInsider) hfuel
  · have hmem : f ∈ inflect inflectCut initialInsiders edges ↔
        f ∈ unreached (fun a b => (a, b) ∈ edges) ↑inflectCut ↑initialInsiders := by
      rw [← coe_inflect, Finset.mem_coe]
    rw [hmem]
    constructor
    · intro hno
      by_contra hnochain
      push Not at hnochain
      exact hno ⟨hf, hnochain⟩
    · rintro ⟨a, haI, hacut, hchain⟩ hun
      exact hun.2 a haI hacut hchain
  · refine Finset.coe_injective ?_
    rw [coe_inflect, coe_inflect]
    simp only [hsame]

end Inflect

/-! ### Sidecars -/

/-- `__sidecar_dfs`, with `depth` frames left on the Python stack. -/
def sidecarDfs (edges : List LinkedEdge) (inVmlinux : Finset Signature) :
    ℕ → Signature → Finset Signature → Except Failure (Finset Signature)
  | 0, _, _ => .error .recursion
  | depth + 1, startSym, leftover =>
    if startSym ∈ leftover then .ok leftover
    else
      edges.foldlM (fun leftover edge =>
        match edge.toSym with
        | none => .ok leftover
        | some toSym =>
          if edge.fromSym = startSym ∧ toSym.2 = startSym.2 ∧ toSym ∉ inVmlinux then
            sidecarDfs edges inVmlinux depth toSym leftover
          else .ok leftover)
        (insert startSym leftover)

/-- `metas_by_name[sym[1] + '.boundary']`. -/
def metaOf (col : Collected) (sym : Signature) : Except Failure (List LinkedEdge) :=
  match col.metasByName (sym.2 ++ ".boundary") with
  | some edges => .ok edges
  | none => .error (.keyError (sym.2 ++ ".boundary"))

/-- `sidecar_inflect`, with the set of sidecar functions in iteration order. -/
def sidecarInflect (limit : ℕ) (col : Collected) (sidecar : List Signature)
    (inVmlinux : Finset Signature) : Except Failure (Finset Signature) :=
  if sidecar.toFinset \ inVmlinux = ∅ then
    sidecar.foldlM (fun leftover sym => do
      let edges ← metaOf col sym
      sidecarDfs edges inVmlinux limit sym leftover) ∅
  else .error (.assertion "sidecar functions should not be optimzied by GCC")

/-! ### The classes -/

/-- `func_class` after `func_class_arithmetics`. -/
structure FuncClass extends FirstPass, VmlinuxInfo where
  callback : Finset Signature
  cbOpt : Finset Signature
  border : Finset Signature
  initialInsider : Finset Signature
  sidecar : Finset Signature
  sdcrLeft : Finset Signature
  sdcrOut : Finset Signature
  inflectCut : Finset Signature
  insider : Finset Signature
  schedOutsider : Finset Signature
  outsiderOpt : Finset Signature
  publicUser : Finset Signature
  tainted : Finset Signature
  und : Finset Signature

/-- The set operations of `func_class_arithmetics`, in source order. -/
def funcClass (config : Config) (col : Collected) (info : VmlinuxInfo)
    (sdcrLeft : Finset Signature) : FuncClass :=
  let callback := col.callback \ col.interface
  let cbOpt := callback \ info.inVmlinux
  let callback := callback \ cbOpt
  let border := col.interface ∪ callback
  let initialInsider := (col.modFns \ border) \ info.exportFunc
  let sidecar := config.sidecar.toFinset
  let inflectCut := border ∪ col.init ∪ sidecar
  let insider := (inflect inflectCut initialInsider col.edges \ col.init) \ col.fakeGlobal
  let schedOutsider := ((col.modFns \ insider) \ border) ∪ cbOpt ∪ col.fakeGlobal ∩ col.modFns
  let outsiderOpt := (schedOutsider \ info.inVmlinux) \ col.init
  { col.toFirstPass, info with
    callback, cbOpt, border, initialInsider, sidecar, sdcrLeft
    sdcrOut := col.sdcrFns \ sdcrLeft
    inflectCut, insider, schedOutsider, outsiderOpt
    publicUser := (col.fn \ insider) \ border
    tainted := (border ∪ insider ∪ sidecar) ∩ info.inVmlinux
    und := (schedOutsider \ outsiderOpt) ∪ border ∪ sidecar }

/-- `func_class_arithmetics`; `limit` is the recursion limit. -/
def funcClassArithmetics (config : Config) (limit : ℕ) (col : Collected) (info : VmlinuxInfo) :
    Except Failure FuncClass := do
  let sdcrLeft ← sidecarInflect limit col config.sidecar.dedup info.inVmlinux
  let fns := funcClass config col info sdcrLeft
  if fns.sidecar ∩ fns.border = ∅ then
    return fns
  else
    throw (.assertion "Function boundary conflict, please check your sidecar config")

/-- The functions that `export_jump.h` redirects. -/
def FuncClass.redirected (fc : FuncClass) : Finset Signature :=
  fc.callback ∪ fc.interface ∪ fc.sidecar

section Classes

variable {config : Config} {limit : ℕ} {col : Collected} {info : VmlinuxInfo} {fc : FuncClass}

theorem funcClassArithmetics_ok (h : funcClassArithmetics config limit col info = .ok fc) :
    ∃ sdcrLeft, fc = funcClass config col info sdcrLeft := by
  obtain ⟨sdcrLeft, -, hclass⟩ := bind_eq_ok h
  dsimp only at hclass
  split at hclass
  · cases hclass
    exact ⟨sdcrLeft, rfl⟩
  · cases hclass

variable (h : funcClassArithmetics config limit col info = .ok fc)

include h

theorem insider_eq : fc.insider =
    (inflect fc.inflectCut fc.initialInsider col.edges \ fc.init) \ fc.fakeGlobal := by
  obtain ⟨_, rfl⟩ := funcClassArithmetics_ok h
  rfl

theorem inflectCut_eq : fc.inflectCut = fc.border ∪ fc.init ∪ fc.sidecar := by
  obtain ⟨_, rfl⟩ := funcClassArithmetics_ok h
  rfl

theorem mem_schedOutsider {f : Signature} : f ∈ fc.schedOutsider ↔
    (f ∈ fc.modFns ∧ f ∉ fc.insider ∧ f ∉ fc.border) ∨ f ∈ fc.cbOpt ∨
      (f ∈ fc.fakeGlobal ∧ f ∈ fc.modFns) := by
  obtain ⟨_, rfl⟩ := funcClassArithmetics_ok h
  simp only [funcClass, Finset.mem_union, Finset.mem_sdiff, Finset.mem_inter]
  rw [or_assoc, and_assoc]

theorem redirected_eq : fc.redirected = fc.border ∪ fc.sidecar := by
  obtain ⟨_, rfl⟩ := funcClassArithmetics_ok h
  rw [FuncClass.redirected, Finset.union_comm (FuncClass.callback _)]
  rfl

/-- Insiders are module functions outside the border and not overridden. -/
theorem of_mem_insider {f : Signature} (hf : f ∈ fc.insider) :
    f ∈ fc.modFns ∧ f ∉ fc.border ∧ f ∉ fc.fakeGlobal := by
  obtain ⟨_, rfl⟩ := funcClassArithmetics_ok h
  obtain ⟨hf, hfake⟩ := Finset.mem_sdiff.mp hf
  have hinit := inflect_subset (Finset.mem_sdiff.mp hf).1
  have hmod := (Finset.mem_sdiff.mp hinit).1
  exact ⟨(Finset.mem_sdiff.mp hmod).1, (Finset.mem_sdiff.mp hmod).2, hfake⟩

/-- Optimised callbacks are neither interfaces nor callbacks any more. -/
theorem notMem_border_of_cbOpt {f : Signature} (hf : f ∈ fc.cbOpt) : f ∉ fc.border := by
  obtain ⟨_, rfl⟩ := funcClassArithmetics_ok h
  intro hborder
  rcases Finset.mem_union.mp hborder with hint | hcb
  · exact (Finset.mem_sdiff.mp (Finset.mem_sdiff.mp hf).1).2 hint
  · exact (Finset.mem_sdiff.mp hcb).2 hf

/-- A call path to an insider that avoids border, sidecar and init functions
starts at an insider or at an overridden definition. -/
theorem insider_of_isPath {g : ℕ → Signature} {k : ℕ} (hk : 1 ≤ k)
    (hpath : IsPath (fun a b => (a, b) ∈ col.edges) g k) (hgk : g k ∈ fc.insider)
    (hcut : ∀ i < k, g i ∉ fc.border ∪ fc.sidecar ∪ fc.init) :
    g 0 ∈ fc.insider ∨ g 0 ∈ fc.fakeGlobal := by
  have hoff : ∀ i < k, g i ∉ fc.inflectCut := by
    intro i hi hmem
    refine hcut i hi ?_
    rw [inflectCut_eq h] at hmem
    simp only [Finset.mem_union] at hmem ⊢
    tauto
  rw [insider_eq h] at hgk
  -- the whole path lies in what `inflect` returned, only then init and
  -- overridden functions are taken out
  have h0 : g 0 ∈ inflect fc.inflectCut fc.initialInsider col.edges :=
    inflect_guarded.mem_of_isPath hpath (Finset.mem_sdiff.mp (Finset.mem_sdiff.mp hgk).1).1 hoff
      (Nat.zero_le k)
  have hinit : g 0 ∉ fc.init := fun hmem => hcut 0 hk (Finset.mem_union_right _ hmem)
  by_cases hfake : g 0 ∈ fc.fakeGlobal
  · exact .inr hfake
  · rw [insider_eq h]
    exact .inl (Finset.mem_sdiff.mpr ⟨Finset.mem_sdiff.mpr ⟨h0, hinit⟩, hfake⟩)

/-- A stack of calls that holds an insider frame but starts outside holds the frame
of a redirected function, or of an init function that is listed as a caller. -/
theorem exists_redirected_of_stack {stack : List Signature} {f₀ : Signature}
    (hstack : (f₀ :: stack).IsChain fun a b => (a, b) ∈ col.edges)
    (h0 : f₀ ∉ fc.insider) (hfake : f₀ ∉ fc.fakeGlobal)
    (hex : ∃ f ∈ stack, f ∈ fc.insider) :
    ∃ f ∈ f₀ :: stack, f ∈ fc.redirected ∨ f ∈ fc.init ∧ ∃ b, (f, b) ∈ col.edges := by
  obtain ⟨f, hf, hin⟩ := hex
  obtain ⟨k, hk, rfl⟩ := List.getElem_of_mem hf
  have hlen : k + 1 < (f₀ :: stack).length := by simpa using hk
  have hpath := isPath_of_isChain hstack f₀ hlen
  by_contra hno
  push Not at hno
  refine (insider_of_isPath h (Nat.succ_pos k) hpath ?_ fun i hi hmem => ?_).elim h0 hfake
  · rw [List.getD_eq_getElem _ _ hlen]
    exact hin
  · -- a frame below the insider is one of a caller
    have hcall : ((f₀ :: stack).getD i f₀, (f₀ :: stack).getD (i + 1) f₀) ∈ col.edges := hpath i hi
    have hi' : i < (f₀ :: stack).length := by omega
    rw [List.getD_eq_getElem _ _ hi'] at hmem hcall
    obtain ⟨hred, hinit⟩ := hno _ (List.getElem_mem hi')
    rw [redirected_eq h, Finset.mem_union, not_or] at hred
    rcases Finset.mem_union.mp hmem with hmem | hmem
    · rcases Finset.mem_union.mp hmem with hborder | hsidecar
      · exact hred.1 hborder
      · exact hred.2 hsidecar
    · exact hinit hmem _ hcall

end Classes

/-- **The redirected functions guard the insiders.**  Every call chain from
outside to an insider passes a border, sidecar or init function before its end;
so a call stack that starts outside holds an insider frame only if it holds a
redirected (or init) frame too, and a redirected one when the calls of init
functions are not collected. -/
theorem insider_entered_through_cut (config : Config) (metas : List Meta) (info : VmlinuxInfo)
    (limit : ℕ) (fc : FuncClass)
    (h : funcClassArithmetics config limit (collected config metas) info = .ok fc) :
    (∀ (g : ℕ → Signature) (k : ℕ), 1 ≤ k →
      IsPath (fun a b => (a, b) ∈ (collected config metas).edges) g k →
      g k ∈ fc.insider → g 0 ∉ fc.insider → g 0 ∉ fc.fakeGlobal →
      ∃ i < k, g i ∈ fc.border ∨ g i ∈ fc.sidecar ∨ g i ∈ fc.init) ∧
    ∀ (stack : List Signature) (f₀ : Signature),
      (f₀ :: stack).IsChain (fun a b => (a, b) ∈ (collected config metas).edges) →
      f₀ ∉ fc.insider → f₀ ∉ fc.fakeGlobal → (∃ f ∈ stack, f ∈ fc.insider) →
      (∃ f ∈ f₀ :: stack, f ∈ fc.redirected ∨ f ∈ fc.init) ∧
        ((collected config metas).NoInitCalls → ∃ f ∈ f₀ :: stack, f ∈ fc.redirected) := by
  refine ⟨fun g k hk hpath hgk h0 hfake => ?_, fun stack f₀ hstack h0 hfake hex => ?_⟩
  · by_contra hno
    push Not at hno
    refine (insider_of_isPath h hk hpath hgk fun i hi hmem => ?_).elim h0 hfake
    obtain ⟨hborder, hsidecar, hinit⟩ := hno i hi
    simp [hborder, hsidecar, hinit] at hmem
  · obtain ⟨f, hf, hred | ⟨hinit, b, hcall⟩⟩ := exists_redirected_of_stack h hstack h0 hfake hex
    · exact ⟨⟨f, hf, .inl hred⟩, fun _ => ⟨f, hf, hred⟩⟩
    · refine ⟨⟨f, hf, .inr hinit⟩, fun hsilent => absurd ?_ (hsilent _ hcall)⟩
      obtain ⟨_, rfl⟩ := funcClassArithmetics_ok h
      exact hinit

/-- A function with the default properties. -/
def plainFn (name file : String) : FnProp where
  name := name
  file := file
  init := false
  isPublic := true
  weak := false
  signature := (name, file)

/-- A scheduler file whose interface `schedule` calls `pick_next`, and an outside
file that calls `schedule`. -/
def smallMetas : List Meta :=
  [ { path := "kernel/sched/core.c.boundary"
      fn := [plainFn "schedule" "kernel/sched/core.c", plainFn "pick_next" "kernel/sched/core.c"]
      edge := [⟨("schedule", "kernel/sched/core.c"), ("pick_next", "kernel/sched/core.c")⟩]
      callback := []
      interface := [("schedule", "kernel/sched/core.c")] },
    { path := "kernel/exit.c.boundary"
      fn := [plainFn "do_exit" "kernel/exit.c"]
      edge := [⟨("do_exit", "kernel/exit.c"), ("schedule", "?")⟩]
      callback := []
      interface := [] } ]

def smallConfig : Config where
  modFiles := ["kernel/sched/core.c"]
  sidecar := []

/-- All collected functions are in vmlinux, none is a clone or exported. -/
def plainInfo (metas : List Meta) : VmlinuxInfo where
  inVmlinux := signatures (metas.flatMap Meta.fn) fun _ => true
  mangled := ∅
  localSympos := fun _ => none
  exportFunc := ∅

def smallClass : FuncClass :=
  funcClass smallConfig (collected smallConfig smallMetas) (plainInfo smallMetas) ∅

def smallStack : List Signature :=
  [("schedule", "kernel/sched/core.c"), ("pick_next", "kernel/sched/core.c")]

/-- The calls `do_exit → schedule → pick_next` are cut at `schedule`. -/
theorem insider_entered_through_cut_small :
    (∃ i < 2, ∃ f ∈ (("do_exit", "kernel/exit.c") :: smallStack)[i]?,
      f ∈ smallClass.border ∨ f ∈ smallClass.sidecar ∨ f ∈ smallClass.init) ∧
      ∃ f ∈ ("do_exit", "kernel/exit.c") :: smallStack, f ∈ smallClass.redirected := by
  have h := insider_entered_through_cut smallConfig smallMetas (plainInfo smallMetas) 1000
    smallClass rfl
  obtain ⟨i, hi, hmem⟩ := h.1 (fun i => (("do_exit", "kernel/exit.c") :: smallStack).getD i
    ("", "")) 2 (by decide) (by unfold IsPath; decide) (by decide) (by decide) (by decide)
  obtain ⟨-, hred⟩ := h.2 smallStack ("do_exit", "kernel/exit.c") (by decide) (by decide)
    (by decide) (by decide)
  refine ⟨⟨i, hi, _, ?_, hmem⟩, hred (by unfold Collected.NoInitCalls; decide)⟩
  rw [List.getD_eq_getElem _ _ (lt_trans hi (by decide))]
  exact List.getElem?_eq_getElem _

/-! ### The classes as a partition -/

/-- `f` is in exactly one of `border`, `insider` and `sched_outsider`. -/
def FuncClass.InOneClass (fc : FuncClass) (f : Signature) : Prop :=
  (f ∈ fc.border ∧ f ∉ fc.insider ∧ f ∉ fc.schedOutsider) ∨
    (f ∉ fc.border ∧ f ∈ fc.insider ∧ f ∉ fc.schedOutsider) ∨
    (f ∉ fc.border ∧ f ∉ fc.insider ∧ f ∈ fc.schedOutsider)

instance (fc : FuncClass) (f : Signature) : Decidable (fc.InOneClass f) :=
  inferInstanceAs (Decidable (_ ∨ _))

/-- Where the classes cover, and border and insiders are apart, only an outsider can be in
two of them. -/
theorem FuncClass.inOneClass_iff {fc : FuncClass} {f : Signature}
    (hcover : f ∈ fc.border ∨ f ∈ fc.insider ∨ f ∈ fc.schedOutsider)
    (hapart : ¬ (f ∈ fc.border ∧ f ∈ fc.insider)) :
    fc.InOneClass f ↔ ¬ (f ∈ fc.border ∧ f ∈ fc.schedOutsider) ∧
      ¬ (f ∈ fc.insider ∧ f ∈ fc.schedOutsider) := by
  rw [FuncClass.InOneClass]
  by_cases hborder : f ∈ fc.border
  · have hnot : f ∉ fc.insider := fun hinsider => hapart ⟨hborder, hinsider⟩
    simp [hborder, hnot]
  by_cases hinsider : f ∈ fc.insider
  · simp [hborder, hinsider]
  · have hout := (hcover.resolve_left hborder).resolve_left hinsider
    simp [hborder, hinsider, hout]

/-! The conditions are about what `func_class_arithmetics` is given. -/

section Inputs

variable (config : Config) (col : Collected) (info : VmlinuxInfo)

/-- An interface, or a callback that is in vmlinux. -/
def AtBorder (f : Signature) : Prop :=
  f ∈ col.interface ∨ f ∈ col.callback ∧ f ∈ info.inVmlinux

/-- A function that calls may pass on the way into the module. -/
def AtCut (f : Signature) : Prop :=
  AtBorder col info f ∨ f ∈ col.init ∨ f ∈ config.sidecar

/-- A module function that may become an insider. -/
def MayMove (f : Signature) : Prop :=
  f ∈ col.modFns ∧ ¬ AtBorder col info f ∧ f ∉ info.exportFunc

/-- A caller chain from outside leads to the function, and not through the cut. -/
def EnteredAround (f : Signature) : Prop :=
  ∃ a, ¬ MayMove col info a ∧ ¬ AtCut config col info a ∧
    Through (fun a b => (a, b) ∈ col.edges)
      (fun c => MayMove col info c ∧ ¬ AtCut config col info c) a f

/-- A border function that another definition overrides. -/
def OverriddenBorder (f : Signature) : Prop := f ∈ col.fakeGlobal ∧ AtBorder col info f

/-- A callback that vmlinux does not have and that `inflect` keeps. -/
def KeptCallback (f : Signature) : Prop :=
  f ∈ col.callback ∧ f ∉ info.inVmlinux ∧ MayMove col info f ∧
    f ∉ col.init ∧ f ∉ col.fakeGlobal ∧ ¬ EnteredAround config col info f

end Inputs

section Classes

variable {config : Config} {limit : ℕ} {col : Collected} {info : VmlinuxInfo} {fc : FuncClass}
  (h : funcClassArithmetics config limit col info = .ok fc)

include h

theorem mem_border {f : Signature} : f ∈ fc.border ↔ AtBorder col info f := by
  obtain ⟨_, rfl⟩ := funcClassArithmetics_ok h
  simp only [funcClass, AtBorder, Finset.mem_union, Finset.mem_sdiff]
  by_cases hint : f ∈ col.interface
  · simp [hint]
  · by_cases hcb : f ∈ col.callback <;> simp [hint, hcb]

theorem mem_cbOpt {f : Signature} :
    f ∈ fc.cbOpt ↔ f ∈ col.callback ∧ f ∉ info.inVmlinux ∧ ¬ AtBorder col info f := by
  obtain ⟨_, rfl⟩ := funcClassArithmetics_ok h
  simp only [funcClass, AtBorder, Finset.mem_sdiff]
  by_cases hvm : f ∈ info.inVmlinux
  · simp [hvm]
  · simp [hvm]

theorem mem_initialInsider {f : Signature} : f ∈ fc.initialInsider ↔ MayMove col info f := by
  have hborder := mem_border h (f := f)
  rw [MayMove, ← hborder]
  obtain ⟨_, rfl⟩ := funcClassArithmetics_ok h
  simp only [funcClass, Finset.mem_sdiff, and_assoc]

theorem mem_inflectCut {f : Signature} : f ∈ fc.inflectCut ↔ AtCut config col info f := by
  rw [inflectCut_eq h, AtCut, ← mem_border h]
  obtain ⟨_, rfl⟩ := funcClassArithmetics_ok h
  simp only [funcClass, Finset.mem_union, List.mem_toFinset, or_assoc]

/-- An insider in terms of what the function is given. -/
theorem mem_insider {f : Signature} : f ∈ fc.insider ↔
    MayMove col info f ∧ ¬ EnteredAround config col info f ∧ f ∉ col.init ∧ f ∉ col.fakeGlobal := by
  have hinflect : f ∈ inflect fc.inflectCut fc.initialInsider col.edges ↔
      MayMove col info f ∧ ¬ EnteredAround config col info f := by
    rw [← Finset.mem_coe, coe_inflect]
    simp only [unreached, Set.mem_ofPred_eq, Finset.mem_coe, mem_initialInsider h,
      mem_inflectCut h, EnteredAround, not_exists, not_and]
  have hfirst : fc.init = col.init ∧ fc.fakeGlobal = col.fakeGlobal := by
    obtain ⟨_, rfl⟩ := funcClassArithmetics_ok h
    exact ⟨rfl, rfl⟩
  rw [insider_eq h, Finset.mem_sdiff, Finset.mem_sdiff, hinflect, hfirst.1, hfirst.2]
  simp only [and_assoc]

end Classes

/-- **The classes of the module.**  They cover it, and no border function is an insider.  A
border function is an outsider too exactly if another definition overrides it, an insider
exactly if it is a callback that vmlinux does not have; so the classes partition the module
exactly if it has no function of either kind. -/
theorem border_insider_outsider (config : Config) (metas : List Meta) (info : VmlinuxInfo)
    (limit : ℕ) (fc : FuncClass)
    (h : funcClassArithmetics config limit (collected config metas) info = .ok fc) :
    (∀ f ∈ fc.modFns,
      (f ∈ fc.border ∨ f ∈ fc.insider ∨ f ∈ fc.schedOutsider) ∧
      ¬ (f ∈ fc.border ∧ f ∈ fc.insider) ∧
      (f ∈ fc.border ∧ f ∈ fc.schedOutsider ↔ OverriddenBorder (collected config metas) info f) ∧
      (f ∈ fc.insider ∧ f ∈ fc.schedOutsider ↔
        KeptCallback config (collected config metas) info f)) ∧
    ((∀ f ∈ fc.modFns, fc.InOneClass f) ↔
      ∀ f ∈ fc.modFns, ¬ OverriddenBorder (collected config metas) info f ∧
        ¬ KeptCallback config (collected config metas) info f) := by
  have hfake : fc.fakeGlobal = (collected config metas).fakeGlobal := by
    obtain ⟨_, rfl⟩ := funcClassArithmetics_ok h
    rfl
  have hcover : ∀ f ∈ fc.modFns, f ∈ fc.border ∨ f ∈ fc.insider ∨ f ∈ fc.schedOutsider := by
    intro f hmod
    by_cases hborder : f ∈ fc.border
    · exact .inl hborder
    by_cases hinsider : f ∈ fc.insider
    · exact .inr (.inl hinsider)
    exact .inr (.inr ((mem_schedOutsider h).mpr (.inl ⟨hmod, hinsider, hborder⟩)))
  have hapart : ∀ f, ¬ (f ∈ fc.border ∧ f ∈ fc.insider) :=
    fun f hboth => (of_mem_insider h hboth.2).2.1 hboth.1
  have hover : ∀ f ∈ fc.modFns, (f ∈ fc.border ∧ f ∈ fc.schedOutsider ↔
      OverriddenBorder (collected config metas) info f) := by
    intro f hmod
    have hout := mem_schedOutsider h (f := f)
    rw [OverriddenBorder, ← mem_border h, ← hfake, and_comm (a := f ∈ fc.fakeGlobal)]
    refine and_congr_right fun hborder =>
      ⟨fun hmem => ?_, fun hmem => hout.mpr (.inr (.inr ⟨hmem, hmod⟩))⟩
    rcases hout.mp hmem with ⟨-, -, hnot⟩ | hopt | ⟨hover, -⟩
    · exact absurd hborder hnot
    · exact absurd hborder (notMem_border_of_cbOpt h hopt)
    · exact hover
  have hkept : ∀ f, f ∈ fc.insider ∧ f ∈ fc.schedOutsider ↔
      KeptCallback config (collected config metas) info f := by
    intro f
    have hout := mem_schedOutsider h (f := f)
    have hopt : f ∈ fc.insider ∧ f ∈ fc.schedOutsider ↔ f ∈ fc.insider ∧ f ∈ fc.cbOpt := by
      refine and_congr_right fun hinsider =>
        ⟨fun hmem => ?_, fun hmem => hout.mpr (.inr (.inl hmem))⟩
      rcases hout.mp hmem with ⟨-, hnot, -⟩ | hopt | ⟨hover, -⟩
      · exact absurd hinsider hnot
      · exact hopt
      · exact absurd hover (of_mem_insider h hinsider).2.2
    rw [hopt, mem_insider h, mem_cbOpt h, KeptCallback]
    constructor
    · rintro ⟨⟨hmove, haround, hinit, hover⟩, hcb, hvm, -⟩
      exact ⟨hcb, hvm, hmove, hinit, hover, haround⟩
    · rintro ⟨hcb, hvm, hmove, hinit, hover, haround⟩
      exact ⟨⟨hmove, haround, hinit, hover⟩, hcb, hvm, hmove.2.1⟩
  refine ⟨fun f hmod => ⟨hcover f hmod, hapart f, hover f hmod, hkept f⟩, ?_⟩
  refine forall₂_congr fun f hmod => ?_
  rw [FuncClass.inOneClass_iff (hcover f hmod) (hapart f), hover f hmod, hkept f]

/-- The interface `__setscheduler` takes the address of the callback
`__balance_cb`, which the compiler has inlined everywhere. -/
def inlinedMetas : List Meta :=
  [ { path := "kernel/sched/core.c.boundary"
      fn := [plainFn "__setscheduler" "kernel/sched/core.c",
        plainFn "__balance_cb" "kernel/sched/core.c"]
      edge := []
      callback := [("__balance_cb", "kernel/sched/core.c")]
      interface := [("__setscheduler", "kernel/sched/core.c")] } ]

def inlinedInfo : VmlinuxInfo where
  inVmlinux := {("__setscheduler", "kernel/sched/core.c")}
  mangled := ∅
  localSympos := fun _ => none
  exportFunc := ∅

def inlinedClass : FuncClass :=
  funcClass smallConfig (collected smallConfig inlinedMetas) inlinedInfo ∅

/-- The inlined callback is an insider and an outsider. -/
example : ("__balance_cb", "kernel/sched/core.c") ∈ inlinedClass.insider ∩
    inlinedClass.schedOutsider := by
  decide

/-- Where all callbacks are in vmlinux and nothing is overridden, the classes are apart. -/
theorem border_insider_outsider_small :
    smallClass.modFns.Nonempty ∧ ∀ f ∈ smallClass.modFns, smallClass.InOneClass f := by
  refine ⟨by decide, (border_insider_outsider smallConfig smallMetas (plainInfo smallMetas) 1000
    smallClass rfl).2.mpr fun f _ => ⟨fun hover => ?_, fun hkept => ?_⟩⟩
  · have hnone : (collected smallConfig smallMetas).fakeGlobal = ∅ := by decide
    rw [OverriddenBorder, hnone] at hover
    exact absurd hover.1 (Finset.notMem_empty f)
  · have hnone : (collected smallConfig smallMetas).callback = ∅ := by decide
    rw [KeptCallback, hnone] at hkept
    exact absurd hkept.1 (Finset.notMem_empty f)

/-- The interface `sched_hook` is weak, and another file overrides it. -/
def hookMetas : List Meta :=
  [ { path := "kernel/sched/core.c.boundary"
      fn := [{ plainFn "sched_hook" "kernel/sched/core.c" with weak := true }]
      edge := []
      callback := []
      interface := [("sched_hook", "kernel/sched/core.c")] },
    { path := "arch/x86/kernel/tick.c.boundary"
      fn := [plainFn "sched_hook" "arch/x86/kernel/tick.c"]
      edge := []
      callback := []
      interface := [] } ]

/-- The linker has taken the strong definition. -/
def hookInfo : VmlinuxInfo where
  inVmlinux := {("sched_hook", "arch/x86/kernel/tick.c")}
  mangled := ∅
  localSympos := fun _ => none
  exportFunc := ∅

def hookClass : FuncClass :=
  funcClass smallConfig (collected smallConfig hookMetas) hookInfo ∅

/-- The overridden definition is an outsider, and redirected all the same. -/
theorem overridden_interface_in_two_classes :
    funcClassArithmetics smallConfig 1000 (collected smallConfig hookMetas) hookInfo =
        .ok hookClass ∧
      ("sched_hook", "kernel/sched/core.c") ∈ hookClass.modFns ∧
      ("sched_hook", "kernel/sched/core.c") ∈ hookClass.fakeGlobal ∧
      ("sched_hook", "kernel/sched/core.c") ∈ hookClass.border ∧
      ("sched_hook", "kernel/sched/core.c") ∈ hookClass.schedOutsider ∧
      ("sched_hook", "kernel/sched/core.c") ∈ hookClass.redirected ∧
      ¬ hookClass.InOneClass ("sched_hook", "kernel/sched/core.c") :=
  ⟨rfl, by decide, by decide, by decide, by decide, by decide, by decide⟩

end Plugsched
