/-
The last sanity check of `analyze.py`: no clone of a redirected function may be
called by code that stays in the kernel.

If the compiler has cloned (`mangled`) a redirected function `f`, functions of
the same file may call the clone, which is not redirected.
`check_redirect_mangled` walks the callers of `f` inside its file, through
functions that are themselves cloned or inlined.

* `checkRedirectMangled_sound` — no walk that the check has cleared starts at a
  `sched_outsider`;
* `no_live_caller_iff` — after the check live code reaches a clone only along
  the chains that the check does not see.
-/
import Plugsched.FuncClass

open CutGraph ExceptRules

namespace Plugsched

/-- A call between two functions of one file. -/
def SameFileCall (edges : List LinkedEdge) (a b : Signature) : Prop :=
  a.2 = b.2 ∧ ∃ edge ∈ edges, edge.fromSym = a ∧ edge.toSym = some b

/-- The function is cloned, or absent from vmlinux. -/
def FuncClass.Optimized (fc : FuncClass) (f : Signature) : Prop :=
  f ∈ fc.mangled ∨ f ∉ fc.inVmlinux

instance (fc : FuncClass) (f : Signature) : Decidable (fc.Optimized f) :=
  inferInstanceAs (Decidable (_ ∨ _))

/-- `check_redirect_mangled`, with `depth` frames left on the Python stack. -/
def checkRedirectMangled (fc : FuncClass) (edges : List LinkedEdge) :
    ℕ → Signature → Except Failure Bool
  | 0, _ => .error .recursion
  | depth + 1, f =>
    edges.anyM fun edge =>
      match edge.toSym with
      | none => .ok false
      | some toSym =>
        if toSym ≠ f ∨ toSym.2 ≠ edge.fromSym.2 then .ok false
        else if edge.fromSym ∈ fc.schedOutsider then .ok true
        else if fc.Optimized edge.fromSym then checkRedirectMangled fc edges depth edge.fromSym
        else .ok false

/-- The loop body of the sanity checks. -/
def sanityCheck (limit : ℕ) (col : Collected) (fc : FuncClass) (sym : Signature) :
    Except Failure Unit := do
  let edges ← metaOf col sym
  if ← checkRedirectMangled fc edges limit sym then
    throw (.assertion
      ("trying to redirect the mangled function " ++ sym.1 ++ " (" ++ sym.2 ++ ")"))

/-- `analyze.py` up to the sanity checks, with the lines of `readelf`. -/
def analyze (config : Config) (limit : ℕ) (metas : List Meta) (lines : List (List String)) :
    Except Failure FuncClass := do
  let info ← findInVmlinux config (collected config metas).fn lines
  funcClassArithmetics config limit (collected config metas) info

/-! ### Soundness of the walk -/

section Walk

variable {fc : FuncClass} {edges : List LinkedEdge}

/-- What a cleared function says about its callers. -/
theorem caller_of_cleared {depth : ℕ} {a f : Signature}
    (h : checkRedirectMangled fc edges (depth + 1) f = .ok false) (hcall : SameFileCall edges a f) :
    a ∉ fc.schedOutsider ∧
      (fc.Optimized a → checkRedirectMangled fc edges depth a = .ok false) := by
  obtain ⟨hfile, edge, hedge, rfl, hto⟩ := hcall
  have hp := anyM_eq_false h edge hedge
  rw [hto] at hp
  dsimp only at hp
  rw [if_neg (by simp [hfile])] at hp
  split at hp
  · cases hp
  · next hout =>
    refine ⟨hout, fun hopt => ?_⟩
    rwa [if_pos hopt] at hp

/-- No walk to a cleared function starts at a `sched_outsider`. -/
theorem checkRedirectMangled_sound {depth : ℕ} {g f : Signature}
    (h : checkRedirectMangled fc edges depth f = .ok false)
    (hwalk : Through (SameFileCall edges) fc.Optimized g f) : g ∉ fc.schedOutsider := by
  induction hwalk generalizing depth with
  | edge hcall =>
    cases depth with
    | zero => cases h
    | succ depth => exact (caller_of_cleared h hcall).1
  | snoc _ hopt hcall ih =>
    cases depth with
    | zero => cases h
    | succ depth => exact ih ((caller_of_cleared h hcall).2 hopt)

end Walk

/-! ### Live callers of clones -/

/-- The body of `g` in vmlinux stays in use after the update. -/
def FuncClass.Live (fc : FuncClass) (g : Signature) : Prop :=
  g ∈ fc.modFns ∪ fc.sdcrFns ∧ g ∉ fc.insider ∧ g ∉ fc.border ∧ g ∉ fc.sidecar ∧ g ∉ fc.init

/-- The redirected functions that have a clone. -/
def FuncClass.redirectedClones (fc : FuncClass) : Finset Signature :=
  (fc.sidecar ∪ fc.border) ∩ fc.mangled

/-- `c 0, …, c k` is a chain of collected calls inside one file, through cloned or
absent functions. -/
structure CloneChain (col : Collected) (fc : FuncClass) (c : ℕ → Signature) (k : ℕ) : Prop where
  pos : 1 ≤ k
  path : IsPath (fun a b => a.2 = b.2 ∧ (a, b) ∈ col.edges) c k
  optimized : ∀ i, 1 ≤ i → i < k → fc.Optimized (c i)

/-- The metadata of `file` lists the call. -/
def Collected.Lists (col : Collected) (file : String) (a b : Signature) : Prop :=
  ∃ edges, col.metasByName (file ++ ".boundary") = some edges ∧
    ∃ edge ∈ edges, edge.fromSym = a ∧ edge.toSym = some b

/-- The check does not see the chain: it starts at a function of a sidecar file that
is not a module function, or uses a call that the metadata of its file does not list. -/
def Overlooked (col : Collected) (fc : FuncClass) (c : ℕ → Signature) (k : ℕ) : Prop :=
  c 0 ∈ fc.sdcrFns \ fc.modFns ∨ ∃ i < k, ¬ col.Lists (c k).2 (c i) (c (i + 1))

/-- After the check a chain that the metadata lists does not start at a
`sched_outsider`. -/
theorem notMem_schedOutsider_of_chain {limit : ℕ} {col : Collected} {fc : FuncClass}
    {c : ℕ → Signature} {k : ℕ} (hpass : sanityCheck limit col fc (c k) = .ok ())
    (hchain : CloneChain col fc c k)
    (hlists : ∀ i < k, col.Lists (c k).2 (c i) (c (i + 1))) : c 0 ∉ fc.schedOutsider := by
  obtain ⟨edges, hmeta, -⟩ := hlists 0 hchain.pos
  have hpath : IsPath (SameFileCall edges) c k := by
    intro i hi
    obtain ⟨edges', hmeta', hcall⟩ := hlists i hi
    obtain rfl : edges = edges' := Option.some.inj (hmeta.symm.trans hmeta')
    exact ⟨(hchain.path i hi).1, hcall⟩
  rw [sanityCheck, metaOf, hmeta] at hpass
  obtain ⟨_, hedges, hpass⟩ := bind_eq_ok hpass
  cases hedges
  obtain ⟨r, hcheck, hthrow⟩ := bind_eq_ok hpass
  cases r with
  | true => cases hthrow
  | false =>
    exact checkRedirectMangled_sound hcheck
      (through_iff.mpr ⟨c, k, hchain.pos, rfl, rfl, hpath, hchain.optimized⟩)

theorem analyze_ok {config : Config} {limit : ℕ} {metas : List Meta}
    {lines : List (List String)} {fc : FuncClass}
    (h : analyze config limit metas lines = .ok fc) :
    ∃ info, findInVmlinux config (collected config metas).fn lines = .ok info ∧
      funcClassArithmetics config limit (collected config metas) info = .ok fc := by
  exact bind_eq_ok h

/-- **What the sanity check leaves open.**  When it passes for every redirected
clone, no live function starts a chain to a redirected clone if and only if none
starts a chain that the check does not see. -/
theorem no_live_caller_iff (config : Config) (limit : ℕ) (metas : List Meta)
    (lines : List (List String)) (fc : FuncClass)
    (h : analyze config limit metas lines = .ok fc)
    (hpass : ∀ sym ∈ fc.redirectedClones,
      sanityCheck limit (collected config metas) fc sym = .ok ()) :
    (∀ c k, CloneChain (collected config metas) fc c k → c k ∈ fc.redirectedClones →
        ¬ fc.Live (c 0)) ↔
      ∀ c k, CloneChain (collected config metas) fc c k → c k ∈ fc.redirectedClones →
        fc.Live (c 0) → ¬ Overlooked (collected config metas) fc c k := by
  constructor
  · intro hno c k hchain hck hlive
    exact absurd hlive (hno c k hchain hck)
  · intro hseen c k hchain hck hlive
    obtain ⟨hstart, hlists⟩ := not_or.mp (hseen c k hchain hck hlive)
    have hmod : c 0 ∈ fc.modFns := by
      by_contra hnot
      rcases Finset.mem_union.mp hlive.1 with hin | hin
      · exact hnot hin
      · exact hstart (Finset.mem_sdiff.mpr ⟨hin, hnot⟩)
    -- a live module function is a `sched_outsider`
    obtain ⟨info, -, hclass⟩ := analyze_ok h
    refine notMem_schedOutsider_of_chain (hpass _ hck) hchain ?_ ?_
    · intro i hi
      by_contra hnot
      exact hlists ⟨i, hi, hnot⟩
    · exact (mem_schedOutsider hclass).mpr (.inl ⟨hmod, hlive.2.1, hlive.2.2.1⟩)

/-- A row of `readelf` for a symbol of this type, scope and name. -/
def elfRow (symtype scope key : String) : List String :=
  ["1:", "0", "0", symtype, scope, "DEFAULT", "1", key]

/-- `schedule` and `pick_next` call each other; `do_exit` of another file calls
`schedule` and `sched_show`, which stays in the kernel. -/
def clonedMetas : List Meta :=
  [ { path := "kernel/sched/core.c.boundary"
      fn := [plainFn "schedule" "kernel/sched/core.c", plainFn "pick_next" "kernel/sched/core.c",
        plainFn "sched_show" "kernel/sched/core.c"]
      edge := [⟨("schedule", "kernel/sched/core.c"), ("pick_next", "kernel/sched/core.c")⟩,
        ⟨("pick_next", "kernel/sched/core.c"), ("schedule", "kernel/sched/core.c")⟩]
      callback := []
      interface := [("schedule", "kernel/sched/core.c")] },
    { path := "kernel/exit.c.boundary"
      fn := [plainFn "do_exit" "kernel/exit.c"]
      edge := [⟨("do_exit", "kernel/exit.c"), ("schedule", "?")⟩,
        ⟨("do_exit", "kernel/exit.c"), ("sched_show", "?")⟩]
      callback := []
      interface := [] } ]

/-- `schedule` has a clone. -/
def clonedLines : List (List String) :=
  [[], [], [], elfRow "FILE" "LOCAL" "core.c", elfRow "FUNC" "LOCAL" "schedule.constprop.0",
    elfRow "FUNC" "LOCAL" "pick_next", elfRow "FUNC" "GLOBAL" "schedule",
    elfRow "FUNC" "GLOBAL" "sched_show", elfRow "FUNC" "GLOBAL" "do_exit"]

def clonedClass : FuncClass :=
  ((analyze smallConfig 1000 clonedMetas clonedLines).toOption).getD smallClass

/-- `pick_next` may call the clone, but it is not live; `sched_show` is live, but
does not call it. -/
theorem no_live_caller_iff_cloned :
    clonedClass.redirectedClones = {("schedule", "kernel/sched/core.c")} ∧
      clonedClass.Live ("sched_show", "kernel/sched/core.c") ∧
      ∀ c k, CloneChain (collected smallConfig clonedMetas) clonedClass c k →
        c k ∈ clonedClass.redirectedClones → ¬ clonedClass.Live (c 0) := by
  have hclones : clonedClass.redirectedClones = {("schedule", "kernel/sched/core.c")} := by decide
  refine ⟨hclones, by unfold FuncClass.Live; decide,
    (no_live_caller_iff smallConfig 1000 clonedMetas clonedLines clonedClass rfl
      (by decide)).mpr ?_⟩
  intro c k hchain hck _ hover
  have hnone : clonedClass.sdcrFns \ clonedClass.modFns = ∅ := by decide
  have hlocal : ∀ e ∈ (collected smallConfig clonedMetas).edges, e.1.2 = e.2.2 →
      e = (("schedule", "kernel/sched/core.c"), ("pick_next", "kernel/sched/core.c")) ∨
        e = (("pick_next", "kernel/sched/core.c"), ("schedule", "kernel/sched/core.c")) := by
    decide
  rcases hover with hstart | ⟨i, hi, hlists⟩
  · rw [hnone] at hstart
    exact Finset.notMem_empty _ hstart
  · -- both calls of the file are in its metadata
    rw [hclones, Finset.mem_singleton] at hck
    obtain ⟨hfile, hedge⟩ := hchain.path i hi
    rw [hck] at hlists
    rcases hlocal _ hedge hfile with he | he
    · obtain ⟨hfrom, hto⟩ := Prod.mk.inj he
      rw [hfrom, hto] at hlists
      exact hlists ⟨_, rfl, _, List.mem_cons_self, rfl, rfl⟩
    · obtain ⟨hfrom, hto⟩ := Prod.mk.inj he
      rw [hfrom, hto] at hlists
      exact hlists ⟨_, rfl, _, List.mem_cons_of_mem _ List.mem_cons_self, rfl, rfl⟩

/-- The sidecar function `cpuusage_write` is called by `cpuacct_write`, which
stays in the kernel. -/
def cpuacctMetas : List Meta :=
  [ { path := "kernel/sched/core.c.boundary"
      fn := [plainFn "schedule" "kernel/sched/core.c"]
      edge := []
      callback := []
      interface := [("schedule", "kernel/sched/core.c")] },
    { path := "kernel/sched/cpuacct.c.boundary"
      fn := [plainFn "cpuusage_write" "kernel/sched/cpuacct.c",
        plainFn "cpuacct_write" "kernel/sched/cpuacct.c"]
      edge := [⟨("cpuacct_write", "kernel/sched/cpuacct.c"),
        ("cpuusage_write", "kernel/sched/cpuacct.c")⟩]
      callback := []
      interface := [] } ]

def cpuacctConfig : Config where
  modFiles := ["kernel/sched/core.c"]
  sidecar := [("cpuusage_write", "kernel/sched/cpuacct.c")]

/-- `cpuusage_write` has a clone. -/
def cpuacctLines : List (List String) :=
  [[], [], [], elfRow "FILE" "LOCAL" "core.c", elfRow "FILE" "LOCAL" "cpuacct.c",
    elfRow "FUNC" "LOCAL" "cpuusage_write.isra.0", elfRow "FUNC" "LOCAL" "cpuusage_write",
    elfRow "FUNC" "LOCAL" "cpuacct_write", elfRow "FUNC" "GLOBAL" "schedule"]

def cpuacctClass : FuncClass :=
  ((analyze cpuacctConfig 1000 cpuacctMetas cpuacctLines).toOption).getD smallClass

/-- A call of `cpuusage_write` by `cpuacct_write`. -/
def cpuacctChain (i : ℕ) : Signature :=
  if i = 0 then ("cpuacct_write", "kernel/sched/cpuacct.c")
  else ("cpuusage_write", "kernel/sched/cpuacct.c")

/-- The sanity check passes although `cpuacct_write` stays live and may call the
clone of `cpuusage_write`. -/
theorem live_caller_of_sidecar_clone :
    analyze cpuacctConfig 1000 cpuacctMetas cpuacctLines = .ok cpuacctClass ∧
      (∀ sym ∈ cpuacctClass.redirectedClones,
        sanityCheck 1000 (collected cpuacctConfig cpuacctMetas) cpuacctClass sym = .ok ()) ∧
      CloneChain (collected cpuacctConfig cpuacctMetas) cpuacctClass cpuacctChain 1 ∧
      cpuacctChain 1 ∈ cpuacctClass.redirectedClones ∧
      cpuacctClass.Live (cpuacctChain 0) := by
  refine ⟨rfl, by decide, ⟨le_rfl, ?_, ?_⟩, by decide, by unfold FuncClass.Live; decide⟩
  · intro i hi
    obtain rfl : i = 0 := Nat.lt_one_iff.mp hi
    exact ⟨rfl, by decide⟩
  · intro i h1 h2
    omega

end Plugsched
