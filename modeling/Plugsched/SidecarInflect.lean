/-
What `sidecar_inflect` keeps, so that the sidecars can be compiled.

The search runs over the metadata of one file at a time, but its visited set is
shared.  A callee is followed only inside the file of its caller, so that all
searches together are one search over the calls of all files.

* `sidecarDfs_eq_dfs` — the search as an instance of the general one;
* `sidecarInflect_isLeast` — whatever is returned is the least closed set;
* `sidecarInflect_least` — when it is returned, and that no order matters.
-/
import Plugsched.DfsClosure
import Plugsched.MangledCheck

open DfsClosure ExceptRules

namespace Plugsched

/-- The callees that `__sidecar_dfs` descends into. -/
def sidecarCallees (edges : List LinkedEdge) (inVmlinux : Finset Signature)
    (startSym : Signature) : List Signature :=
  edges.filterMap fun edge => edge.toSym.filter fun toSym =>
    edge.fromSym = startSym ∧ toSym.2 = startSym.2 ∧ toSym ∉ inVmlinux

theorem mem_sidecarCallees {edges : List LinkedEdge} {inVmlinux : Finset Signature}
    {a b : Signature} : b ∈ sidecarCallees edges inVmlinux a ↔
      SameFileCall edges a b ∧ b ∉ inVmlinux := by
  simp only [sidecarCallees, List.mem_filterMap, Option.filter_eq_some_iff, decide_eq_true_eq]
  constructor
  · rintro ⟨edge, hedge, hto, hfrom, hfile, hin⟩
    exact ⟨⟨hfile.symm, edge, hedge, hfrom, hto⟩, hin⟩
  · rintro ⟨⟨hfile, edge, hedge, hfrom, hto⟩, hin⟩
    exact ⟨edge, hedge, hto, hfrom, hfile.symm, hin⟩

theorem sidecarDfs_eq_dfs (edges : List LinkedEdge) (inVmlinux : Finset Signature) (depth : ℕ)
    (startSym : Signature) (leftover : Finset Signature) :
    sidecarDfs edges inVmlinux depth startSym leftover =
      dfs .recursion (sidecarCallees edges inVmlinux) depth startSym leftover := by
  induction depth generalizing startSym leftover with
  | zero => rfl
  | succ depth ih =>
    rw [sidecarDfs, dfs, sidecarCallees, List.foldlM_filterMap]
    split
    · rfl
    · refine foldlM_congr (fun edge _ leftover => ?_) _
      cases hto : edge.toSym with
      | none => rfl
      | some toSym =>
        rw [Option.filter_some]
        dsimp only
        split
        · next hcall => rw [if_pos (by simpa using hcall), ih]
        · next hcall =>
          rw [if_neg (by simpa using hcall)]
          rfl

/-- A call inside a file, listed in its metadata, of a function that is absent from
vmlinux. -/
def SidecarCall (col : Collected) (inVmlinux : Finset Signature) (a b : Signature) : Prop :=
  a.2 = b.2 ∧ col.Lists a.2 a b ∧ b ∉ inVmlinux

/-- The file of the function has metadata. -/
def Collected.HasMeta (col : Collected) (sym : Signature) : Prop :=
  (col.metasByName (sym.2 ++ ".boundary")).isSome

instance (col : Collected) (sym : Signature) : Decidable (col.HasMeta sym) :=
  inferInstanceAs (Decidable (_ = true))

/-- The calls of all files as one successor function. -/
def sidecarSucc (col : Collected) (inVmlinux : Finset Signature) (sym : Signature) :
    List Signature :=
  sidecarCallees ((col.metasByName (sym.2 ++ ".boundary")).getD []) inVmlinux sym

section Sidecar

variable {col : Collected} {inVmlinux : Finset Signature} {sidecar : List Signature} {limit : ℕ}

theorem mem_sidecarSucc {a b : Signature} :
    b ∈ sidecarSucc col inVmlinux a ↔ SidecarCall col inVmlinux a b := by
  rw [sidecarSucc, mem_sidecarCallees, SidecarCall, SameFileCall, and_assoc, Collected.Lists]
  refine and_congr_right fun _ => and_congr_left fun _ => ?_
  cases hmeta : col.metasByName (a.2 ++ ".boundary") with
  | none => simp
  | some edges => simp

theorem metaOf_of_hasMeta {sym : Signature} (h : col.HasMeta sym) :
    metaOf col sym = .ok ((col.metasByName (sym.2 ++ ".boundary")).getD []) := by
  obtain ⟨edges, hmeta⟩ := Option.isSome_iff_exists.mp h
  rw [metaOf, hmeta]
  rfl

/-- A search in the metadata of one file stays in the file. -/
theorem sidecarDfs_eq (sym : Signature) (leftover : Finset Signature) :
    sidecarDfs ((col.metasByName (sym.2 ++ ".boundary")).getD []) inVmlinux limit sym leftover =
      dfs .recursion (sidecarSucc col inVmlinux) limit sym leftover := by
  rw [sidecarDfs_eq_dfs]
  refine dfs_congr (P := fun a => a.2 = sym.2) (fun a ha => ?_) (fun a ha b hb => ?_) limit rfl _
  · rw [sidecarSucc, ha]
  · rw [← (mem_sidecarCallees.mp hb).1.1]
    exact ha

/-- The body of the loop over the sidecars. -/
theorem sidecar_step {sym : Signature} (h : col.HasMeta sym) (leftover : Finset Signature) :
    (metaOf col sym >>= fun edges => sidecarDfs edges inVmlinux limit sym leftover) =
      dfs .recursion (sidecarSucc col inVmlinux) limit sym leftover := by
  rw [metaOf_of_hasMeta h, ← sidecarDfs_eq]
  rfl

theorem sidecar_sdiff_eq_empty (hin : ∀ sym ∈ sidecar, sym ∈ inVmlinux) :
    sidecar.toFinset \ inVmlinux = ∅ := by
  rw [Finset.sdiff_eq_empty_iff_subset]
  intro sym hsym
  exact hin sym (List.mem_toFinset.mp hsym)

/-- With all metadata at hand `sidecar_inflect` is one search. -/
theorem sidecarInflect_eq (hin : ∀ sym ∈ sidecar, sym ∈ inVmlinux)
    (hmeta : ∀ sym ∈ sidecar, col.HasMeta sym) :
    sidecarInflect limit col sidecar inVmlinux =
      dfsAll .recursion (sidecarSucc col inVmlinux) limit sidecar ∅ := by
  rw [sidecarInflect, if_pos (sidecar_sdiff_eq_empty hin)]
  exact foldlM_congr (fun sym hsym leftover => sidecar_step (hmeta sym hsym) leftover) _

/-- A returned set needs the sidecars in vmlinux and the metadata of their files. -/
theorem of_sidecarInflect_eq_ok {leftover : Finset Signature}
    (h : sidecarInflect limit col sidecar inVmlinux = .ok leftover) :
    (∀ sym ∈ sidecar, sym ∈ inVmlinux) ∧ ∀ sym ∈ sidecar, col.HasMeta sym := by
  rw [sidecarInflect] at h
  split at h
  · next hsub =>
    rw [Finset.sdiff_eq_empty_iff_subset] at hsub
    refine ⟨fun sym hsym => hsub (List.mem_toFinset.mpr hsym), fun sym hsym => ?_⟩
    clear hsub
    generalize (∅ : Finset Signature) = start at h
    induction sidecar generalizing start with
    | nil => cases hsym
    | cons first rest ih =>
      obtain ⟨found, hfirst, hrest⟩ := foldlM_cons_ok h
      rcases List.mem_cons.mp hsym with rfl | hsym
      · obtain ⟨edges, hedges, -⟩ := bind_eq_ok hfirst
        rw [metaOf] at hedges
        split at hedges
        · next hmeta => exact Option.isSome_iff_exists.mpr ⟨_, hmeta⟩
        · cases hedges
      · exact ih hsym _ hrest
  · cases h

/-- The sets that contain the sidecars and are closed under the calls that the search
follows. -/
def SidecarClosed (col : Collected) (inVmlinux : Finset Signature) (sidecar : List Signature) :
    Set (Set Signature) :=
  {S | (∀ sym ∈ sidecar, sym ∈ S) ∧ ∀ a ∈ S, ∀ b, SidecarCall col inVmlinux a b → b ∈ S}

/-- Whatever `sidecar_inflect` returns is the least such set. -/
theorem sidecarInflect_isLeast {leftover : Finset Signature}
    (h : sidecarInflect limit col sidecar inVmlinux = .ok leftover) :
    IsLeast (SidecarClosed col inVmlinux sidecar) ↑leftover := by
  obtain ⟨hin, hmeta⟩ := of_sidecarInflect_eq_ok h
  rw [sidecarInflect_eq hin hmeta] at h
  have hleast := dfsAll_isLeast h
  simp only [mem_sidecarSucc] at hleast
  exact hleast

/-- All functions that the search can meet. -/
def sidecarUniverse (col : Collected) (sidecar : List Signature) : Finset Signature :=
  sidecar.toFinset ∪ (col.metas.flatMap fun p => p.2.filterMap LinkedEdge.toSym).toFinset

theorem mem_sidecarUniverse_of_call {a b : Signature} (h : SidecarCall col inVmlinux a b) :
    b ∈ sidecarUniverse col sidecar := by
  obtain ⟨-, ⟨edges, hmeta, edge, hedge, -, hto⟩, -⟩ := h
  obtain ⟨p, hfind, rfl⟩ := Option.map_eq_some_iff.mp hmeta
  refine Finset.mem_union_right _ (List.mem_toFinset.mpr (List.mem_flatMap.mpr ⟨p, ?_, ?_⟩))
  · exact List.mem_reverse.mp (List.mem_of_find?_eq_some hfind)
  · exact List.mem_filterMap.mpr ⟨edge, hedge, hto⟩

/-- A stack for every function is deep enough. -/
theorem exists_dfs_sidecar (inVmlinux : Finset Signature) {sym : Signature}
    (hsym : sym ∈ sidecarUniverse col sidecar)
    (hlimit : (sidecarUniverse col sidecar).card < limit) (leftover : Finset Signature) :
    ∃ leftover', dfs .recursion (sidecarSucc col inVmlinux) limit sym leftover =
      (.ok leftover' : Except Failure _) := by
  refine exists_dfs_eq_ok (V := sidecarUniverse col sidecar) (fun a _ b hb => ?_) hsym ?_
  · exact mem_sidecarUniverse_of_call (mem_sidecarSucc.mp hb)
  · exact lt_of_le_of_lt (Finset.card_le_card Finset.sdiff_subset) hlimit

/-- The first sidecar whose file has no metadata stops the loop. -/
theorem sidecarLoop_keyError {rest : List Signature}
    (hall : ∀ sym ∈ rest, sym ∈ sidecarUniverse col sidecar)
    (hlimit : (sidecarUniverse col sidecar).card < limit)
    (hmiss : ∃ sym ∈ rest, ¬ col.HasMeta sym) (leftover : Finset Signature) :
    ∃ sym ∈ rest, ¬ col.HasMeta sym ∧ rest.foldlM (fun leftover sym => do
        let edges ← metaOf col sym
        sidecarDfs edges inVmlinux limit sym leftover) leftover =
      .error (.keyError (sym.2 ++ ".boundary")) := by
  induction rest generalizing leftover with
  | nil =>
    obtain ⟨sym, hsym, -⟩ := hmiss
    cases hsym
  | cons first rest ih =>
    obtain ⟨hfirst, hrest⟩ := List.forall_mem_cons.mp hall
    rw [List.foldlM_cons]
    by_cases hmeta : col.HasMeta first
    · obtain ⟨found, hfound⟩ := exists_dfs_sidecar inVmlinux hfirst hlimit leftover
      have hmiss' : ∃ sym ∈ rest, ¬ col.HasMeta sym := by
        obtain ⟨sym, hsym, hno⟩ := hmiss
        rcases List.mem_cons.mp hsym with rfl | hsym
        · exact absurd hmeta hno
        · exact ⟨sym, hsym, hno⟩
      obtain ⟨sym, hsym, hno, herror⟩ := ih hrest hmiss' found
      refine ⟨sym, List.mem_cons_of_mem first hsym, hno, ?_⟩
      rw [sidecar_step hmeta, hfound]
      exact herror
    · refine ⟨first, List.mem_cons_self, hmeta, ?_⟩
      have hnone : col.metasByName (first.2 ++ ".boundary") = none := by
        simpa [Collected.HasMeta] using hmeta
      rw [metaOf, hnone]
      rfl

end Sidecar

/-- **What the sidecars need.**  For sidecars in vmlinux whose files have metadata,
`sidecar_inflect` returns the least set that contains them and is closed under callees
of the same file that are absent from vmlinux, provided the stack is deep enough; a
file without metadata stops it.  What it returns depends neither on the order of the
sidecars nor on that of the edges. -/
theorem sidecarInflect_least (col : Collected) (sidecar : List Signature)
    (inVmlinux : Finset Signature) (hin : ∀ sym ∈ sidecar, sym ∈ inVmlinux) :
    (∃ depth, ∀ limit ≥ depth,
      ((∀ sym ∈ sidecar, col.HasMeta sym) → ∃ leftover,
        sidecarInflect limit col sidecar inVmlinux = .ok leftover ∧
          IsLeast (SidecarClosed col inVmlinux sidecar) ↑leftover) ∧
      ((∃ sym ∈ sidecar, ¬ col.HasMeta sym) → ∃ sym ∈ sidecar, ¬ col.HasMeta sym ∧
        sidecarInflect limit col sidecar inVmlinux = .error (.keyError (sym.2 ++ ".boundary")))) ∧
    ∀ (col' : Collected) (sidecar' : List Signature) (limit limit' : ℕ)
      (leftover leftover' : Finset Signature), (∀ sym, sym ∈ sidecar' ↔ sym ∈ sidecar) →
      (∀ a b, SidecarCall col' inVmlinux a b ↔ SidecarCall col inVmlinux a b) →
      sidecarInflect limit col sidecar inVmlinux = .ok leftover →
      sidecarInflect limit' col' sidecar' inVmlinux = .ok leftover' → leftover' = leftover := by
  have huniverse : ∀ sym ∈ sidecar, sym ∈ sidecarUniverse col sidecar := fun sym hsym =>
    Finset.mem_union_left _ (List.mem_toFinset.mpr hsym)
  refine ⟨⟨(sidecarUniverse col sidecar).card + 1, fun limit hlimit => ⟨fun hmeta => ?_,
    fun hmiss => ?_⟩⟩, fun col' sidecar' limit limit' leftover leftover' hsame hcalls h h' => ?_⟩
  · have hok : ∃ leftover, sidecarInflect limit col sidecar inVmlinux = .ok leftover := by
      rw [sidecarInflect_eq hin hmeta]
      refine exists_dfsAll_eq_ok (V := sidecarUniverse col sidecar) (fun a _ b hb => ?_)
        huniverse ?_
      · exact mem_sidecarUniverse_of_call (mem_sidecarSucc.mp hb)
      · exact lt_of_le_of_lt (Finset.card_le_card Finset.sdiff_subset) hlimit
    obtain ⟨leftover, h⟩ := hok
    exact ⟨leftover, h, sidecarInflect_isLeast h⟩
  · rw [sidecarInflect, if_pos (sidecar_sdiff_eq_empty hin)]
    exact sidecarLoop_keyError huniverse hlimit hmiss ∅
  · -- both are the least set of the same family
    have hfamily : SidecarClosed col' inVmlinux sidecar' = SidecarClosed col inVmlinux sidecar := by
      unfold SidecarClosed
      simp only [hsame, hcalls]
    have hleast := sidecarInflect_isLeast h
    have hleast' := sidecarInflect_isLeast h'
    rw [hfamily] at hleast'
    exact Finset.coe_injective
      (Set.Subset.antisymm (hleast'.2 hleast.1) (hleast.2 hleast'.1))

/-- The sidecars `cpuusage_write` and `kthread_bind` of two files; the inline functions
`cpuusage_sum` and `cpuusage_reset` call each other. -/
def twoSidecarMetas : List Meta :=
  [ { path := "kernel/sched/cpuacct.c.boundary"
      fn := [plainFn "cpuusage_write" "kernel/sched/cpuacct.c",
        plainFn "cpuusage_sum" "kernel/sched/cpuacct.c",
        plainFn "cpuusage_reset" "kernel/sched/cpuacct.c"]
      edge := [⟨("cpuusage_write", "kernel/sched/cpuacct.c"),
          ("cpuusage_sum", "kernel/sched/cpuacct.c")⟩,
        ⟨("cpuusage_sum", "kernel/sched/cpuacct.c"),
          ("cpuusage_reset", "kernel/sched/cpuacct.c")⟩,
        ⟨("cpuusage_reset", "kernel/sched/cpuacct.c"),
          ("cpuusage_sum", "kernel/sched/cpuacct.c")⟩]
      callback := []
      interface := [] },
    { path := "kernel/kthread.c.boundary"
      fn := [plainFn "kthread_bind" "kernel/kthread.c"]
      edge := []
      callback := []
      interface := [] } ]

def twoSidecarConfig : Config where
  modFiles := ["kernel/sched/core.c"]
  sidecar := [("cpuusage_write", "kernel/sched/cpuacct.c"), ("kthread_bind", "kernel/kthread.c")]

/-- The inline functions are kept, in whatever order the sidecars are visited. -/
theorem sidecarInflect_least_two :
    ∃ depth, ∀ limit ≥ depth, ∃ leftover,
      sidecarInflect limit (collected twoSidecarConfig twoSidecarMetas) twoSidecarConfig.sidecar
          twoSidecarConfig.sidecar.toFinset = .ok leftover ∧
        sidecarInflect 4 (collected twoSidecarConfig twoSidecarMetas)
          twoSidecarConfig.sidecar.reverse twoSidecarConfig.sidecar.toFinset = .ok leftover ∧
        IsLeast (SidecarClosed (collected twoSidecarConfig twoSidecarMetas)
          twoSidecarConfig.sidecar.toFinset twoSidecarConfig.sidecar) ↑leftover := by
  obtain ⟨⟨depth, hdepth⟩, horder⟩ := sidecarInflect_least
    (collected twoSidecarConfig twoSidecarMetas) twoSidecarConfig.sidecar
    twoSidecarConfig.sidecar.toFinset (by decide)
  refine ⟨depth, fun limit hlimit => ?_⟩
  obtain ⟨leftover, h, hleast⟩ := (hdepth limit hlimit).1 (by decide)
  refine ⟨leftover, h, ?_, hleast⟩
  rw [← horder _ twoSidecarConfig.sidecar.reverse limit 4 leftover _
    (fun sym => List.mem_reverse) (fun _ _ => Iff.rfl) h rfl]
  rfl

/-- `cpuset.c` includes the source file `cpuset-v1.c`, which therefore has no metadata
of its own. -/
def includedMetas : List Meta :=
  [ { path := "kernel/cgroup/cpuset.c.boundary"
      fn := [plainFn "cpuset_write_u64" "kernel/cgroup/cpuset-v1.c"]
      edge := []
      callback := []
      interface := [] } ]

def includedConfig : Config where
  modFiles := ["kernel/sched/core.c"]
  sidecar := [("cpuset_write_u64", "kernel/cgroup/cpuset-v1.c")]

def includedLines : List (List String) :=
  [[], [], [], elfRow "FILE" "LOCAL" "cpuset.c", elfRow "FUNC" "GLOBAL" "cpuset_write_u64"]

/-- The sidecar is in vmlinux, but `sidecar_inflect` stops with a `KeyError`. -/
theorem included_sidecar_keyError :
    ∃ info, findInVmlinux includedConfig (collected includedConfig includedMetas).fn
        includedLines = .ok info ∧
      (∀ sym ∈ includedConfig.sidecar, sym ∈ info.inVmlinux) ∧
      ∀ limit, sidecarInflect limit (collected includedConfig includedMetas)
        includedConfig.sidecar info.inVmlinux =
          .error (.keyError "kernel/cgroup/cpuset-v1.c.boundary") := by
  refine ⟨_, rfl, by decide, fun limit => ?_⟩
  rfl

end Plugsched
