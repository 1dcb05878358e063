/-
`undefined_functions.h`, and the functions that the extracted code leaves to
vmlinux.

`extract.py` turns the definition of a function that stays in the kernel into
an extern declaration.  The resolver binds such a name by the table, in which
`analyze.py` lists the symbol positions of the functions it calls `und`.

* `mem_undefinedFunctions` — the entries of the table;
* `tableFits_iff` — when they are complete and unambiguous;
* `symposes_eq` — the resolver then reads the position of every function needed.
-/
import Plugsched.RedirectedCopies

namespace Plugsched

/-! ### The table -/

/-- The lines of `undefined_functions.h`. -/
def FuncClass.undefinedFunctions (fc : FuncClass) : Finset (String × ℕ) :=
  fc.und.image fun fn => (fn.1, fc.sympos fn)

/-- The map that the resolver makes of them, in the order of the file: of several entries
for a name the first counts. -/
def symposes (entries : List (String × ℕ)) (name : String) : Option ℕ :=
  (entries.find? (·.1 == name)).map Prod.snd

/-! ### Extraction -/

/-- `self.meta_fn`: the headers of the module share one file. -/
def metaFn (config : Config) (metas : List Meta) (srcFile : String) : Option (List FnProp) :=
  if srcFile ∈ config.modFiles ∧ endsWith srcFile ".c" = false then
    some ((metas.flatMap Meta.fn).filter (·.file ∈ config.modHdrs))
  else
    (metas.reverse.find? (·.path == srcFile ++ ".boundary")).map Meta.fn

/-- The lists of `function_location`. -/
inductive Location where
  | fn | callback | interface | sidecar
  deriving DecidableEq

/-- The list that a function goes to. -/
def location (fc : FuncClass) (obj : Signature) : Option Location :=
  if obj ∈ fc.init then none
  else if obj ∈ fc.schedOutsider ∨ obj ∈ fc.sdcrOut then some .fn
  else if obj ∈ fc.callback then some .callback
  else if obj ∈ fc.interface then some .interface
  else if obj ∈ fc.sidecar then some .sidecar
  else none

/-- The loop of `function_location`; `unique` are the functions seen so far. -/
def functionLocation (fc : FuncClass) (srcFile : String) :
    Finset Signature → List FnProp → List (Location × FnProp)
  | _, [] => []
  | unique, fn :: metaFn =>
    if fn.file ≠ srcFile then functionLocation fc srcFile unique metaFn
    else if fn.signature ∈ unique then functionLocation fc srcFile unique metaFn
    else
      let rest := functionLocation fc srcFile (insert fn.signature unique) metaFn
      match location fc fn.signature with
      | some loc => (loc, fn) :: rest
      | none => rest

/-- The functions whose body `function_extract` cuts away. -/
def cutBodies (fc : FuncClass) (srcFile : String) (metaFn : List FnProp) : List Signature :=
  (functionLocation fc srcFile ∅ metaFn).filterMap fun (loc, fn) =>
    if loc = .fn ∧ fn.signature ∉ fc.outsiderOpt then some fn.signature else none

/-- The functions that become extern declarations in the extracted files. -/
def replaced (config : Config) (metas : List Meta) (fc : FuncClass) : Finset Signature :=
  ((config.modFiles ++ config.sdcrSrcs).flatMap fun srcFile =>
    (metaFn config metas srcFile).elim [] (cutBodies fc srcFile)).toFinset

/-- The functions of vmlinux that the module refers to by name. -/
def required (config : Config) (metas : List Meta) (fc : FuncClass) : Finset Signature :=
  replaced config metas fc ∪ fc.redirected

/-- A cut function was located as one that stays in the kernel. -/
theorem location_of_mem {fc : FuncClass} {srcFile : String} {metaFn : List FnProp}
    {unique : Finset Signature} {loc : Location} {fn : FnProp}
    (h : (loc, fn) ∈ functionLocation fc srcFile unique metaFn) :
    location fc fn.signature = some loc := by
  induction metaFn generalizing unique with
  | nil => cases h
  | cons fn' metaFn ih =>
    rw [functionLocation] at h
    split at h
    · exact ih h
    · split at h
      · exact ih h
      · dsimp only at h
        split at h
        · next loc' hloc =>
          rcases List.mem_cons.mp h with heq | h
          · cases heq
            exact hloc
          · exact ih h
        · exact ih h

theorem of_mem_replaced {config : Config} {metas : List Meta} {fc : FuncClass} {sig : Signature}
    (h : sig ∈ replaced config metas fc) :
    sig ∉ fc.init ∧ (sig ∈ fc.schedOutsider ∨ sig ∈ fc.sdcrOut) ∧ sig ∉ fc.outsiderOpt := by
  obtain ⟨srcFile, -, hcut⟩ := List.mem_flatMap.mp (List.mem_toFinset.mp h)
  cases hmeta : metaFn config metas srcFile with
  | none =>
    rw [hmeta] at hcut
    cases hcut
  | some fns =>
    rw [hmeta] at hcut
    obtain ⟨⟨loc, fn⟩, hmem, hcond⟩ := List.mem_filterMap.mp hcut
    dsimp only at hcond
    split at hcond
    · next hand =>
      cases hcond
      have hloc := location_of_mem hmem
      rw [hand.1, location] at hloc
      split at hloc
      · cases hloc
      · next hinit =>
        split at hloc
        · next hstays => exact ⟨hinit, hstays, hand.2⟩
        · split at hloc
          · cases hloc
          · split at hloc
            · cases hloc
            · split at hloc <;> cases hloc
    · cases hcond

/-! ### Completeness -/

/-- Some definition of the function is public. -/
def IsGlobal (metas : List Meta) (sig : Signature) : Prop :=
  ∃ fn ∈ metas.flatMap Meta.fn, fn.signature = sig ∧ fn.isPublic = true

/-- The position belongs to this very function: it was found for it, or it is 0 and the
function global. -/
def PositionOf (metas : List Meta) (fc : FuncClass) (sig : Signature) (pos : ℕ) : Prop :=
  fc.localSympos sig = some pos ∨ fc.localSympos sig = none ∧ IsGlobal metas sig ∧ pos = 0

/-- The table has entries for all functions that the module needs, and only the right
ones. -/
structure CompleteTable (config : Config) (metas : List Meta) (fc : FuncClass) : Prop where
  entry : ∀ sig ∈ required config metas fc, ∃ pos, (sig.1, pos) ∈ fc.undefinedFunctions
  right : ∀ sig ∈ required config metas fc, ∀ pos, (sig.1, pos) ∈ fc.undefinedFunctions →
    PositionOf metas fc sig pos

/-- The module functions that stay in vmlinux and the redirected ones. -/
def FuncClass.listed (fc : FuncClass) : Finset Signature :=
  fc.schedOutsider \ fc.outsiderOpt ∪ fc.border ∪ fc.sidecar

/-- A function of a sidecar file that is replaced and no module function has a namesake
among those that are listed.  A listed namesake of a function that the module needs is
this function, or neither has a position; a needed function without one is global. -/
structure TableFits (config : Config) (metas : List Meta) (fc : FuncClass) : Prop where
  sidecarFile : ∀ sig ∈ replaced config metas fc, sig ∉ fc.schedOutsider →
    ∃ sig' ∈ fc.listed, sig'.1 = sig.1
  namesakes : ∀ sig ∈ required config metas fc, ∀ sig' ∈ fc.listed, sig'.1 = sig.1 →
    sig' ≠ sig → fc.localSympos sig = none ∧ fc.localSympos sig' = none
  static : ∀ sig ∈ required config metas fc, fc.localSympos sig = none → IsGlobal metas sig

section Table

variable {config : Config} {limit : ℕ} {metas : List Meta} {lines : List (List String)}
  {fc : FuncClass} {sig : Signature}

/-- The entries of the table. -/
theorem mem_undefinedFunctions (h : Accepts config limit metas lines fc) {name : String}
    {pos : ℕ} : (name, pos) ∈ fc.undefinedFunctions ↔
      ∃ sig ∈ fc.listed, sig.1 = name ∧ fc.sympos sig = pos := by
  obtain ⟨info, -, hclass⟩ := analyze_ok h.analyzed
  have hund : fc.und = fc.listed := by
    obtain ⟨_, rfl⟩ := funcClassArithmetics_ok hclass
    rfl
  rw [FuncClass.undefinedFunctions, hund, Finset.mem_image]
  simp only [Prod.mk.injEq]

/-- The position of a function is the only one that can be right for it. -/
theorem sympos_of_positionOf {pos : ℕ} (h : PositionOf metas fc sig pos) :
    fc.sympos sig = pos := by
  rw [FuncClass.sympos]
  rcases h with hsome | ⟨hnone, -, rfl⟩
  · rw [hsome, Option.getD_some]
  · rw [hnone, Option.getD_none]

/-- Namesakes have the same position only where none of them is counted. -/
theorem sympos_eq_iff (h : Accepts config limit metas lines fc) {sig' : Signature}
    (hname : sig'.1 = sig.1) (hne : sig' ≠ sig) :
    fc.sympos sig' = fc.sympos sig ↔ fc.localSympos sig = none ∧ fc.localSympos sig' = none := by
  obtain ⟨info, hinfo, hpos⟩ := accepts_class h
  obtain ⟨hcount, hinj⟩ := findInVmlinux_numbered hinfo
  rw [FuncClass.sympos, FuncClass.sympos, hpos]
  constructor
  · intro heq
    cases hsig : info.localSympos sig with
    | none =>
      refine ⟨rfl, ?_⟩
      cases hsig' : info.localSympos sig' with
      | none => rfl
      | some k =>
        -- a position is not 0
        rw [hsig, hsig', Option.getD_some, Option.getD_none] at heq
        exact absurd (hcount sig' k hsig') (by omega)
    | some k =>
      refine absurd ?_ hne
      cases hsig' : info.localSympos sig' with
      | none =>
        rw [hsig, hsig', Option.getD_some, Option.getD_none] at heq
        exact absurd (hcount sig k hsig) (by omega)
      | some k' =>
        rw [hsig, hsig', Option.getD_some, Option.getD_some] at heq
        rw [heq] at hsig'
        exact hinj sig' sig k hname hsig' hsig
  · rintro ⟨hsig, hsig'⟩
    rw [hsig, hsig']

/-- What the module needs is listed, or replaced in a sidecar file. -/
theorem listed_or_replaced (h : Accepts config limit metas lines fc)
    (hsig : sig ∈ required config metas fc) :
    sig ∈ fc.listed ∨ sig ∈ replaced config metas fc ∧ sig ∉ fc.schedOutsider := by
  obtain ⟨info, -, hclass⟩ := analyze_ok h.analyzed
  rcases Finset.mem_union.mp hsig with hrep | hred
  · by_cases hout : sig ∈ fc.schedOutsider
    · have hstays := Finset.mem_sdiff.mpr ⟨hout, (of_mem_replaced hrep).2.2⟩
      exact .inl (Finset.mem_union_left _ (Finset.mem_union_left _ hstays))
    · exact .inr ⟨hrep, hout⟩
  · rw [redirected_eq hclass, Finset.mem_union] at hred
    rcases hred with hborder | hsidecar
    · exact .inl (Finset.mem_union_left _ (Finset.mem_union_right _ hborder))
    · exact .inl (Finset.mem_union_right _ hsidecar)

/-- The resolver reads the position of each function that the module needs. -/
theorem symposes_eq (hcomplete : CompleteTable config metas fc) {entries : List (String × ℕ)}
    (hentries : ∀ e, e ∈ entries ↔ e ∈ fc.undefinedFunctions)
    (hsig : sig ∈ required config metas fc) :
    symposes entries sig.1 = some (fc.sympos sig) := by
  obtain ⟨pos, hpos⟩ := hcomplete.entry sig hsig
  rw [symposes]
  cases hfind : entries.find? (·.1 == sig.1) with
  | none =>
    have hno := List.find?_eq_none.mp hfind (sig.1, pos) ((hentries _).mpr hpos)
    simp at hno
  | some e =>
    obtain ⟨name, pos'⟩ := e
    have hname : name = sig.1 := by simpa using List.find?_some hfind
    have hmem := (hentries _).mp (List.mem_of_find?_eq_some hfind)
    rw [hname] at hmem
    rw [sympos_of_positionOf (hcomplete.right sig hsig pos' hmem)]
    rfl

end Table

/-- **The table of undefined functions.**  It is complete and unambiguous exactly if
functions left behind in sidecar files have a listed namesake, and no needed function
with a listed namesake in another file is counted. -/
theorem tableFits_iff (config : Config) (limit : ℕ) (metas : List Meta)
    (lines : List (List String)) (fc : FuncClass) (h : Accepts config limit metas lines fc) :
    CompleteTable config metas fc ↔ TableFits config metas fc := by
  constructor
  · intro hcomplete
    refine ⟨fun sig hrep _ => ?_, fun sig hsig sig' hsig' hname hne => ?_,
      fun sig hsig hnone => ?_⟩
    · obtain ⟨pos, hpos⟩ := hcomplete.entry sig (Finset.mem_union_left _ hrep)
      obtain ⟨sig', hsig', hname, -⟩ := (mem_undefinedFunctions h).mp hpos
      exact ⟨sig', hsig', hname⟩
    · have hentry := (mem_undefinedFunctions h).mpr ⟨sig', hsig', hname, rfl⟩
      exact (sympos_eq_iff h hname hne).mp
        (sympos_of_positionOf (hcomplete.right sig hsig _ hentry)).symm
    · obtain ⟨pos, hpos⟩ := hcomplete.entry sig hsig
      rcases hcomplete.right sig hsig pos hpos with hsome | ⟨-, hglobal, -⟩
      · rw [hnone] at hsome
        cases hsome
      · exact hglobal
  · intro hfits
    refine ⟨fun sig hsig => ?_, fun sig hsig pos hpos => ?_⟩
    · have hnamed : ∃ sig' ∈ fc.listed, sig'.1 = sig.1 := by
        rcases listed_or_replaced h hsig with hlisted | ⟨hrep, hout⟩
        · exact ⟨sig, hlisted, rfl⟩
        · exact hfits.sidecarFile sig hrep hout
      obtain ⟨sig', hsig', hname⟩ := hnamed
      exact ⟨_, (mem_undefinedFunctions h).mpr ⟨sig', hsig', hname, rfl⟩⟩
    · obtain ⟨sig', hsig', hname, rfl⟩ := (mem_undefinedFunctions h).mp hpos
      have hsame : fc.sympos sig' = fc.sympos sig := by
        by_cases heq : sig' = sig
        · rw [heq]
        · exact (sympos_eq_iff h hname heq).mpr (hfits.namesakes sig hsig sig' hsig' hname heq)
      rw [hsame]
      cases hlocal : fc.localSympos sig with
      | some k => exact .inl (by rw [FuncClass.sympos, hlocal]; rfl)
      | none =>
        exact .inr ⟨hlocal, hfits.static sig hsig hlocal, by rw [FuncClass.sympos, hlocal]; rfl⟩

/-- The lines of a vmlinux without clones for `clonedMetas`. -/
def plainLines : List (List String) :=
  [[], [], [], elfRow "FILE" "LOCAL" "core.c", elfRow "FUNC" "LOCAL" "pick_next",
    elfRow "FUNC" "GLOBAL" "schedule", elfRow "FUNC" "GLOBAL" "sched_show",
    elfRow "FUNC" "GLOBAL" "do_exit"]

def plainClass : FuncClass :=
  ((analyze smallConfig 1000 clonedMetas plainLines).toOption).getD smallClass

/-- `sched_show` stays in vmlinux, `schedule` is redirected; both are listed. -/
theorem tableFits_iff_plain :
    replaced smallConfig clonedMetas plainClass = {("sched_show", "kernel/sched/core.c")} ∧
      CompleteTable smallConfig clonedMetas plainClass := by
  have haccepts : Accepts smallConfig 1000 clonedMetas plainLines plainClass :=
    { analyzed := rfl
      checked := by decide
      callbacks := ⟨[], by decide, by decide, _, rfl⟩
      interfaces := ⟨[("schedule", "kernel/sched/core.c")], by decide, by decide, _, rfl⟩
      sidecars := ⟨[], by decide, by decide, _, rfl⟩ }
  refine ⟨by decide, (tableFits_iff smallConfig 1000 clonedMetas plainLines plainClass
    haccepts).mpr ⟨by decide, by decide, ?_⟩⟩
  unfold IsGlobal
  decide

/-- The sidecar function `cpuusage_write` calls the static function `cpuacct_write`, which
vmlinux has. -/
def leftMetas : List Meta :=
  [ { path := "kernel/sched/core.c.boundary"
      fn := [plainFn "schedule" "kernel/sched/core.c"]
      edge := []
      callback := []
      interface := [("schedule", "kernel/sched/core.c")] },
    { path := "kernel/sched/cpuacct.c.boundary"
      fn := [plainFn "cpuusage_write" "kernel/sched/cpuacct.c",
        { plainFn "cpuacct_write" "kernel/sched/cpuacct.c" with isPublic := false }]
      edge := [⟨("cpuusage_write", "kernel/sched/cpuacct.c"),
        ("cpuacct_write", "kernel/sched/cpuacct.c")⟩]
      callback := []
      interface := [] } ]

/-- Another file has a `cpuacct_write` of its own. -/
def leftLines : List (List String) :=
  [[], [], [], elfRow "FILE" "LOCAL" "memcontrol.c", elfRow "FUNC" "LOCAL" "cpuacct_write",
    elfRow "FILE" "LOCAL" "cpuacct.c", elfRow "FUNC" "LOCAL" "cpuacct_write",
    elfRow "FUNC" "GLOBAL" "cpuusage_write", elfRow "FUNC" "GLOBAL" "schedule"]

def leftClass : FuncClass :=
  ((analyze cpuacctConfig 1000 leftMetas leftLines).toOption).getD smallClass

/-- The body of `cpuacct_write` is replaced by a declaration, but the table does not know
the name: the resolver takes it for a global function and finds two symbols. -/
theorem sidecar_function_not_listed :
    Accepts cpuacctConfig 1000 leftMetas leftLines leftClass ∧
      ("cpuacct_write", "kernel/sched/cpuacct.c") ∈ replaced cpuacctConfig leftMetas leftClass ∧
      leftClass.localSympos ("cpuacct_write", "kernel/sched/cpuacct.c") = some 2 ∧
      leftClass.undefinedFunctions = {("schedule", 0), ("cpuusage_write", 0)} ∧
      ¬ CompleteTable cpuacctConfig leftMetas leftClass := by
  have hlocal : leftClass.localSympos ("cpuacct_write", "kernel/sched/cpuacct.c") = some 2 := by
    decide
  have htable : leftClass.undefinedFunctions = {("schedule", 0), ("cpuusage_write", 0)} := by
    decide
  have hrep : ("cpuacct_write", "kernel/sched/cpuacct.c") ∈
      replaced cpuacctConfig leftMetas leftClass := by decide
  refine ⟨?_, hrep, hlocal, htable, fun hcomplete => ?_⟩
  · exact
      { analyzed := rfl
        checked := by decide
        callbacks := ⟨[], by decide, by decide, _, rfl⟩
        interfaces := ⟨[("schedule", "kernel/sched/core.c")], by decide, by decide, _, rfl⟩
        sidecars := ⟨[("cpuusage_write", "kernel/sched/cpuacct.c")], by decide, by decide, _, rfl⟩ }
  · obtain ⟨pos, hpos⟩ := hcomplete.entry _ (Finset.mem_union_left _ hrep)
    rw [htable] at hpos
    simp at hpos

end Plugsched
