/-
The files of the scheduler in procfs, debugfs and sysctl.

An install replaces these files by files that the module serves, a restore by files that the
kernel serves.  The old file is removed before the new one is created, which may fail; nobody
looks at the result.  `find_dentry` does not look at that of `kern_path` either, so when the
path leads nowhere (there is no `sched_features`, or debugfs is not mounted) it returns what the
stack happens to hold.  What `debugfs_remove` does with that, C does not say: the files are
then `wild`, and nothing is said about them any more.

* `Provided` — every file that is there is served by the given side;
* `installFiles_provided`, `restoreFiles_provided` — who serves the files afterwards, unless
  they are wild;
* `installFiles_eq`, `restoreFiles_eq` — what an install and a restore leave of the files.
-/
import Plugsched.SyncSched

namespace Plugsched

/-- Whose code serves a file. -/
inductive Provider where
  | orig | mod
  deriving DecidableEq

/-- The two files of procfs. -/
inductive ProcName where
  | schedDebug | schedstat
  deriving DecidableEq

/-- A `struct dentry *`: that of a file, `NULL` or an error value, or an uninitialised one. -/
inductive DentryPtr where
  | dentry (d : ℕ)
  | isErrOrNull
  | garbage
  deriving DecidableEq

/-- `CONFIG_SCHEDSTATS` and `CONFIG_SCHED_DEBUG`. -/
structure SchedConfig where
  schedstats : Bool
  schedDebug : Bool

/-- Whether creating the files of procfs and `sched_features` succeeds, and whether
`kern_path` gets to the root of debugfs under the name /sys/kernel/debug. -/
structure FileAnswers where
  proc : ProcName → Bool
  features : Bool
  lookup : Bool

/-- The files, and what main.c keeps of them.  `wild` says that `debugfs_remove` was called
on a pointer to no file.  From then on anything may be anywhere, and the other fields are left
as they were only because they have to be something. -/
structure SchedFiles where
  proc : ProcName → Option Provider
  features : Option (ℕ × Provider)
  nextDentry : ℕ
  featuresDir : DentryPtr
  sysctl : Finset Provider
  wild : Bool

/-! ### The functions of main.c -/

/-- `remove_proc_entry` and `proc_create_seq`, as the four functions for procfs call them. -/
def recreateProc (name : ProcName) (p : Provider) (created : Bool) (f : SchedFiles) :
    ℤ × SchedFiles :=
  let f := { f with proc := Function.update f.proc name none }
  if created then (0, { f with proc := Function.update f.proc name (some p) })
  else (-ENOMEM, f)

/-- `install_sched_debug_procfs`. -/
def installSchedDebugProcfs (created : Bool) (f : SchedFiles) : ℤ × SchedFiles :=
  recreateProc .schedDebug .mod created f

/-- `restore_sched_debug_procfs`. -/
def restoreSchedDebugProcfs (created : Bool) (f : SchedFiles) : ℤ × SchedFiles :=
  recreateProc .schedDebug .orig created f

/-- `install_proc_schedstat`. -/
def installProcSchedstat (created : Bool) (f : SchedFiles) : ℤ × SchedFiles :=
  recreateProc .schedstat .mod created f

/-- `restore_proc_schedstat`. -/
def restoreProcSchedstat (created : Bool) (f : SchedFiles) : ℤ × SchedFiles :=
  recreateProc .schedstat .orig created f

/-- `find_dentry("/sys/kernel/debug/sched_features")`. -/
def findDentry (lookup : Bool) (f : SchedFiles) : DentryPtr :=
  match f.features with
  | some (d, _) => if lookup then .dentry d else .garbage
  | none => .garbage

/-- `debugfs_remove`, unless it is undefined. -/
def debugfsRemove (ptr : DentryPtr) (f : SchedFiles) : Option SchedFiles :=
  match ptr with
  | .isErrOrNull => some f
  | .garbage => none
  | .dentry d =>
    if f.features.map Prod.fst = some d then some { f with features := none } else none

/-- `debugfs_create_file` for `sched_features`, which fails while there is such a file. -/
def debugfsCreateFile (p : Provider) (created : Bool) (f : SchedFiles) : DentryPtr × SchedFiles :=
  if created && f.features.isNone then
    (.dentry f.nextDentry,
      { f with features := some (f.nextDentry, p), nextDentry := f.nextDentry + 1 })
  else (.isErrOrNull, f)

/-- `install_sched_debugfs`. -/
def installSchedDebugfs (lookup created : Bool) (f : SchedFiles) : SchedFiles :=
  match debugfsRemove (findDentry lookup f) f with
  | none => { f with wild := true }
  | some f =>
    let r := debugfsCreateFile .mod created f
    { r.2 with featuresDir := r.1 }

/-- `restore_sched_debugfs`. -/
def restoreSchedDebugfs (created : Bool) (f : SchedFiles) : SchedFiles :=
  match debugfsRemove f.featuresDir f with
  | none => { f with wild := true }
  | some f => (debugfsCreateFile .orig created f).2

/-- `install_sched_domain_sysctl`: the kernel's table goes, that of the module comes. -/
def installSchedDomainSysctl (f : SchedFiles) : SchedFiles :=
  { f with sysctl := insert .mod (f.sysctl.erase .orig) }

/-- `restore_sched_domain_sysctl`. -/
def restoreSchedDomainSysctl (f : SchedFiles) : SchedFiles :=
  { f with sysctl := insert .orig (f.sysctl.erase .mod) }

/-- What `load_sched_routine` does to the files after a successful install. -/
def installFiles (c : SchedConfig) (a : FileAnswers) (f : SchedFiles) : SchedFiles :=
  let f := if c.schedstats then (installProcSchedstat (a.proc .schedstat) f).2 else f
  if c.schedDebug then
    let f := installSchedDomainSysctl f
    let f := (installSchedDebugProcfs (a.proc .schedDebug) f).2
    installSchedDebugfs a.lookup a.features f
  else f

/-- What `unload_sched_routine` does to the files after a successful restore. -/
def restoreFiles (c : SchedConfig) (a : FileAnswers) (f : SchedFiles) : SchedFiles :=
  let f := if c.schedstats then (restoreProcSchedstat (a.proc .schedstat) f).2 else f
  if c.schedDebug then
    let f := restoreSchedDomainSysctl f
    let f := (restoreSchedDebugProcfs (a.proc .schedDebug) f).2
    restoreSchedDebugfs a.features f
  else f

/-! ### Who serves the files -/

variable {c : SchedConfig} {a : FileAnswers} {p q : Provider} {f : SchedFiles}

/-- The configuration option that a file of procfs depends on. -/
def SchedConfig.has (c : SchedConfig) : ProcName → Bool
  | .schedDebug => c.schedDebug
  | .schedstat => c.schedstats

/-- An update hands over to `p` only what the configuration has. -/
def Provider.when (p : Provider) (has : Bool) : Provider := if has then p else .orig

@[simp] theorem Provider.when_true (p : Provider) : p.when true = p := rfl

@[simp] theorem Provider.when_false (p : Provider) : p.when false = .orig := rfl

/-- Every file that is there is served by `p`, and so is the table in sysctl. -/
structure Provided (c : SchedConfig) (p : Provider) (f : SchedFiles) : Prop where
  proc : ∀ name q, f.proc name = some q → q = p.when (c.has name)
  features : ∀ d q, f.features = some (d, q) → q = p.when c.schedDebug
  sysctl : ∀ q ∈ f.sysctl, q = p.when c.schedDebug
  table : c.schedDebug = true → p ∈ f.sysctl

theorem Provided.setDir (h : Provided c p f) (dir : DentryPtr) :
    Provided c p { f with featuresDir := dir } :=
  ⟨h.proc, h.features, h.sysctl, h.table⟩

/-- `sched_features_dir` points to `sched_features`. -/
def Pointing (f : SchedFiles) : Prop :=
  f.featuresDir = match f.features with
    | some (d, _) => .dentry d
    | none => .isErrOrNull

theorem recreateProc_snd (name : ProcName) (p : Provider) (created : Bool) (f : SchedFiles) :
    (recreateProc name p created f).2 =
      { f with proc := Function.update f.proc name (if created then some p else none) } := by
  cases created with
  | true => simp [recreateProc]
  | false => simp [recreateProc]

/-- The path leads to a dentry only if it can be followed to an existing file. -/
theorem debugfsRemove_findDentry (lookup : Bool) (f : SchedFiles) :
    debugfsRemove (findDentry lookup f) f =
      if lookup && f.features.isSome then some { f with features := none } else none := by
  rcases f with ⟨proc, _ | ⟨d, q⟩, next, dir, sysctl, wild⟩
  · simp [findDentry, debugfsRemove]
  · cases lookup <;> simp [findDentry, debugfsRemove]

theorem debugfsRemove_pointing (h : Pointing f) :
    debugfsRemove f.featuresDir f = some { f with features := none } := by
  rw [Pointing] at h
  cases hf : f.features with
  | none =>
    rw [hf] at h
    calc debugfsRemove f.featuresDir f = debugfsRemove .isErrOrNull f := by rw [h]
      _ = some f := rfl
      _ = some { f with features := none } := by rw [← hf]
  | some file =>
    rw [hf] at h
    calc debugfsRemove f.featuresDir f = debugfsRemove (.dentry file.1) f := by rw [h]
      _ = some { f with features := none } := by
        rw [debugfsRemove, if_pos (by rw [hf]; rfl)]

theorem installSchedDebugfs_eq (lookup created : Bool) (f : SchedFiles) :
    installSchedDebugfs lookup created f =
      if lookup && f.features.isSome then
        { f with
          features := if created then some (f.nextDentry, .mod) else none
          nextDentry := if created then f.nextDentry + 1 else f.nextDentry
          featuresDir := if created then .dentry f.nextDentry else .isErrOrNull }
      else { f with wild := true } := by
  rw [installSchedDebugfs, debugfsRemove_findDentry]
  cases hfound : lookup && f.features.isSome with
  | false => simp
  | true => cases created <;> simp [debugfsCreateFile]

theorem restoreSchedDebugfs_eq (h : Pointing f) (created : Bool) :
    restoreSchedDebugfs created f =
      { f with
        features := if created then some (f.nextDentry, .orig) else none
        nextDentry := if created then f.nextDentry + 1 else f.nextDentry } := by
  rw [restoreSchedDebugfs, debugfsRemove_pointing h]
  cases created <;> simp [debugfsCreateFile]

theorem debugfsRemove_wild {ptr : DentryPtr} {f' : SchedFiles}
    (h : debugfsRemove ptr f = some f') : f'.wild = f.wild := by
  unfold debugfsRemove at h
  split at h
  · cases h
    rfl
  · cases h
  · split at h
    · cases h
      rfl
    · cases h

/-- What is wild stays wild. -/
theorem restoreSchedDebugfs_wild {created : Bool}
    (h : (restoreSchedDebugfs created f).wild = false) : f.wild = false := by
  have hcreate : ∀ f' : SchedFiles, (debugfsCreateFile .orig created f').2.wild = f'.wild := by
    intro f'
    rw [debugfsCreateFile]
    split <;> rfl
  rw [restoreSchedDebugfs] at h
  split at h
  · cases h
  · next f' hremove =>
    rw [hcreate, debugfsRemove_wild hremove] at h
    exact h

/-! ### The two updates -/

/-- What becomes of procfs when it is handed over to `p`. -/
def handedOver (c : SchedConfig) (p : Provider) (a : FileAnswers)
    (proc : ProcName → Option Provider) (name : ProcName) : Option Provider :=
  if c.has name then if a.proc name then some p else none else proc name

theorem update_handedOver (c : SchedConfig) (p : Provider) (a : FileAnswers)
    (proc : ProcName → Option Provider) :
    let stat := if c.schedstats then
      Function.update proc .schedstat (if a.proc .schedstat then some p else none) else proc
    handedOver c p a proc = if c.schedDebug then
      Function.update stat .schedDebug (if a.proc .schedDebug then some p else none) else stat := by
  intro stat
  funext name
  cases name with
  | schedDebug =>
    cases hd : c.schedDebug <;> cases hs : c.schedstats <;>
      simp [stat, handedOver, SchedConfig.has, hd, hs]
  | schedstat =>
    cases c.schedDebug <;> cases hs : c.schedstats <;>
      simp [stat, handedOver, SchedConfig.has, hs]

/-- The path of `sched_features` leads to the file that is there. -/
def found (a : FileAnswers) (f : SchedFiles) : Bool := a.lookup && f.features.isSome

/-- What a load leaves of the files. -/
theorem installFiles_eq (c : SchedConfig) (a : FileAnswers) (f : SchedFiles) :
    installFiles c a f =
      if c.schedDebug then
        if found a f then
          { proc := handedOver c .mod a f.proc
            features := if a.features then some (f.nextDentry, .mod) else none
            nextDentry := if a.features then f.nextDentry + 1 else f.nextDentry
            featuresDir := if a.features then .dentry f.nextDentry else .isErrOrNull
            sysctl := insert .mod (f.sysctl.erase .orig)
            wild := f.wild }
        else
          { f with
            proc := handedOver c .mod a f.proc
            sysctl := insert .mod (f.sysctl.erase .orig)
            wild := true }
      else { f with proc := handedOver c .mod a f.proc } := by
  rw [update_handedOver, installFiles, found]
  simp only [installProcSchedstat, installSchedDebugProcfs, recreateProc_snd]
  cases hd : c.schedDebug with
  | false => cases hs : c.schedstats <;> rfl
  | true =>
    simp only [installSchedDebugfs_eq, installSchedDomainSysctl]
    cases hs : c.schedstats <;> cases hfound : a.lookup && f.features.isSome <;> simp [hfound]

theorem installFiles_wild (h : (installFiles c a f).wild = false) :
    f.wild = false ∧ (c.schedDebug = true → found a f = true) := by
  rw [installFiles_eq] at h
  cases hd : c.schedDebug with
  | false =>
    rw [hd, if_neg Bool.false_ne_true] at h
    exact ⟨h, by simp⟩
  | true =>
    rw [hd, if_pos rfl] at h
    split at h
    · next hfound => exact ⟨h, fun _ => hfound⟩
    · cases h

theorem restoreFiles_wild (h : (restoreFiles c a f).wild = false) : f.wild = false := by
  rw [restoreFiles] at h
  simp only [restoreProcSchedstat, restoreSchedDebugProcfs, restoreSchedDomainSysctl,
    recreateProc_snd] at h
  cases hd : c.schedDebug with
  | false => cases hs : c.schedstats <;> simpa [hd, hs] using h
  | true =>
    rw [hd, if_pos rfl] at h
    have hwild := restoreSchedDebugfs_wild h
    cases hs : c.schedstats <;> simpa [hs] using hwild

/-- What an unload leaves of the files. -/
theorem restoreFiles_eq (c : SchedConfig) (a : FileAnswers) {f : SchedFiles}
    (hf : c.schedDebug = true → Pointing f) :
    restoreFiles c a f =
      if c.schedDebug then
        { f with
          proc := handedOver c .orig a f.proc
          features := if a.features then some (f.nextDentry, .orig) else none
          nextDentry := if a.features then f.nextDentry + 1 else f.nextDentry
          sysctl := insert .orig (f.sysctl.erase .mod) }
      else { f with proc := handedOver c .orig a f.proc } := by
  rw [update_handedOver, restoreFiles]
  simp only [restoreProcSchedstat, restoreSchedDebugProcfs, recreateProc_snd]
  cases hd : c.schedDebug with
  | false => cases hs : c.schedstats <;> rfl
  | true =>
    have hdebugfs := fun proc sysctl => restoreSchedDebugfs_eq
      (f := { f with proc := proc, sysctl := sysctl }) (hf hd) a.features
    simp only [restoreSchedDomainSysctl]
    cases hs : c.schedstats with
    | false =>
      simp only [if_true, if_neg Bool.false_ne_true]
      rw [hdebugfs]
    | true =>
      simp only [if_true]
      rw [hdebugfs]

theorem handedOver_when {proc : ProcName → Option Provider} {p' : Provider}
    (h : ∀ name q, proc name = some q → q = p'.when (c.has name)) {name : ProcName}
    (hq : handedOver c p a proc name = some q) : q = p.when (c.has name) := by
  rw [handedOver] at hq
  by_cases hhas : c.has name = true
  · rw [if_pos hhas] at hq
    cases hcreated : a.proc name with
    | false => simp [hcreated] at hq
    | true =>
      rw [hcreated, if_pos rfl] at hq
      rw [Provider.when, if_pos hhas]
      exact (Option.some.inj hq).symm
  · rw [if_neg hhas] at hq
    have heq := h name q hq
    rw [Provider.when, if_neg hhas] at heq ⊢
    exact heq

/-- After a load the module serves the files that the configuration has, if the pointer to
`sched_features` was not stray. -/
theorem installFiles_provided (h : Provided c .orig f) {a : FileAnswers}
    (hwild : (installFiles c a f).wild = false) :
    Provided c .mod (installFiles c a f) ∧
      (c.schedDebug = true → Pointing (installFiles c a f)) := by
  have hfound := (installFiles_wild hwild).2
  rw [installFiles_eq]
  cases hd : c.schedDebug with
  | false =>
    refine ⟨⟨fun name q hq => handedOver_when h.proc hq, fun d q hq => ?_, fun q hq => ?_,
      by simp [hd]⟩, by simp⟩
    · rw [hd]
      simpa [hd] using h.features d q hq
    · rw [hd]
      simpa [hd] using h.sysctl q hq
  | true =>
    rw [if_pos (hfound hd)]
    refine ⟨⟨fun name q hq => handedOver_when h.proc hq, fun d q hq => ?_, fun q hq => ?_,
      fun _ => Finset.mem_insert_self _ _⟩, fun _ => ?_⟩
    · cases ha : a.features with
      | false => simp [ha] at hq
      | true =>
        have heq : (f.nextDentry, Provider.mod) = (d, q) := by simpa [ha] using hq
        rw [hd, ← (Prod.mk.inj heq).2]
        rfl
    · rw [hd]
      rcases Finset.mem_insert.mp hq with rfl | hmem
      · rfl
      · -- the only table there was has gone
        obtain ⟨hne, hmem⟩ := Finset.mem_erase.mp hmem
        exact absurd (by simpa [hd] using h.sysctl q hmem) hne
    · rw [Pointing]
      cases ha : a.features <;> simp

/-- After an unload the kernel serves them. -/
theorem restoreFiles_provided (h : Provided c .mod f) (hp : c.schedDebug = true → Pointing f)
    (a : FileAnswers) : Provided c .orig (restoreFiles c a f) := by
  rw [restoreFiles_eq c a hp]
  cases hd : c.schedDebug with
  | false =>
    refine ⟨fun name q hq => handedOver_when h.proc hq, fun d q hq => ?_, fun q hq => ?_,
      by simp [hd]⟩
    · rw [hd]
      simpa [hd] using h.features d q hq
    · rw [hd]
      simpa [hd] using h.sysctl q hq
  | true =>
    refine ⟨fun name q hq => handedOver_when h.proc hq, fun d q hq => ?_, fun q hq => ?_,
      fun _ => Finset.mem_insert_self _ _⟩
    · cases ha : a.features with
      | false => simp [ha] at hq
      | true =>
        have heq : (f.nextDentry, Provider.orig) = (d, q) := by simpa [ha] using hq
        rw [hd, ← (Prod.mk.inj heq).2]
        rfl
    · rw [hd]
      rcases Finset.mem_insert.mp hq with rfl | hmem
      · rfl
      · -- the only table there was has gone
        obtain ⟨hne, hmem⟩ := Finset.mem_erase.mp hmem
        exact absurd (by simpa [hd] using h.sysctl q hmem) hne

end Plugsched
