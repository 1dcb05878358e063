/-
The script `scheduler-installer`.

`install` checks the version and the hotfixes, copies the module to /run/plugsched, resolves
its symbols there and tries to insert it; `uninstall` tries to disable it, removes it and the
copy.  Both try at most `MAX_LOAD_ATTEMPTS` times.  Whether a command has failed is read off
from what it prints, and the results of `symbol_resolve` and `rmmod` are not looked at.  The
commands for directories and copies are taken not to fail.

* `insmod_cases`, `write_zero` — one attempt;
* `schedulerInstall_iff` — when an install succeeds, and what it leaves when it does not;
* `exitStatus_tells` — after any number of commands the exit status of the last one tells
  whether the scheduler runs.
-/
import Plugsched.HotfixScript
import Plugsched.Lifecycle
import Plugsched.ResolveRef
import Plugsched.Retry

open ByteMem Runs Retry TextLines Paths

namespace Plugsched

def MAX_LOAD_ATTEMPTS : ℕ := 5

variable {T : Type*} {M : SchedMod T}

/-- What the script finds on the machine: the running kernel, the contents of
/var/plugsched/$cursys, sysfs without the directories of this module, and /proc/kallsyms, as
text and line by line.  `loads` says of which files the kernel can link all symbols. -/
structure Site where
  cursys : String
  mod : String
  scheduler : ElfFile
  taintedFunctions : List Line
  symposes : String → Option ℕ
  sysfs : List TreePath
  kallsymsText : List Line
  kallsyms : List KallsymLine
  loads : ElfFile → Bool

/-- The kernel, and the copy of the module in /run/plugsched while there is one. -/
structure Machine (M : SchedMod T) where
  kernel : Host M
  runKo : Option ElfFile

/-- What `stop_machine` and the creation of the files answer to a write; an error is
negative. -/
structure StopAnswer where
  stopped : ℤ
  files : FileAnswers
  nonpos : stopped ≤ 0

/-- The commands of the script, with the answers to each attempt. -/
inductive Command where
  | install (attempts : ℕ → Insertion × FileAnswers)
  | uninstall (attempts : ℕ → StopAnswer) (busy : Bool)

section Script

variable (c : SchedConfig) (blank : Fin NR_SCHED_CLASS → T) (site : Site)

/-- `[ -f "$enablefile" ]`. -/
def Host.enableFile (k : Host M) : Bool := k.inserted && k.mod.registered

/-- `insmod`: the kernel links the module before it runs `sched_mod_init`. -/
def insmodFile (ko : ElfFile) (i : Insertion) (a : FileAnswers) (k : Host M) : ℤ × Host M :=
  if site.loads ko then k.insmod c a blank i else (-ENOENT, k)

/-- An attempt of `install_module`, which has succeeded when `insmod` prints nothing. -/
def insmodAttempt (ko : ElfFile) (attempts : ℕ → Insertion × FileAnswers) (i : ℕ) (k : Host M) :
    Bool × Host M :=
  let r := insmodFile c blank site ko (attempts i).1 (attempts i).2 k
  (r.1 = 0, r.2)

/-- `install_module`. -/
def installModule (ko : ElfFile) (attempts : ℕ → Insertion × FileAnswers) (k : Host M) :
    Option (Bool × Host M) :=
  retry (insmodAttempt c blank site ko attempts) MAX_LOAD_ATTEMPTS MAX_LOAD_ATTEMPTS 0 k

/-- `echo 0 > $enablefile`. -/
def echoZero (s : StopAnswer) : Write where
  parsed := (0, 0)
  count := 2
  created := 0
  stopped := s.stopped

/-- An attempt of `uninstall_module`, which has succeeded when `sh` prints nothing. -/
def echoAttempt (attempts : ℕ → StopAnswer) (i : ℕ) (k : Host M) : Bool × Host M :=
  let r := k.write c (attempts i).files (echoZero (attempts i))
  (0 ≤ r.1, r.2)

/-- The loop of `uninstall_module`. -/
def disableModule (attempts : ℕ → StopAnswer) (k : Host M) : Option (Bool × Host M) :=
  retry (echoAttempt c attempts) MAX_LOAD_ATTEMPTS MAX_LOAD_ATTEMPTS 0 k

/-- The copy of the module after `symbol_resolve`. -/
def Site.resolved : ElfFile :=
  (resolveElf (loadKallsyms site.kallsyms fun _ => []) site.symposes site.scheduler).2

/-- `scheduler-installer install`, with its exit status. -/
def schedulerInstall (attempts : ℕ → Insertion × FileAnswers) (m : Machine M) :
    Option (ℕ × Machine M) :=
  if m.kernel.enableFile then some (0, m)
  else if site.cursys = site.mod then
    if (hotfixConflictCheck site.taintedFunctions site.sysfs site.kallsymsText).1 ≠ 0 then
      some (1, m)
    else
      let ko := site.resolved
      match installModule c blank site ko attempts m.kernel with
      | none => none
      | some (ok, k) => some (if ok then 0 else 1, { kernel := k, runKo := some ko })
  else some (1, m)

/-- `scheduler-installer uninstall`, with its exit status. -/
def schedulerUninstall (attempts : ℕ → StopAnswer) (busy : Bool) (m : Machine M) :
    Option (ℕ × Machine M) :=
  if m.kernel.enableFile then
    match disableModule c attempts m.kernel with
    | none => none
    | some (false, k) => some (1, { m with kernel := k })
    | some (true, k) => some (0, { kernel := (k.rmmod busy).2, runKo := none })
  else some (0, { m with runKo := none })

/-- `scheduler-installer`. -/
def schedulerInstaller : Command → Machine M → Option (ℕ × Machine M)
  | .install attempts, m => schedulerInstall c blank site attempts m
  | .uninstall attempts busy, m => schedulerUninstall c attempts busy m

end Script

/-! ### One attempt -/

variable {c : SchedConfig} {a : FileAnswers} {blank : Fin NR_SCHED_CLASS → T} {site : Site}
  {img : Image T} {k k' : Host M}

/-- What an attempt to insert the module looks at. -/
def Host.SameTo (blank : Fin NR_SCHED_CLASS → T) (k k' : Host M) : Prop :=
  k'.inserted = false ∧ k'.linked blank = k.linked blank

theorem insmod_congr (i : Insertion) (hk : k.inserted = false) (h : k.SameTo blank k') :
    ((k'.insmod c a blank i).1 = (k.insmod c a blank i).1) ∧
      (k'.insmod c a blank i).2 = (k.insmod c a blank i).2 := by
  rw [Host.insmod, Host.insmod, h.1, hk, h.2]
  exact ⟨rfl, rfl⟩

/-- An attempt enables the scheduler, or the next one finds everything as this one did. -/
theorem insmod_cases (hM : M.arch.Documented) (h : k.Sound c img) (hk : k.inserted = false)
    (i : Insertion) (a : FileAnswers) :
    ((k.insmod c a blank i).1 = 0 ∧ (k.insmod c a blank i).2.Enabled) ∨
    ((k.insmod c a blank i).1 ≠ 0 ∧ k.SameTo blank (k.insmod c a blank i).2) := by
  obtain ⟨hw, hfiles⟩ := h.absent hk
  have hlinked : (k.linked blank).files.wild = false →
      Provided c .orig (k.linked blank).files := fun hwild => (hfiles hwild).setDir _
  rw [Host.insmod, hk, if_neg Bool.false_ne_true]
  rcases (k.linked blank).schedModInit_spec (k.linked blank).mod.image hM
    ⟨hw.heads, hw.classes⟩ rfl hlinked a i with ⟨hret, hdid⟩ | ⟨hret, s, hs, heq⟩
  · rw [if_neg (not_not.mpr hret)]
    exact .inl ⟨rfl, rfl, hdid.enable⟩
  · rw [if_pos hret, heq]
    refine .inr ⟨hret, hk, ?_⟩
    show ({ (k.linked blank) with mod := s } : Host M).linked blank = _
    rw [Host.linked]
    dsimp only
    rw [hs]
    rfl

theorem insmodFile_cases (hM : M.arch.Documented) (h : k.Sound c img) (hk : k.inserted = false)
    (ko : ElfFile) (i : Insertion) (a : FileAnswers) :
    ((insmodFile c blank site ko i a k).1 = 0 ∧ (insmodFile c blank site ko i a k).2.Enabled) ∨
    ((insmodFile c blank site ko i a k).1 ≠ 0 ∧
      k.SameTo blank (insmodFile c blank site ko i a k).2) := by
  rw [insmodFile]
  split
  · exact insmod_cases hM h hk i a
  · exact .inr ⟨by simp [ENOENT], hk, rfl⟩

/-- Asking to disable: it is disabled already, the machine stops, or nothing happens. -/
theorem write_zero (hM : M.arch.Documented) (h : k.Sound c img) (hin : k.inserted = true)
    (s : StopAnswer) :
    let r := k.write c s.files (echoZero s)
    (0 ≤ r.1 ∧ (k.mod.schedulerEnable = 0 ∨ s.stopped = 0) ∧ r.2.inserted = true ∧
      r.2.mod.schedulerEnable = 0 ∧ r.2.mod.refcnt = 0) ∨
    (¬ 0 ≤ r.1 ∧ ¬ (k.mod.schedulerEnable = 0 ∨ s.stopped = 0) ∧ r.2 = k) := by
  have hpresent := h.present hin
  have hwrite : k.write c s.files (echoZero s) =
      if k.mod.schedulerEnable = 0 then (2, k)
      else
        let r := k.unloadSchedRoutine c s.files s.stopped
        if r.1 ≠ 0 then r else (2, r.2) := by
    rw [Host.write, if_pos (by rw [hin, hpresent.registered]; rfl)]
    rfl
  intro r
  have hr : r = k.write c s.files (echoZero s) := rfl
  rw [hwrite] at hr
  obtain ⟨img₁, hw, hset⟩ := hpresent.settled
  rcases hset.cases with hunloaded | hloaded
  · rw [if_pos hunloaded.enable] at hr
    rw [hr]
    exact .inl ⟨by simp, .inl hunloaded.enable, hin, hunloaded.enable, hunloaded.refcnt⟩
  · have hone : k.mod.schedulerEnable ≠ 0 := by
      rw [hloaded.enable]
      exact one_ne_zero
    rw [if_neg hone] at hr
    have hsaved := hset.saved hpresent.registered
    have hstopped : (k.unloadSchedRoutine c s.files s.stopped).1 = s.stopped := by
      rcases k.unloadSchedRoutine_eq (c := c) (a := s.files) s.stopped with
        ⟨hret, heq⟩ | ⟨hret, heq⟩
      · rw [heq]
        by_contra hne
        rw [unloadSchedRoutine, if_pos (Ne.symm hne)] at hret
        exact hne hret.symm
      · rw [heq]
        by_cases hz : s.stopped = 0
        · exact absurd (by rw [unloadSchedRoutine, if_neg (not_not.mpr hz)]) hret
        · rw [unloadSchedRoutine, if_pos hz]
    dsimp only at hr
    rw [hstopped] at hr
    rcases Host.unloadSchedRoutine_spec hM hw hloaded hpresent.registered hsaved
      (hpresent.on hloaded.enable) s.files s.stopped with ⟨hret, hdid⟩ | ⟨hret, hsame⟩
    · rw [hstopped] at hret
      rw [if_neg (not_not.mpr hret)] at hr
      have hoff : r.2.mod.schedulerEnable = 0 := by
        rw [hr]
        exact hdid.enable
      have hcases := hdid.present.cases.resolve_right fun hcase => by
        rw [hdid.enable] at hcase
        exact absurd hcase.1 zero_ne_one
      rw [hr]
      exact .inl ⟨by simp, .inr hret, hdid.inserted.trans hin, hdid.enable, hcases.2.1⟩
    · rw [hstopped] at hret
      rw [if_pos hret] at hr
      have hneg := s.nonpos
      rw [hr]
      refine .inr ⟨?_, not_or.mpr ⟨hone, hret⟩, hsame⟩
      rw [hstopped]
      omega

/-! ### The commands -/

variable {m m' : Machine M} {attempts : ℕ → Insertion × FileAnswers}

/-- Text, tables, files and updates as in `k`, and no module. -/
structure Host.Untouched (k k' : Host M) : Prop where
  absent : k'.inserted = false
  text : k'.mod.image.text = k.mod.image.text
  classes : k'.mod.image.classes.orig = k.mod.image.classes.orig
  files : ∃ dir, k'.files = { k.files with featuresDir := dir }
  updates : k'.updates = k.updates

theorem Host.SameTo.untouched (h : k.SameTo blank k') : k.Untouched k' := by
  obtain ⟨hin, hlinked⟩ := h
  have htext := congrArg (fun k : Host M => k.mod.image.text) hlinked
  have hclasses := congrArg (fun k : Host M => k.mod.image.classes.orig) hlinked
  have hupdates := congrArg (fun k : Host M => k.updates) hlinked
  have hfiles : { k'.files with featuresDir := .isErrOrNull } =
      { k.files with featuresDir := .isErrOrNull } := congrArg Host.files hlinked
  refine ⟨hin, htext, hclasses, ⟨k'.files.featuresDir, ?_⟩, hupdates⟩
  calc k'.files = { { k'.files with featuresDir := .isErrOrNull } with
        featuresDir := k'.files.featuresDir } := rfl
    _ = { k.files with featuresDir := k'.files.featuresDir } := by rw [hfiles]

theorem Host.Sound.absent_of_enableFile (h : k.Sound c img) (hfile : k.enableFile = false) :
    k.inserted = false := by
  by_contra hin
  have hin : k.inserted = true := by simpa using hin
  rw [Host.enableFile, hin, (h.present hin).registered] at hfile
  exact absurd hfile (by simp)

variable (blank site) in
theorem installModule_spec (hM : M.arch.Documented) (h : k.Sound c img)
    (hk : k.inserted = false) (ko : ElfFile) (attempts : ℕ → Insertion × FileAnswers) :
    let r i := insmodFile c blank site ko (attempts i).1 (attempts i).2 k
    (∃ i < MAX_LOAD_ATTEMPTS, (r i).1 = 0 ∧ (r i).2.Enabled ∧
      installModule c blank site ko attempts k = some (true, (r i).2)) ∨
    ((∀ i < MAX_LOAD_ATTEMPTS, (r i).1 ≠ 0) ∧ ∃ k', k.SameTo blank k' ∧
      installModule c blank site ko attempts k = some (false, k')) := by
  intro r
  have hstep : ∀ i k', k.SameTo blank k' →
      let r' := insmodAttempt c blank site ko attempts i k'
      r'.1 = decide ((r i).1 = 0) ∧ (decide ((r i).1 = 0) = true → r'.2 = (r i).2) ∧
        (decide ((r i).1 = 0) = false → k.SameTo blank r'.2) := by
    intro i k' hsame r'
    by_cases hloads : site.loads ko = true
    · obtain ⟨hret, hres⟩ := insmod_congr (c := c) (a := (attempts i).2) (attempts i).1 hk hsame
      have hr : r i = k.insmod c (attempts i).2 blank (attempts i).1 := if_pos hloads
      have hr' : r' = (decide ((k'.insmod c (attempts i).2 blank (attempts i).1).1 = 0),
          (k'.insmod c (attempts i).2 blank (attempts i).1).2) := by
        show insmodAttempt c blank site ko attempts i k' = _
        rw [insmodAttempt, insmodFile, if_pos hloads]
      rw [hr, hr', hret, hres]
      refine ⟨rfl, fun _ => rfl, fun hfail => ?_⟩
      have hne := of_decide_eq_false hfail
      exact ((insmod_cases hM h hk (attempts i).1 (attempts i).2).resolve_left
        fun hyes => hne hyes.1).2
    · have hr : r i = (-ENOENT, k) := if_neg hloads
      have hr' : r' = (decide (-ENOENT = 0), k') := by
        show insmodAttempt c blank site ko attempts i k' = _
        rw [insmodAttempt, insmodFile, if_neg hloads]
      rw [hr, hr']
      exact ⟨rfl, fun hyes => by simp [ENOENT] at hyes, fun _ => hsame⟩
  have hmax : 0 < MAX_LOAD_ATTEMPTS := by decide
  rcases retry_spec (insmodAttempt c blank site ko attempts) (k.SameTo blank)
    (fun i => decide ((r i).1 = 0)) (fun i => (r i).2) hstep hmax ⟨hk, rfl⟩ with
    ⟨i, hi, hok, -, heq⟩ | ⟨hall, k', hsame, heq⟩
  · have hret := of_decide_eq_true hok
    exact .inl ⟨i, hi, hret, ((insmodFile_cases hM h hk ko _ _).resolve_right
      fun hno => hno.1 hret).2, heq⟩
  · exact .inr ⟨fun i hi => of_decide_eq_false (hall i hi), k', hsame, heq⟩

/-- The versions agree, no conflict is reported, and one of the attempts would succeed. -/
def Admits (c : SchedConfig) (blank : Fin NR_SCHED_CLASS → T) (site : Site)
    (attempts : ℕ → Insertion × FileAnswers) (k : Host M) : Prop :=
  site.cursys = site.mod ∧
    (hotfixConflictCheck site.taintedFunctions site.sysfs site.kallsymsText).1 = 0 ∧
    ∃ i < MAX_LOAD_ATTEMPTS,
      (insmodFile c blank site site.resolved (attempts i).1 (attempts i).2 k).1 = 0

theorem Host.Untouched.sound (h : k.Sound c img) (hk : k.inserted = false)
    (hk' : k.Untouched k') : k'.Sound c img := by
  obtain ⟨hw, hfiles⟩ := h.absent hk
  obtain ⟨dir, hdir⟩ := hk'.files
  refine ⟨fun x hx => ?_, fun _ => ⟨⟨fun x hx => ?_, hk'.classes.trans hw.classes⟩, ?_⟩,
    fun hin => ?_⟩
  · rw [hk'.text]
    exact h.elsewhere x hx
  · rw [hk'.text]
    exact hw.heads x hx
  · rw [hdir]
    exact fun hwild => (hfiles hwild).setDir dir
  · exact absurd (hk'.absent.symm.trans hin) Bool.false_ne_true

theorem insmodFile_sound (hM : M.arch.Documented) (h : k.Sound c img) (ko : ElfFile)
    (i : Insertion) (a : FileAnswers) :
    (insmodFile c blank site ko i a k).2.Sound c img := by
  rw [insmodFile]
  split
  · exact (Host.insmod_spec hM h a i).1
  · exact h

variable (blank site) in
/-- The three ways in which an install can end. -/
theorem schedulerInstall_spec (hM : M.arch.Documented) (h : m.kernel.Sound c img)
    (attempts : ℕ → Insertion × FileAnswers) :
    ∃ status m', schedulerInstall c blank site attempts m = some (status, m') ∧
      m'.kernel.Sound c img ∧
      ((m.kernel.enableFile = true ∧ status = 0 ∧ m' = m) ∨
       (m.kernel.enableFile = false ∧ Admits c blank site attempts m.kernel ∧ status = 0 ∧
        m'.kernel.Enabled ∧ m'.runKo = some site.resolved) ∨
       (m.kernel.enableFile = false ∧ ¬ Admits c blank site attempts m.kernel ∧ status = 1 ∧
        m.kernel.Untouched m'.kernel)) := by
  rw [schedulerInstall]
  cases hfile : m.kernel.enableFile with
  | true => exact ⟨0, m, rfl, h, .inl ⟨rfl, rfl, rfl⟩⟩
  | false =>
    have hk := h.absent_of_enableFile hfile
    have hself : m.kernel.Untouched m.kernel :=
      (show m.kernel.SameTo blank m.kernel from ⟨hk, rfl⟩).untouched
    rw [if_neg Bool.false_ne_true]
    by_cases hversion : site.cursys = site.mod
    · rw [if_pos hversion]
      by_cases hconflict :
          (hotfixConflictCheck site.taintedFunctions site.sysfs site.kallsymsText).1 = 0
      · rw [if_neg (not_not.mpr hconflict)]
        dsimp only
        rcases installModule_spec blank site hM h hk site.resolved
          attempts with ⟨i, hi, hret, hon, heq⟩ | ⟨hall, k', hsame, heq⟩
        · rw [heq]
          exact ⟨0, _, rfl, insmodFile_sound hM h _ _ _,
            .inr (.inl ⟨rfl, ⟨hversion, hconflict, i, hi, hret⟩, rfl, hon, rfl⟩)⟩
        · rw [heq]
          refine ⟨1, _, rfl, hsame.untouched.sound h hk, .inr (.inr ⟨rfl, ?_, rfl,
            hsame.untouched⟩)⟩
          rintro ⟨-, -, i, hi, hret⟩
          exact hall i hi hret
      · rw [if_pos hconflict]
        exact ⟨1, m, rfl, h, .inr (.inr ⟨rfl, fun hyes => hconflict hyes.2.1, rfl, hself⟩)⟩
    · rw [if_neg hversion]
      exact ⟨1, m, rfl, h, .inr (.inr ⟨rfl, fun hyes => hversion hyes.1, rfl, hself⟩)⟩

/-- **When an install succeeds.**  The script always ends.  Its exit status is 0 if and only
if the file `enable` is there already, or the versions agree, `hotfixConflictCheck` reports no
conflict (what it reports wrongly counts as well), and one of the first five attempts to insert
the module would succeed; in the first case nothing changes, in the second the scheduler then
runs, from the resolved copy.  Otherwise the status is 1, and text, tables and files are what
they were.  Whether the attempt that succeeds has passed a stray pointer to `debugfs_remove`,
which kernels may not survive, is told by `strayPointer_iff`. -/
theorem schedulerInstall_iff (M : SchedMod T) (hM : M.arch.Documented) (c : SchedConfig)
    (blank : Fin NR_SCHED_CLASS → T) (site : Site) (img : Image T) (m : Machine M)
    (h : m.kernel.Sound c img) (attempts : ℕ → Insertion × FileAnswers) :
    ∃ status m', schedulerInstall c blank site attempts m = some (status, m') ∧
      (status = 0 ↔ m.kernel.enableFile = true ∨ Admits c blank site attempts m.kernel) ∧
      (m.kernel.enableFile = true → m' = m) ∧
      (m.kernel.enableFile = false → status = 0 →
        m'.kernel.Enabled ∧ m'.runKo = some site.resolved) ∧
      (status ≠ 0 → status = 1 ∧ m.kernel.Untouched m'.kernel) := by
  obtain ⟨status, m', heq, -, hcases⟩ :=
    schedulerInstall_spec blank site hM h attempts
  refine ⟨status, m', heq, ?_⟩
  rcases hcases with ⟨hfile, rfl, rfl⟩ | ⟨hfile, hadmits, rfl, hon, hko⟩ | ⟨hfile, hno, rfl, hkept⟩
  · exact ⟨iff_of_true rfl (.inl hfile), fun _ => rfl,
      fun hnone => absurd (hfile.symm.trans hnone) (by simp), by simp⟩
  · exact ⟨iff_of_true rfl (.inr hadmits), fun hyes => absurd (hfile.symm.trans hyes) (by simp),
      fun _ _ => ⟨hon, hko⟩, by simp⟩
  · refine ⟨iff_of_false one_ne_zero ?_, fun hyes => absurd (hfile.symm.trans hyes) (by simp),
      fun _ hzero => absurd hzero one_ne_zero, fun _ => ⟨rfl, hkept⟩⟩
    rw [hfile]
    exact fun hor => hor.elim Bool.false_ne_true hno

/-- A machine without hotfixes, and a module that refers to `schedule`. -/
def plainSite : Site where
  cursys := "5.10.134"
  mod := "5.10.134"
  scheduler := interfaceFile
  taintedFunctions := []
  symposes := fun _ => none
  sysfs := []
  kallsymsText := []
  kallsyms := [⟨0x3000, 'T', "schedule", none⟩, ⟨0x1000, 'T', "update_load", none⟩]
  loads := fun ko => (ko.symtab.drop 1).all fun sym => sym.stShndx ≠ SHN_UNDEF

/-- The machine does not stop until the third attempt. -/
def thirdTime (i : ℕ) : Insertion × FileAnswers :=
  (⟨0, 0, 0, if i < 2 then -16 else 0⟩, ⟨fun _ => true, true, true⟩)

/-- The machine before anything is installed. -/
def plainMachine : Machine (arm64Sched (some (8, 4))) := ⟨arm64Kernel, none⟩

theorem schedulerInstall_iff_plainMachine :
    ∃ m', schedulerInstall ⟨true, true⟩ (fun _ => 0) plainSite thirdTime plainMachine =
      some (0, m') ∧ m'.kernel.Enabled := by
  obtain ⟨status, m', heq, hstatus, -, hon, -⟩ := schedulerInstall_iff (arm64Sched (some (8, 4)))
    arm64Insn_documented ⟨true, true⟩ (fun _ => 0) plainSite arm64Image plainMachine
    arm64Kernel_pristine.sound thirdTime
  have hzero : status = 0 := by
    refine hstatus.mpr (.inr ⟨rfl, ?_, 2, by decide, ?_⟩)
    · decide
    · rfl
  subst hzero
  exact ⟨m', heq, (hon rfl rfl).1⟩

theorem disableModule_spec (hM : M.arch.Documented) (h : k.Sound c img)
    (hin : k.inserted = true) (attempts : ℕ → StopAnswer) :
    (∃ k', disableModule c attempts k = some (true, k') ∧ k'.Sound c img ∧
      k'.inserted = true ∧ k'.mod.schedulerEnable = 0 ∧ k'.mod.refcnt = 0) ∨
    (disableModule c attempts k = some (false, k) ∧ k.Enabled) := by
  have hstep : ∀ i k', k' = k →
      let r := echoAttempt c attempts i k
      (echoAttempt c attempts i k').1 = r.1 ∧ (r.1 = true → (echoAttempt c attempts i k').2 = r.2) ∧
        (r.1 = false → (echoAttempt c attempts i k').2 = k) := by
    rintro i k' rfl
    refine ⟨rfl, fun _ => rfl, fun hfail => ?_⟩
    rcases write_zero hM h hin (attempts i) with ⟨hyes, -⟩ | ⟨-, -, hsame⟩
    · exact absurd hyes (of_decide_eq_false hfail)
    · exact hsame
  have hmax : 0 < MAX_LOAD_ATTEMPTS := by decide
  rcases retry_spec (echoAttempt c attempts) (fun k' => k' = k)
    (fun i => (echoAttempt c attempts i k).1) (fun i => (echoAttempt c attempts i k).2) hstep hmax
    (show k = k from rfl) with ⟨i, hi, hok, -, heq⟩ | ⟨hall, k', rfl, heq⟩
  · rcases write_zero hM h hin (attempts i) with ⟨-, -, hin', hoff, href⟩ | ⟨hno, -⟩
    · exact .inl ⟨_, heq, (Host.write_spec hM h _ _).1, hin', hoff, href⟩
    · exact absurd (of_decide_eq_true hok) hno
  · rcases write_zero hM h hin (attempts 0) with ⟨hyes, -⟩ | ⟨-, hno, -⟩
    · exact absurd hyes (of_decide_eq_false (hall 0 hmax))
    · refine .inr ⟨heq, hin, ?_⟩
      rcases (h.present hin).cases with ⟨hoff, -⟩ | ⟨hon, -⟩
      · exact absurd (.inl hoff) hno
      · exact hon

theorem rmmod_free (hin : k.inserted = true) (href : k.mod.refcnt = 0) :
    (k.rmmod false).2.inserted = false := by
  rw [Host.rmmod, hin, if_neg (by simp), if_neg (by simp [href])]

/-- An uninstall changes nothing, or the scheduler no longer runs and the copy is gone. -/
theorem schedulerUninstall_spec (hM : M.arch.Documented) (h : m.kernel.Sound c img)
    (attempts : ℕ → StopAnswer) (busy : Bool) :
    ∃ status m', schedulerUninstall c attempts busy m = some (status, m') ∧
      m'.kernel.Sound c img ∧
      ((status = 0 ∧ ¬ m'.kernel.Enabled ∧ m'.runKo = none ∧
        (busy = false → m'.kernel.inserted = false)) ∨
       (status = 1 ∧ m.kernel.Enabled ∧ m' = m)) := by
  rw [schedulerUninstall]
  cases hfile : m.kernel.enableFile with
  | false =>
    have hout := h.absent_of_enableFile hfile
    refine ⟨0, { m with runKo := none }, rfl, h, .inl ⟨rfl, fun hon => ?_, rfl, fun _ => hout⟩⟩
    exact absurd (hout.symm.trans hon.1) Bool.false_ne_true
  | true =>
    have hin : m.kernel.inserted = true := by
      rw [Host.enableFile, Bool.and_eq_true] at hfile
      exact hfile.1
    rw [if_pos rfl]
    rcases disableModule_spec hM h hin attempts with
      ⟨k', heq, hsound, hin', hoff, href⟩ | ⟨heq, hon⟩
    · rw [heq]
      obtain ⟨hsound', hstep, -⟩ := Host.rmmod_spec hsound busy
      refine ⟨0, _, rfl, hsound', .inl ⟨rfl, fun hon => ?_, rfl, ?_⟩⟩
      · -- `rmmod` does not enable the scheduler
        have hno : ¬ k'.Enabled := fun hyes => zero_ne_one (hoff.symm.trans hyes.2)
        cases hstep with
        | kept dir henabled _ _ => exact hno (henabled.mp hon)
        | loaded dir a _ _ hfiles hupdates =>
          have hsame : (k'.rmmod busy).2.updates = k'.updates := by
            rw [Host.rmmod]
            split
            · rfl
            · split <;> rfl
          rw [hsame] at hupdates
          simp at hupdates
        | unloaded a hyes _ _ _ => exact hno hyes
      · rintro rfl
        exact rmmod_free hin' href
    · rw [heq]
      exact ⟨1, m, rfl, h, .inr ⟨rfl, hon, rfl⟩⟩

/-! ### Any number of commands -/

/-- Something else than the scheduler holds the module. -/
def Command.busy : Command → Bool
  | .install _ => false
  | .uninstall _ busy => busy

/-- What a command is for. -/
def Command.Achieved : Command → Machine M → Prop
  | .install _, m => m.kernel.Enabled
  | .uninstall _ _, m => m.kernel.inserted = false ∧ m.runKo = none

/-- The script is run again and again, as long as no pointer was stray, and nobody else
touches the module. -/
inductive Scripted (c : SchedConfig) (blank : Fin NR_SCHED_CLASS → T) (site : Site) :
    Machine M → Option (Command × ℕ) → Machine M → Prop
  | command {m m' : Machine M} (cmd : Command) (status : ℕ) (hfree : cmd.busy = false)
      (hwild : m.kernel.files.wild = false)
      (h : schedulerInstaller c blank site cmd m = some (status, m')) :
      Scripted c blank site m (some (cmd, status)) m'

/-- Between two commands the module is in the kernel only while its scheduler runs. -/
structure Machine.Own (c : SchedConfig) (img : Image T) (m : Machine M) : Prop where
  sound : m.kernel.Sound c img
  enabled : m.kernel.inserted = true → m.kernel.Enabled

variable (blank site) in
theorem command_spec (hM : M.arch.Documented) (h : m.Own c img) (cmd : Command)
    (hfree : cmd.busy = false) :
    ∃ status m', schedulerInstaller c blank site cmd m = some (status, m') ∧
      m'.Own c img ∧ (status = 0 ∨ status = 1) ∧ (status = 0 ↔ cmd.Achieved m') := by
  cases cmd with
  | install attempts =>
    obtain ⟨status, m', heq, hsound, hcases⟩ :=
      schedulerInstall_spec blank site hM h.sound attempts
    refine ⟨status, m', heq, ?_⟩
    rcases hcases with ⟨hfile, rfl, rfl⟩ | ⟨-, -, rfl, hon, -⟩ | ⟨-, -, rfl, hkept⟩
    · have hin : m'.kernel.inserted = true := by
        rw [Host.enableFile, Bool.and_eq_true] at hfile
        exact hfile.1
      exact ⟨h, .inl rfl, iff_of_true rfl (h.enabled hin)⟩
    · exact ⟨⟨hsound, fun _ => hon⟩, .inl rfl, iff_of_true rfl hon⟩
    · have hout : m'.kernel.inserted ≠ true := by
        rw [hkept.absent]
        exact Bool.false_ne_true
      exact ⟨⟨hsound, fun hin => absurd hin hout⟩, .inr rfl,
        iff_of_false one_ne_zero fun hon => hout hon.1⟩
  | uninstall attempts busy =>
    obtain ⟨status, m', heq, hsound, hcases⟩ := schedulerUninstall_spec hM h.sound attempts busy
    refine ⟨status, m', heq, ?_⟩
    rcases hcases with ⟨rfl, -, hko, hout⟩ | ⟨rfl, hon, rfl⟩
    · refine ⟨⟨hsound, fun hin => ?_⟩, .inl rfl, iff_of_true rfl ⟨hout hfree, hko⟩⟩
      exact absurd ((hout hfree).symm.trans hin) Bool.false_ne_true
    · refine ⟨h, .inr rfl, iff_of_false one_ne_zero fun hgone => ?_⟩
      exact absurd (hgone.1.symm.trans hon.1) Bool.false_ne_true

theorem own_of_run (hM : M.arch.Documented) {m₀ : Machine M} (h₀ : m₀.kernel.Pristine c img)
    {cmds : List (Command × ℕ)} (h : Run (Scripted c blank site) m₀ cmds m) : m.Own c img := by
  have hinit : m₀.Own c img := by
    refine ⟨h₀.sound, fun hin => ?_⟩
    exact absurd (h₀.absent.symm.trans hin) Bool.false_ne_true
  refine h.invariant (I := fun _ m => m.Own c img) hinit ?_
  rintro _ m _ _ - ih ⟨cmd, status, hfree, -, heq⟩
  obtain ⟨status', m', heq', hown, -⟩ := command_spec blank site hM ih cmd hfree
  obtain ⟨-, rfl⟩ := Prod.mk.inj (Option.some.inj (heq'.symm.trans heq))
  exact hown

/-- **The exit status tells.**  While nobody else touches the module, and no load passes a
stray pointer to `debugfs_remove`, after any number of commands the next one ends with status
0 or 1; an install ends with 0 if and only if the scheduler then runs, an uninstall if and
only if module and copy are then gone; the module is in the kernel only while its scheduler
runs, and when it is not, heads and class tables are the kernel's own and the module serves no
file (a file that could not be created anew is missing). -/
theorem exitStatus_tells (M : SchedMod T) (hM : M.arch.Documented) (c : SchedConfig)
    (blank : Fin NR_SCHED_CLASS → T) (site : Site) (img : Image T) (m₀ : Machine M)
    (h₀ : m₀.kernel.Pristine c img) (cmds : List (Command × ℕ)) (m : Machine M)
    (h : Run (Scripted c blank site) m₀ cmds m) (cmd : Command) (hfree : cmd.busy = false) :
    ∃ status m', schedulerInstaller c blank site cmd m = some (status, m') ∧
      (m'.kernel.files.wild = false →
        (status = 0 ∨ status = 1) ∧
        (status = 0 ↔ cmd.Achieved m') ∧
        (m'.kernel.inserted = true → m'.kernel.Enabled) ∧
        (m'.kernel.inserted = false →
          (∀ x, InHead M.arch M.fns x → m'.kernel.mod.image.text x = img.text x) ∧
          m'.kernel.mod.image.classes.orig = img.classes.orig ∧
          NoModuleFile m'.kernel.files)) := by
  obtain ⟨status, m', heq, hown, hstatus, hachieved⟩ :=
    command_spec blank site hM (own_of_run hM h₀ h) cmd hfree
  refine ⟨status, m', heq, fun hwild => ⟨hstatus, hachieved, hown.enabled, fun hout => ?_⟩⟩
  obtain ⟨hw, hfiles⟩ := hown.sound.absent hout
  exact ⟨hw.heads, hw.classes, (hfiles hwild).noModuleFile⟩

theorem exitStatus_tells_plainMachine :
    ∃ status m', schedulerInstaller ⟨true, true⟩ (fun _ => 0) plainSite (.install thirdTime)
      plainMachine = some (status, m') ∧ (status = 0 ↔ m'.kernel.Enabled) := by
  obtain ⟨status, m', heq, hall⟩ := exitStatus_tells (arm64Sched (some (8, 4)))
    arm64Insn_documented ⟨true, true⟩ (fun _ => 0) plainSite arm64Image plainMachine
    arm64Kernel_pristine [] plainMachine Run.nil (.install thirdTime) rfl
  have hwild : (schedulerInstaller ⟨true, true⟩ (fun _ => 0) plainSite (.install thirdTime)
      plainMachine).map (fun r => r.2.kernel.files.wild) = some false := by
    decide +kernel
  rw [heq] at hwild
  exact ⟨status, m', heq, (hall (Option.some.inj hwild)).2.1⟩

end Plugsched
