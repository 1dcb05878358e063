/-
The module from its insertion to its removal, any number of times.

A `Host` is what outlives the module (text, class tables, files) together with what the
module holds while it is inserted.  The functions of main.c are those of `Enable` with the
files they replace; `insmod` and `rmmod` are the system calls that run `sched_mod_init` and
`sched_mod_exit`.

* `Host.loadSchedRoutine_spec`, `Host.unloadSchedRoutine_spec` — all or nothing, with the
  files;
* `Host.call_spec` — what a system call does;
* `lifecycle_safe` — no trace of the module when it is gone, and it does not go while enabled,
  as long as no stray pointer was passed to `debugfs_remove`;
* `strayPointer_iff` — when it is passed one.
-/
import Plugsched.Enable
import Plugsched.SchedFiles

open ByteMem Runs

namespace Plugsched

def ENOENT : ℤ := 2

def EWOULDBLOCK : ℤ := 11

def EEXIST : ℤ := 17

variable {T : Type*} {M : SchedMod T}

/-- The kernel, and the module when it is `inserted`.  `updates` lists the successful updates
with the answers for the files; the code has no such list. -/
structure Host (M : SchedMod T) where
  inserted : Bool
  mod : ModState M
  files : SchedFiles
  updates : List (SyncOp × FileAnswers)

/-- What a successful update does to the files. -/
def SyncOp.files (op : SyncOp) (c : SchedConfig) (a : FileAnswers) (f : SchedFiles) :
    SchedFiles :=
  match op with
  | .install => installFiles c a f
  | .restore => restoreFiles c a f

/-- The files after a successful update. -/
def Host.replaceFiles (c : SchedConfig) (op : SyncOp) (a : FileAnswers) (k : Host M) :
    Host M :=
  { k with files := op.files c a k.files, updates := k.updates ++ [(op, a)] }

section Functions

variable (c : SchedConfig) (a : FileAnswers)

/-- `load_sched_routine`. -/
def Host.loadSchedRoutine (created stopped : ℤ) (k : Host M) : ℤ × Host M :=
  let r := Plugsched.loadSchedRoutine created stopped k.mod
  let k := { k with mod := r.2 }
  if r.1 ≠ 0 then (r.1, k) else (0, k.replaceFiles c .install a)

/-- `unload_sched_routine`. -/
def Host.unloadSchedRoutine (stopped : ℤ) (k : Host M) : ℤ × Host M :=
  let r := Plugsched.unloadSchedRoutine stopped k.mod
  let k := { k with mod := r.2 }
  if r.1 ≠ 0 then (r.1, k) else (0, k.replaceFiles c .restore a)

/-- `plugsched_enabled_store`. -/
def Host.plugschedEnabledStore (w : Write) (k : Host M) : ℤ × Host M :=
  if w.parsed.1 ≠ 0 then (w.parsed.1, k)
  else
    let val := truth w.parsed.2
    if k.mod.schedulerEnable = val then (w.count, k)
    else
      let r :=
        if val ≠ 0 then k.loadSchedRoutine c a w.created w.stopped
        else k.unloadSchedRoutine c a w.stopped
      if r.1 ≠ 0 then r else (w.count, r.2)

/-- `sched_mod_init`. -/
def Host.schedModInit (i : Insertion) (k : Host M) : ℤ × Host M :=
  match jumpInitAll M.arch M.fns k.mod.image.text with
  | .error _ => (-EBUSY, k)
  | .ok jumps =>
    let r := registerPlugschedSysfs i { k.mod with jumps := jumps }
    let k := { k with mod := r.2 }
    if r.1 ≠ 0 then (r.1, k)
    else
      let r := k.loadSchedRoutine c a i.created i.stopped
      if r.1 ≠ 0 then (r.1, { r.2 with mod := { r.2.mod with registered := false } })
      else (0, r.2)

/-- `sched_mod_exit`. -/
def Host.schedModExit (k : Host M) : Host M :=
  { k with mod := { k.mod with registered := false } }

variable (blank : Fin NR_SCHED_CLASS → T)

/-- The module as it is linked in: `bak_class` and `sched_features_dir` are blank. -/
def Host.linked (k : Host M) : Host M :=
  { k with
    mod := ModState.fresh M
      { k.mod.image with classes := { k.mod.image.classes with bak := blank } } 0
    files := { k.files with featuresDir := .isErrOrNull } }

/-- Inserting the module.  When `sched_mod_init` fails the module is taken out again. -/
def Host.insmod (i : Insertion) (k : Host M) : ℤ × Host M :=
  if k.inserted then (-EEXIST, k)
  else
    let r := (k.linked blank).schedModInit c a i
    if r.1 ≠ 0 then r else (0, { r.2 with inserted := true })

/-- Removing the module, which the kernel refuses while there are references to it; `busy`
stands for any other reason to refuse. -/
def Host.rmmod (busy : Bool) (k : Host M) : ℤ × Host M :=
  if !k.inserted then (-ENOENT, k)
  else if busy || k.mod.refcnt ≠ 0 then (-EWOULDBLOCK, k)
  else (0, { k.schedModExit with inserted := false })

/-- Writing to the file `enable`, which is there while it is registered. -/
def Host.write (w : Write) (k : Host M) : ℤ × Host M :=
  if k.inserted && k.mod.registered then k.plugschedEnabledStore c a w else (-ENOENT, k)

end Functions

/-- The system calls, with the answers that the functions they run are given. -/
inductive SysCall where
  | insmod (i : Insertion) (a : FileAnswers)
  | rmmod (busy : Bool)
  | write (w : Write) (a : FileAnswers)

section Lifecycle

variable (c : SchedConfig) (blank : Fin NR_SCHED_CLASS → T)

def Host.call : SysCall → Host M → ℤ × Host M
  | .insmod i a, k => k.insmod c a blank i
  | .rmmod busy, k => k.rmmod busy
  | .write w a, k => k.write c a w

/-- One system call after the other, in any order, as long as C says what they do. -/
inductive Lives : Host M → Option (SysCall × ℤ) → Host M → Prop
  | call (x : SysCall) (k : Host M) (hwild : k.files.wild = false) :
      Lives k (some (x, (k.call c blank x).1)) (k.call c blank x).2

end Lifecycle

/-! ### Without the files -/

variable {c : SchedConfig} {a : FileAnswers} {blank : Fin NR_SCHED_CLASS → T}
  {img : Image T} {base : ℕ} {k k' : Host M}

theorem Host.loadSchedRoutine_eq (created stopped : ℤ) (k : Host M) :
    let r := Plugsched.loadSchedRoutine created stopped k.mod
    (r.1 = 0 ∧ k.loadSchedRoutine c a created stopped =
      (0, ({ k with mod := r.2 } : Host M).replaceFiles c .install a)) ∨
    (r.1 ≠ 0 ∧ k.loadSchedRoutine c a created stopped = (r.1, { k with mod := r.2 })) := by
  intro r
  by_cases hret : r.1 = 0
  · exact .inl ⟨hret, if_neg (not_not.mpr hret)⟩
  · exact .inr ⟨hret, if_pos hret⟩

theorem Host.unloadSchedRoutine_eq (stopped : ℤ) (k : Host M) :
    let r := Plugsched.unloadSchedRoutine stopped k.mod
    (r.1 = 0 ∧ k.unloadSchedRoutine c a stopped =
      (0, ({ k with mod := r.2 } : Host M).replaceFiles c .restore a)) ∨
    (r.1 ≠ 0 ∧ k.unloadSchedRoutine c a stopped = (r.1, { k with mod := r.2 })) := by
  intro r
  by_cases hret : r.1 = 0
  · exact .inl ⟨hret, if_neg (not_not.mpr hret)⟩
  · exact .inr ⟨hret, if_pos hret⟩

/-! ### What the routines leave alone -/

/-- Neither a head nor an instruction of the stack protector. -/
def Elsewhere (M : SchedMod T) (x : ℕ) : Prop :=
  ¬ InHead M.arch M.fns x ∧ ¬ Covered (nopPatches M.arch) x

theorem sync_elsewhere (hM : M.arch.Documented) {s : ModState M}
    (hfns : s.jumps.map Jump.fn = M.fns) (op : SyncOp) (ret : ℤ) {x : ℕ} (hx : Elsewhere M x) :
    (s.sync op ret).image.text x = s.image.text x := by
  have hinstall : ¬ Covered (installPatches s.jumps) x := by
    rw [covered_installPatches, hfns]
    exact hx.1
  have hremove : ¬ Covered (removePatches s.jumps) x := by
    rw [covered_removePatches, hfns]
    exact hx.1
  show (syncSchedMod M s.jumps op ret s.image).text x = _
  rw [syncSchedMod]
  split
  · cases op with
    | install =>
      show disableStackProtector M.arch (jumpInstall s.jumps s.image.text) x = _
      rw [disableStackProtector_eq hM, jumpInstall_eq hM, applyAll_of_not_covered hx.2,
        applyAll_of_not_covered hinstall]
    | restore =>
      show jumpRemove s.jumps s.image.text x = _
      rw [jumpRemove_eq hM, applyAll_of_not_covered hremove]
  · rfl

theorem loadSchedRoutine_elsewhere (hM : M.arch.Documented) {s : ModState M}
    (hfns : s.jumps.map Jump.fn = M.fns) (created stopped : ℤ) {x : ℕ} (hx : Elsewhere M x) :
    (loadSchedRoutine created stopped s).2.image.text x = s.image.text x := by
  have hsync := sync_elsewhere hM hfns .install stopped hx
  rw [loadSchedRoutine]
  dsimp only
  split
  · rfl
  · split <;> exact hsync

theorem unloadSchedRoutine_elsewhere (hM : M.arch.Documented) {s : ModState M}
    (hfns : s.jumps.map Jump.fn = M.fns) (stopped : ℤ) {x : ℕ} (hx : Elsewhere M x) :
    (unloadSchedRoutine stopped s).2.image.text x = s.image.text x := by
  have hsync := sync_elsewhere hM hfns .restore stopped hx
  rw [unloadSchedRoutine]
  split <;> exact hsync

/-! ### One system call -/

/-- Heads and class tables as in `img`. -/
structure Whole (M : SchedMod T) (img img' : Image T) : Prop where
  heads : ∀ x, InHead M.arch M.fns x → img'.text x = img.text x
  classes : img'.classes.orig = img.classes.orig

/-- The module is in the kernel and its scheduler runs. -/
def Host.Enabled (k : Host M) : Prop := k.inserted = true ∧ k.mod.schedulerEnable = 1

/-- The module while it is inserted. -/
structure Host.Present (c : SchedConfig) (img : Image T) (k : Host M) : Prop where
  registered : k.mod.registered = true
  settled : ∃ img₁, Whole M img img₁ ∧ Settled img₁ 0 k.mod
  off : k.mod.schedulerEnable = 0 → k.files.wild = false → Provided c .orig k.files
  on : k.mod.schedulerEnable = 1 → k.files.wild = false →
    Provided c .mod k.files ∧ (c.schedDebug = true → Pointing k.files)

/-- What holds between two system calls; of the files, as long as they are not wild. -/
structure Host.Sound (c : SchedConfig) (img : Image T) (k : Host M) : Prop where
  elsewhere : ∀ x, Elsewhere M x → k.mod.image.text x = img.text x
  absent : k.inserted = false →
    Whole M img k.mod.image ∧ (k.files.wild = false → Provided c .orig k.files)
  present : k.inserted = true → k.Present c img

/-- The flag after a successful update. -/
def SyncOp.flag : SyncOp → ℕ
  | .install => 1
  | .restore => 0

/-- A routine has done its update. -/
structure Host.Did (c : SchedConfig) (img : Image T) (op : SyncOp) (a : FileAnswers)
    (k k' : Host M) : Prop where
  present : k'.Present c img
  enable : k'.mod.schedulerEnable = op.flag
  inserted : k'.inserted = k.inserted
  files : k'.files = op.files c a k.files
  updates : k'.updates = k.updates ++ [(op, a)]
  elsewhere : ∀ x, Elsewhere M x → k'.mod.image.text x = k.mod.image.text x

section Routines

variable {img₁ : Image T}

/-- Loading does all of it or nothing, the files included. -/
theorem Host.loadSchedRoutine_spec (hM : M.arch.Documented) (hw : Whole M img img₁)
    (h : Unloaded img₁ 0 k.mod) (hreg : k.mod.registered = true)
    (hsaved : jumpInitAll M.arch M.fns img₁.text = .ok k.mod.jumps)
    (hfiles : k.files.wild = false → Provided c .orig k.files) (a : FileAnswers)
    (created stopped : ℤ) :
    ((k.loadSchedRoutine c a created stopped).1 = 0 ∧
      k.Did c img .install a (k.loadSchedRoutine c a created stopped).2) ∨
    ((k.loadSchedRoutine c a created stopped).1 ≠ 0 ∧
      (k.loadSchedRoutine c a created stopped).2 = k) := by
  have hframe := loadSchedRoutine_frame created stopped k.mod
  have hspec := Plugsched.loadSchedRoutine_spec hM h created stopped
  rcases k.loadSchedRoutine_eq (c := c) (a := a) created stopped with ⟨hret, heq⟩ | ⟨hret, heq⟩
  · have hloaded := (hspec.resolve_right fun hno => hno.1 hret).2
    rw [heq]
    refine .inl ⟨rfl, ?_⟩
    exact
      { present :=
          { registered := hframe.2.trans hreg
            settled := ⟨img₁, hw, .inr hloaded, fun _ => by
              show _ = Except.ok (Plugsched.loadSchedRoutine created stopped k.mod).2.jumps
              rw [hframe.1]
              exact hsaved⟩
            off := fun hoff => by
              have hon : (Plugsched.loadSchedRoutine created stopped k.mod).2.schedulerEnable = 1 :=
                hloaded.enable
              exact absurd (hoff.symm.trans hon) zero_ne_one
            on := fun _ hwild => installFiles_provided (hfiles (installFiles_wild hwild).1) hwild }
        enable := hloaded.enable
        inserted := rfl
        files := rfl
        updates := rfl
        elsewhere := fun x hx => loadSchedRoutine_elsewhere hM (jumpInitAll_ok hsaved).1 _ _ hx }
  · have hsame := (hspec.resolve_left fun hyes => hret hyes.1).2
    rw [heq, hsame]
    exact .inr ⟨hret, rfl⟩

/-- Unloading does all of it or nothing. -/
theorem Host.unloadSchedRoutine_spec (hM : M.arch.Documented) (hw : Whole M img img₁)
    (h : Loaded img₁ 0 k.mod) (hreg : k.mod.registered = true)
    (hsaved : jumpInitAll M.arch M.fns img₁.text = .ok k.mod.jumps)
    (hfiles : k.files.wild = false →
      Provided c .mod k.files ∧ (c.schedDebug = true → Pointing k.files))
    (a : FileAnswers) (stopped : ℤ) :
    ((k.unloadSchedRoutine c a stopped).1 = 0 ∧
      k.Did c img .restore a (k.unloadSchedRoutine c a stopped).2) ∨
    ((k.unloadSchedRoutine c a stopped).1 ≠ 0 ∧
      (k.unloadSchedRoutine c a stopped).2 = k) := by
  have hframe := unloadSchedRoutine_frame stopped k.mod
  have hspec := Plugsched.unloadSchedRoutine_spec hM hsaved h stopped
  rcases k.unloadSchedRoutine_eq (c := c) (a := a) stopped with ⟨hret, heq⟩ | ⟨hret, heq⟩
  · have hunloaded := (hspec.resolve_right fun hno => hno.1 hret).2
    rw [heq]
    refine .inl ⟨rfl, ?_⟩
    exact
      { present :=
          { registered := hframe.2.trans hreg
            settled := ⟨img₁, hw, .inl hunloaded, fun _ => by
              show _ = Except.ok (Plugsched.unloadSchedRoutine stopped k.mod).2.jumps
              rw [hframe.1]
              exact hsaved⟩
            off := fun _ hwild => by
              obtain ⟨hmod, hpoint⟩ := hfiles (restoreFiles_wild hwild)
              exact restoreFiles_provided hmod hpoint a
            on := fun hon => by
              have hoff : (Plugsched.unloadSchedRoutine stopped k.mod).2.schedulerEnable = 0 :=
                hunloaded.enable
              exact absurd (hoff.symm.trans hon) zero_ne_one }
        enable := hunloaded.enable
        inserted := rfl
        files := rfl
        updates := rfl
        elsewhere := fun x hx => unloadSchedRoutine_elsewhere hM (jumpInitAll_ok hsaved).1 _ hx }
  · have hsame := (hspec.resolve_left fun hyes => hret hyes.1).2
    rw [heq, hsame]
    exact .inr ⟨hret, rfl⟩

/-- A write changes nothing, or the flag is not what it was. -/
theorem Host.plugschedEnabledStore_spec (hM : M.arch.Documented) (h : k.Present c img)
    (a : FileAnswers) (w : Write) :
    (k.plugschedEnabledStore c a w).2 = k ∨
      ∃ op : SyncOp, k.mod.schedulerEnable ≠ op.flag ∧
        (k.plugschedEnabledStore c a w).1 = w.count ∧
        k.Did c img op a (k.plugschedEnabledStore c a w).2 := by
  obtain ⟨img₁, hw, hset⟩ := h.settled
  have hsaved := hset.saved h.registered
  rw [Host.plugschedEnabledStore]
  split
  · exact .inl rfl
  dsimp only
  split
  · exact .inl rfl
  next hne =>
    rcases hset.cases with hunloaded | hloaded
    · have hval : truth w.parsed.2 = 1 := by
        rcases truth_eq w.parsed.2 with h0 | h1
        · exact absurd (hunloaded.enable.trans h0.symm) hne
        · exact h1
      rw [hval, if_pos one_ne_zero]
      rcases Host.loadSchedRoutine_spec hM hw hunloaded h.registered hsaved
        (h.off hunloaded.enable) a w.created w.stopped with ⟨hret, hdid⟩ | ⟨hret, hsame⟩
      · rw [if_neg (not_not.mpr hret)]
        exact .inr ⟨.install, by rw [hunloaded.enable]; exact zero_ne_one, rfl, hdid⟩
      · rw [if_pos hret]
        exact .inl hsame
    · have hval : truth w.parsed.2 = 0 := by
        rcases truth_eq w.parsed.2 with h0 | h1
        · exact h0
        · exact absurd (hloaded.enable.trans h1.symm) hne
      rw [hval, if_neg (not_not.mpr rfl)]
      rcases Host.unloadSchedRoutine_spec hM hw hloaded h.registered hsaved
        (h.on hloaded.enable) a w.stopped with ⟨hret, hdid⟩ | ⟨hret, hsame⟩
      · rw [if_neg (not_not.mpr hret)]
        exact .inr ⟨.restore, by rw [hloaded.enable]; exact one_ne_zero, rfl, hdid⟩
      · rw [if_pos hret]
        exact .inl hsame

variable (img₁) in
/-- `sched_mod_init` loads, or leaves text, tables and files alone. -/
theorem Host.schedModInit_spec (hM : M.arch.Documented) (hw : Whole M img img₁)
    (hfresh : k.mod = ModState.fresh M img₁ 0)
    (hfiles : k.files.wild = false → Provided c .orig k.files) (a : FileAnswers) (i : Insertion) :
    ((k.schedModInit c a i).1 = 0 ∧ k.Did c img .install a (k.schedModInit c a i).2) ∨
    ((k.schedModInit c a i).1 ≠ 0 ∧
      ∃ s : ModState M, s.image = img₁ ∧ (k.schedModInit c a i).2 = { k with mod := s }) := by
  have himage : k.mod.image = img₁ := by rw [hfresh]; rfl
  rw [Host.schedModInit]
  split
  · exact .inr ⟨by simp [EBUSY], k.mod, himage, rfl⟩
  next jumps hinit =>
    rw [himage] at hinit
    dsimp only
    rcases registerPlugschedSysfs_spec i (s := { k.mod with jumps := jumps })
      (by rw [hfresh]; rfl) with hok | ⟨hret, hs⟩
    · rw [hok]
      dsimp only
      rw [if_neg (not_not.mpr rfl)]
      have hunloaded : Unloaded img₁ 0
          ({ k.mod with jumps := jumps, registered := true } : ModState M) := by
        rw [hfresh]
        exact unloaded_fresh M img₁ 0 jumps true
      rcases Host.loadSchedRoutine_spec (c := c)
        (k := { k with mod := { k.mod with jumps := jumps, registered := true } }) hM hw
        hunloaded rfl hinit hfiles a i.created i.stopped with ⟨hret, hdid⟩ | ⟨hret, hsame⟩
      · rw [if_neg (not_not.mpr hret)]
        exact .inl ⟨rfl, hdid.present, hdid.enable, hdid.inserted, hdid.files, hdid.updates,
          hdid.elsewhere⟩
      · rw [if_pos hret, hsame]
        exact .inr ⟨hret, { k.mod with jumps := jumps, registered := false }, himage, rfl⟩
    · rw [if_pos hret, hs]
      exact .inr ⟨hret, { k.mod with jumps := jumps }, himage, rfl⟩

end Routines

/-- What a system call does to the files. -/
inductive Host.Stepped (c : SchedConfig) (k k' : Host M) : Prop
  | kept (dir : DentryPtr) (henabled : k'.Enabled ↔ k.Enabled)
      (hfiles : k'.files = { k.files with featuresDir := dir }) (hupdates : k'.updates = k.updates)
  | loaded (dir : DentryPtr) (a : FileAnswers) (hoff : ¬ k.Enabled) (hon : k'.Enabled)
      (hfiles : k'.files = installFiles c a { k.files with featuresDir := dir })
      (hupdates : k'.updates = k.updates ++ [(.install, a)])
  | unloaded (a : FileAnswers) (hon : k.Enabled) (hoff : ¬ k'.Enabled)
      (hfiles : k'.files = restoreFiles c a k.files)
      (hupdates : k'.updates = k.updates ++ [(.restore, a)])

/-- An update of a module that is inserted. -/
theorem Host.Did.stepped {op : SyncOp} (h : k.Did c img op a k') (hin : k.inserted = true)
    (hne : k.mod.schedulerEnable ≠ op.flag) (hbit : k.mod.schedulerEnable ≤ 1) :
    k.Stepped c k' := by
  have hin' : k'.inserted = true := h.inserted.trans hin
  cases op with
  | install =>
    exact .loaded k.files.featuresDir a (fun hon => hne hon.2) ⟨hin', h.enable⟩ h.files h.updates
  | restore =>
    refine .unloaded a ⟨hin, ?_⟩ (fun hon => ?_) h.files h.updates
    · have hne0 : k.mod.schedulerEnable ≠ 0 := hne
      omega
    · exact zero_ne_one (h.enable.symm.trans hon.2)

theorem Host.Did.sound {op : SyncOp} (h : k.Did c img op a k') (hin : k'.inserted = true)
    (hk : ∀ x, Elsewhere M x → k.mod.image.text x = img.text x) : k'.Sound c img where
  elsewhere := fun x hx => (h.elsewhere x hx).trans (hk x hx)
  absent := fun hout => absurd (hin.symm.trans hout) (by simp)
  present := fun _ => h.present

theorem Host.Present.cases (h : k.Present c img) :
    (k.mod.schedulerEnable = 0 ∧ k.mod.refcnt = 0 ∧ Whole M img k.mod.image) ∨
      (k.mod.schedulerEnable = 1 ∧ k.mod.refcnt = 1 ∧
        redirect M k.mod.jumps k.mod.image.text = k.mod.image.text ∧
        k.mod.image.classes = { orig := M.modClass, bak := img.classes.orig }) := by
  obtain ⟨img₁, hw, hset⟩ := h.settled
  rcases hset.cases with hunloaded | hloaded
  · exact .inl ⟨hunloaded.enable, hunloaded.refcnt,
      fun x hx => (hunloaded.heads x hx).trans (hw.heads x hx),
      hunloaded.classes.trans hw.classes⟩
  · refine .inr ⟨hloaded.enable, hloaded.refcnt, hloaded.text, ?_⟩
    rw [hloaded.classes, hw.classes]

theorem Host.insmod_spec (hM : M.arch.Documented) (h : k.Sound c img) (a : FileAnswers)
    (i : Insertion) :
    (k.insmod c a blank i).2.Sound c img ∧ k.Stepped c (k.insmod c a blank i).2 := by
  rw [Host.insmod]
  by_cases hin : k.inserted = true
  · rw [if_pos hin]
    exact ⟨h, .kept k.files.featuresDir Iff.rfl rfl rfl⟩
  rw [if_neg hin]
  obtain ⟨hw, hfiles⟩ := h.absent (Bool.eq_false_iff.mpr hin)
  have hlinked : (k.linked blank).files.wild = false →
      Provided c .orig (k.linked blank).files := fun hwild => (hfiles hwild).setDir _
  have hoff : ¬ k.Enabled := fun hon => hin hon.1
  rcases (k.linked blank).schedModInit_spec (k.linked blank).mod.image hM
    ⟨hw.heads, hw.classes⟩ rfl hlinked a i with ⟨hret, hdid⟩ | ⟨hret, s, hs, heq⟩
  · rw [if_neg (not_not.mpr hret)]
    refine ⟨⟨fun x hx => (hdid.elsewhere x hx).trans (h.elsewhere x hx), by simp, fun _ =>
      ⟨hdid.present.registered, hdid.present.settled, hdid.present.off, hdid.present.on⟩⟩, ?_⟩
    exact .loaded .isErrOrNull a hoff ⟨rfl, hdid.enable⟩ hdid.files hdid.updates
  · rw [if_pos hret, heq]
    refine ⟨⟨fun x hx => ?_, fun _ => ⟨⟨fun x hx => ?_, ?_⟩, hlinked⟩, fun hin' => absurd hin' hin⟩,
      .kept .isErrOrNull (iff_of_false (fun hon => hin hon.1) hoff) rfl rfl⟩
    · show s.image.text x = img.text x
      rw [hs]
      exact h.elsewhere x hx
    · show s.image.text x = img.text x
      rw [hs]
      exact hw.heads x hx
    · show s.image.classes.orig = img.classes.orig
      rw [hs]
      exact hw.classes

theorem Host.rmmod_spec (h : k.Sound c img) (busy : Bool) :
    (k.rmmod busy).2.Sound c img ∧ k.Stepped c (k.rmmod busy).2 ∧
      (k.Enabled → (k.rmmod busy).1 ≠ 0 ∧ (k.rmmod busy).2 = k) := by
  have hsame : k.Stepped c k := .kept k.files.featuresDir Iff.rfl rfl rfl
  rw [Host.rmmod]
  by_cases hin : k.inserted = true
  · have hcases := (h.present hin).cases
    rw [hin]
    by_cases href : (busy || decide (k.mod.refcnt ≠ 0)) = true
    · rw [if_neg (by simp), if_pos href]
      exact ⟨h, hsame, fun _ => ⟨by simp [EWOULDBLOCK], rfl⟩⟩
    · rw [if_neg (by simp), if_neg href]
      have hzero : k.mod.refcnt = 0 := by
        by_contra hne
        simp [hne] at href
      obtain ⟨hoff, -, hw⟩ := hcases.resolve_right fun hon => by omega
      have hno : ¬ k.Enabled := fun hon => zero_ne_one (hoff.symm.trans hon.2)
      refine ⟨⟨h.elsewhere, fun _ => ⟨⟨hw.heads, hw.classes⟩, (h.present hin).off hoff⟩,
        by simp⟩, .kept k.files.featuresDir (iff_of_false (by simp [Host.Enabled]) hno) rfl rfl,
        fun hon => absurd hon hno⟩
  · rw [Bool.eq_false_iff.mpr hin, if_pos (by simp)]
    exact ⟨h, hsame, fun hon => absurd hon.1 hin⟩

theorem Host.write_spec (hM : M.arch.Documented) (h : k.Sound c img) (a : FileAnswers)
    (w : Write) : (k.write c a w).2.Sound c img ∧ k.Stepped c (k.write c a w).2 := by
  have hsame : k.Stepped c k := .kept k.files.featuresDir Iff.rfl rfl rfl
  rw [Host.write]
  by_cases hopen : (k.inserted && k.mod.registered) = true
  · rw [if_pos hopen]
    have hin : k.inserted = true := by simp_all
    have hbit : k.mod.schedulerEnable ≤ 1 := by
      rcases (h.present hin).cases with hoff | hon <;> omega
    rcases Host.plugschedEnabledStore_spec hM (h.present hin) a w with heq | ⟨op, hne, -, hdid⟩
    · rw [heq]
      exact ⟨h, hsame⟩
    · exact ⟨hdid.sound (hdid.inserted.trans hin) h.elsewhere, hdid.stepped hin hne hbit⟩
  · rw [if_neg hopen]
    exact ⟨h, hsame⟩

/-- Every system call keeps what holds between two of them. -/
theorem Host.call_spec (hM : M.arch.Documented) (h : k.Sound c img) (x : SysCall) :
    (k.call c blank x).2.Sound c img ∧ k.Stepped c (k.call c blank x).2 := by
  cases x with
  | insmod i a => exact Host.insmod_spec hM h a i
  | rmmod busy => exact ⟨(Host.rmmod_spec h busy).1, (Host.rmmod_spec h busy).2.1⟩
  | write w a => exact Host.write_spec hM h a w

/-! ### Whole lives -/

/-- A kernel that has never seen the module. -/
structure Host.Pristine (c : SchedConfig) (img : Image T) (k : Host M) : Prop where
  absent : k.inserted = false
  image : k.mod.image = img
  files : Provided c .orig k.files
  updates : k.updates = []
  wild : k.files.wild = false
  features : c.schedDebug = true → k.files.features.isSome = true

theorem Host.Pristine.sound (h : k.Pristine c img) : k.Sound c img where
  elsewhere := fun x _ => by rw [h.image]
  absent := fun _ => ⟨⟨fun x _ => by rw [h.image], by rw [h.image]⟩, fun _ => h.files⟩
  present := fun hin => absurd (h.absent.symm.trans hin) (by simp)

theorem sound_of_run (hM : M.arch.Documented) {k₀ : Host M} (h₀ : k₀.Pristine c img)
    {calls : List (SysCall × ℤ)} (h : Run (Lives c blank) k₀ calls k) : k.Sound c img := by
  refine h.invariant (I := fun _ k => k.Sound c img) h₀.sound ?_
  rintro - k - - - ih ⟨x, _, -⟩
  exact (Host.call_spec hM ih x).1

/-- No file is served by the module. -/
structure NoModuleFile (f : SchedFiles) : Prop where
  proc : ∀ name, f.proc name ≠ some .mod
  features : ∀ d, f.features ≠ some (d, .mod)
  sysctl : Provider.mod ∉ f.sysctl

theorem Provided.noModuleFile {f : SchedFiles} (h : Provided c .orig f) : NoModuleFile f := by
  have horig : ∀ has, Provider.mod ≠ Provider.orig.when has := by
    intro has
    cases has <;> simp
  exact ⟨fun name hq => horig _ (h.proc name _ hq), fun d hq => horig _ (h.features d _ hq),
    fun hq => horig _ (h.sysctl _ hq)⟩

/-- **The module leaves no trace, and it cannot leave while it is enabled.**  After any
number of insertions, removals and writes, whatever fails on the way, as long as
`debugfs_remove` was not passed a stray pointer (`strayPointer_iff`): unless the module is
inserted and enabled, the heads of the redirected functions and the class tables are those of
the kernel, no file is served by the module and there is no reference to it; while it is
enabled, `rmmod` fails and changes nothing, and every file is served by the module; the rest
of the text, but for the stack protector, never changes. -/
theorem lifecycle_safe (M : SchedMod T) (hM : M.arch.Documented) (c : SchedConfig)
    (blank : Fin NR_SCHED_CLASS → T) (img : Image T) (k₀ : Host M) (h₀ : k₀.Pristine c img)
    (calls : List (SysCall × ℤ)) (k : Host M) (h : Run (Lives c blank) k₀ calls k)
    (hwild : k.files.wild = false) :
    (¬ k.Enabled →
      (∀ x, InHead M.arch M.fns x → k.mod.image.text x = img.text x) ∧
      k.mod.image.classes.orig = img.classes.orig ∧ NoModuleFile k.files ∧
      (k.inserted = true → k.mod.schedulerEnable = 0 ∧ k.mod.refcnt = 0)) ∧
    (k.Enabled →
      redirect M k.mod.jumps k.mod.image.text = k.mod.image.text ∧
      k.mod.image.classes = { orig := M.modClass, bak := img.classes.orig } ∧
      Provided c .mod k.files ∧ k.mod.refcnt = 1 ∧
      ∀ busy, (k.rmmod busy).1 ≠ 0 ∧ (k.rmmod busy).2 = k) ∧
    ∀ x, Elsewhere M x → k.mod.image.text x = img.text x := by
  have hsound := sound_of_run hM h₀ h
  refine ⟨fun hoff => ?_, fun hon => ?_, hsound.elsewhere⟩
  · by_cases hin : k.inserted = true
    · have hpresent := hsound.present hin
      obtain ⟨henable, href, hw⟩ :=
        hpresent.cases.resolve_right fun hcase => hoff ⟨hin, hcase.1⟩
      exact ⟨hw.heads, hw.classes, (hpresent.off henable hwild).noModuleFile,
        fun _ => ⟨henable, href⟩⟩
    · obtain ⟨hw, hfiles⟩ := hsound.absent (Bool.eq_false_iff.mpr hin)
      exact ⟨hw.heads, hw.classes, (hfiles hwild).noModuleFile, fun hin' => absurd hin' hin⟩
  · have hpresent := hsound.present hon.1
    obtain ⟨-, href, htext, hclasses⟩ := hpresent.cases.resolve_left fun hcase =>
      zero_ne_one (hcase.1.symm.trans hon.2)
    exact ⟨htext, hclasses, (hpresent.on hon.2 hwild).1, href,
      fun busy => (Host.rmmod_spec hsound busy).2.2 hon⟩

/-- A kernel with all four files, before the module of `arm64Sched` is inserted. -/
def arm64Kernel : Host (arm64Sched (some (8, 4))) where
  inserted := false
  mod := ModState.fresh _ arm64Image 0
  files :=
    { proc := fun _ => some .orig
      features := some (0, .orig)
      nextDentry := 1
      featuresDir := .isErrOrNull
      sysctl := {.orig}
      wild := false }
  updates := []

theorem arm64Kernel_pristine : arm64Kernel.Pristine ⟨true, true⟩ arm64Image where
  absent := rfl
  image := rfl
  files :=
    { proc := by
        intro name q hq
        obtain rfl : Provider.orig = q := Option.some.inj hq
        cases name <;> rfl
      features := by
        intro d q hq
        exact (Prod.mk.inj (Option.some.inj hq)).2.symm
      sysctl := fun q hq => Finset.mem_singleton.mp hq
      table := fun _ => Finset.mem_singleton_self _ }
  updates := rfl
  wild := rfl
  features := fun _ => rfl

/-- Insert, unload without being able to create the file sched_debug, load. -/
def quietCalls : List SysCall :=
  [.insmod ⟨0, 0, 0, 0⟩ ⟨fun _ => true, true, true⟩,
    .write ⟨(0, 0), 2, 0, 0⟩ ⟨fun name => name = .schedstat, true, true⟩,
    .write ⟨(0, 1), 2, 0, 0⟩ ⟨fun _ => true, true, true⟩]

/-- The kernel after these calls. -/
def quietKernel : Host (arm64Sched (some (8, 4))) :=
  quietCalls.foldl (fun k x => (k.call ⟨true, true⟩ (fun _ => 0) x).2) arm64Kernel

theorem lifecycle_safe_quietKernel :
    quietKernel.mod.image.classes = { orig := fun i => 10 + i, bak := fun i => i } ∧
      quietKernel.mod.refcnt = 1 ∧ (quietKernel.rmmod false).1 ≠ 0 :=
  have h := (lifecycle_safe (arm64Sched (some (8, 4))) arm64Insn_documented ⟨true, true⟩
    (fun _ => 0) arm64Image arm64Kernel arm64Kernel_pristine _ quietKernel
    (((Run.nil.snoc (.call quietCalls[0] _ rfl)).snoc (.call quietCalls[1] _ rfl)).snoc
      (.call quietCalls[2] _ rfl)) rfl).2.1 ⟨rfl, rfl⟩
  ⟨h.2.1, h.2.2.2.1, (h.2.2.2.2 false).1⟩

/-! ### The pointer that `find_dentry` returns -/

/-- A restore could not create `sched_features`. -/
def Lost (updates : List (SyncOp × FileAnswers)) : Prop :=
  ∃ a, (SyncOp.restore, a) ∈ updates ∧ a.features = false

/-- An install did not get to the root of debugfs. -/
def Missed (updates : List (SyncOp × FileAnswers)) : Prop :=
  ∃ a, (SyncOp.install, a) ∈ updates ∧ a.lookup = false

theorem missed_concat {u : List (SyncOp × FileAnswers)} {op : SyncOp} :
    Missed (u ++ [(op, a)]) ↔ Missed u ∨ op = .install ∧ a.lookup = false := by
  constructor
  · rintro ⟨b, hb, hmissed⟩
    rcases List.mem_append.mp hb with hu | hlast
    · exact .inl ⟨b, hu, hmissed⟩
    · obtain ⟨rfl, rfl⟩ := Prod.mk.inj (List.mem_singleton.mp hlast)
      exact .inr ⟨rfl, hmissed⟩
  · rintro (⟨b, hb, hmissed⟩ | ⟨rfl, hmissed⟩)
    · exact ⟨b, List.mem_append_left _ hb, hmissed⟩
    · exact ⟨a, by simp, hmissed⟩

/-- So it was, and there was an install later. -/
def Stray (updates : List (SyncOp × FileAnswers)) : Prop :=
  ∃ t₁ a t₂, updates = t₁ ++ (SyncOp.restore, a) :: t₂ ∧ a.features = false ∧
    ∃ a', (SyncOp.install, a') ∈ t₂

theorem Stray.lost {u : List (SyncOp × FileAnswers)} (h : Stray u) : Lost u := by
  obtain ⟨t₁, a, t₂, rfl, ha, -⟩ := h
  exact ⟨a, by simp, ha⟩

theorem lost_concat_install {u : List (SyncOp × FileAnswers)} :
    Lost (u ++ [(.install, a)]) ↔ Lost u := by
  simp [Lost]

theorem lost_concat_restore {u : List (SyncOp × FileAnswers)} :
    Lost (u ++ [(.restore, a)]) ↔ Lost u ∨ a.features = false := by
  constructor
  · rintro ⟨b, hb, hlost⟩
    rcases List.mem_append.mp hb with hu | hlast
    · exact .inl ⟨b, hu, hlost⟩
    · obtain rfl : b = a := by simpa using hlast
      exact .inr hlost
  · rintro (⟨b, hb, hlost⟩ | hlost)
    · exact ⟨b, List.mem_append_left _ hb, hlost⟩
    · exact ⟨a, by simp, hlost⟩

/-- An install makes a loss felt. -/
theorem stray_concat_install {u : List (SyncOp × FileAnswers)} :
    Stray (u ++ [(.install, a)]) ↔ Lost u := by
  constructor
  · intro h
    exact lost_concat_install.mp h.lost
  · rintro ⟨b, hb, hlost⟩
    obtain ⟨t₁, t₂, rfl⟩ := List.append_of_mem hb
    exact ⟨t₁, b, t₂ ++ [(.install, a)], by simp, hlost, a, by simp⟩

theorem stray_concat_restore {u : List (SyncOp × FileAnswers)} :
    Stray (u ++ [(.restore, a)]) ↔ Stray u := by
  constructor
  · rintro ⟨t₁, b, t₂, hu, hlost, a', ha'⟩
    obtain ⟨t, x, rfl⟩ : ∃ t x, t₂ = t ++ [x] :=
      ⟨_, _, (List.dropLast_append_getLast (List.ne_nil_of_mem ha')).symm⟩
    have hsplit : u ++ [(SyncOp.restore, a)] = (t₁ ++ (.restore, b) :: t) ++ [x] := by
      rw [hu]
      simp
    obtain ⟨rfl, hx⟩ := List.append_inj' hsplit rfl
    obtain rfl : (SyncOp.restore, a) = x := by simpa using hx
    exact ⟨t₁, b, t, rfl, hlost, a', by simpa using ha'⟩
  · rintro ⟨t₁, b, t₂, rfl, hlost, a', ha'⟩
    exact ⟨t₁, b, t₂ ++ [(.restore, a)], by simp, hlost, a', List.mem_append_left _ ha'⟩

/-- What the files remember of the updates. -/
structure Remembers (k : Host M) : Prop where
  wild : k.files.wild = true ↔ Missed k.updates ∨ Stray k.updates
  off : ¬ k.Enabled → k.files.wild = false → (Lost k.updates ↔ k.files.features = none)
  on : k.Enabled → k.files.wild = false → ¬ Lost k.updates

theorem Remembers.stepped (hd : c.schedDebug = true) (h : Remembers k)
    (hwild : k.files.wild = false) (hpoint : k.Enabled → Pointing k.files)
    (hstep : k.Stepped c k') : Remembers k' := by
  have hno : ¬ (Missed k.updates ∨ Stray k.updates) := by
    rw [← h.wild, hwild]
    exact Bool.false_ne_true
  obtain ⟨hmissed, hstray⟩ := not_or.mp hno
  cases hstep with
  | kept dir henabled hfiles hupdates =>
    refine ⟨?_, ?_, ?_⟩
    · rw [hfiles, hupdates]
      exact h.wild
    · rw [henabled, hfiles, hupdates]
      exact h.off
    · rw [henabled, hfiles, hupdates]
      exact h.on
  | loaded dir a hoff hon hfiles hupdates =>
    have hlost := h.off hoff hwild
    rw [installFiles_eq, if_pos hd] at hfiles
    by_cases hfound : found a { k.files with featuresDir := dir } = true
    · -- the file was there, so it was not lost
      rw [if_pos hfound] at hfiles
      obtain ⟨hlookup, hsome⟩ := Bool.and_eq_true_iff.mp hfound
      have hkept : ¬ Lost k.updates := by
        rw [hlost]
        intro hnone
        simp [hnone] at hsome
      refine ⟨?_, fun hoff' => absurd hon hoff', fun _ _ => ?_⟩
      · rw [hupdates, missed_concat, stray_concat_install, hfiles]
        refine iff_of_false (by simp [hwild]) ?_
        rintro ((hm | ⟨-, hm⟩) | hl)
        · exact hmissed hm
        · exact Bool.false_ne_true (hm.symm.trans hlookup)
        · exact hkept hl
      · rw [hupdates, lost_concat_install]
        exact hkept
    · rw [if_neg hfound] at hfiles
      have hcause : a.lookup = false ∨ Lost k.updates := by
        rw [hlost]
        simpa [found, imp_iff_not_or] using hfound
      refine ⟨?_, fun hoff' => absurd hon hoff', fun _ hno => ?_⟩
      · rw [hupdates, missed_concat, stray_concat_install, hfiles]
        refine iff_of_true rfl ?_
        rcases hcause with hm | hl
        · exact .inl (.inr ⟨rfl, hm⟩)
        · exact .inr hl
      · rw [hfiles] at hno
        cases hno
  | unloaded a hon hoff hfiles hupdates =>
    rw [restoreFiles_eq c a (fun _ => hpoint hon), if_pos hd] at hfiles
    refine ⟨?_, fun _ _ => ?_, fun hyes => absurd hyes hoff⟩
    · rw [hupdates, missed_concat, stray_concat_restore, hfiles]
      simp [hwild, hmissed, hstray]
    · rw [hupdates, lost_concat_restore, hfiles]
      have hkept := h.on hon hwild
      cases a.features <;> simp [hkept]

/-- Without `CONFIG_SCHED_DEBUG` nobody calls `debugfs_remove`. -/
theorem Host.Stepped.wild_of_not_schedDebug (hd : c.schedDebug = false)
    (hstep : k.Stepped c k') : k'.files.wild = k.files.wild := by
  cases hstep with
  | kept dir henabled hfiles hupdates => rw [hfiles]
  | loaded dir a hoff hon hfiles hupdates =>
    rw [hfiles, installFiles_eq, hd]
    rfl
  | unloaded a hon hoff hfiles hupdates =>
    rw [hfiles,
      restoreFiles_eq c a (fun htrue => absurd (hd.symm.trans htrue) Bool.false_ne_true), hd]
    rfl

/-- **When the pointer is stray.**  In every life of the kernel, `debugfs_remove` has been
called on a pointer to no file if and only if there is `sched_features` in this configuration,
and either some load did not get to the root of debugfs, or some unload could not create the
file anew and some load came after that unload. -/
theorem strayPointer_iff (M : SchedMod T) (hM : M.arch.Documented) (c : SchedConfig)
    (blank : Fin NR_SCHED_CLASS → T) (img : Image T) (k₀ : Host M) (h₀ : k₀.Pristine c img)
    (calls : List (SysCall × ℤ)) (k : Host M) (h : Run (Lives c blank) k₀ calls k) :
    k.files.wild = true ↔ c.schedDebug = true ∧
      ((∃ a, (SyncOp.install, a) ∈ k.updates ∧ a.lookup = false) ∨
        ∃ t₁ a t₂, k.updates = t₁ ++ (SyncOp.restore, a) :: t₂ ∧ a.features = false ∧
          ∃ a', (SyncOp.install, a') ∈ t₂) := by
  cases hd : c.schedDebug with
  | false =>
    have hwild : k.files.wild = false := by
      refine h.invariant (I := fun _ k => k.files.wild = false) h₀.wild ?_
      rintro _ k _ _ hrun ih ⟨x, _, -⟩
      exact ((Host.call_spec hM (sound_of_run hM h₀ hrun) x).2.wild_of_not_schedDebug hd).trans
        ih
    simp [hwild]
  | true =>
    have hremembers : Remembers k := by
      refine h.invariant (I := fun _ k => Remembers k) ?_ ?_
      · have hsome : k₀.files.features ≠ none := by
          intro hnone
          simpa [hnone] using h₀.features hd
        refine ⟨?_, fun _ _ => ?_, fun hon => ?_⟩
        · simp [h₀.wild, h₀.updates, Missed, Stray]
        · simp [h₀.updates, Lost, hsome]
        · exact absurd (h₀.absent.symm.trans hon.1) (by simp)
      · rintro _ k _ _ hrun ih ⟨x, _, hwild⟩
        have hsound := sound_of_run hM h₀ hrun
        exact ih.stepped hd hwild (fun hon => ((hsound.present hon.1).on hon.2 hwild).2 hd)
          (Host.call_spec hM hsound x).2
    rw [hremembers.wild]
    simp [Missed, Stray]

/-- Insert, unload without being able to create `sched_features`, load. -/
def lossyCalls : List SysCall :=
  [.insmod ⟨0, 0, 0, 0⟩ ⟨fun _ => true, true, true⟩,
    .write ⟨(0, 0), 2, 0, 0⟩ ⟨fun _ => true, false, true⟩,
    .write ⟨(0, 1), 2, 0, 0⟩ ⟨fun _ => true, true, true⟩]

/-- The kernel after these calls. -/
def lossyKernel : Host (arm64Sched (some (8, 4))) :=
  lossyCalls.foldl (fun k x => (k.call ⟨true, true⟩ (fun _ => 0) x).2) arm64Kernel

/-- The same module, inserted while debugfs is not mounted. -/
def unmountedKernel : Host (arm64Sched (some (8, 4))) :=
  (arm64Kernel.call ⟨true, true⟩ (fun _ => 0)
    (.insmod ⟨0, 0, 0, 0⟩ ⟨fun _ => true, true, false⟩)).2

theorem strayPointer_iff_lossyKernel :
    lossyKernel.files.wild = true ∧ unmountedKernel.files.wild = true :=
  ⟨(strayPointer_iff (arm64Sched (some (8, 4))) arm64Insn_documented ⟨true, true⟩
    (fun _ => 0) arm64Image arm64Kernel arm64Kernel_pristine _ lossyKernel
    (((Run.nil.snoc (.call lossyCalls[0] _ rfl)).snoc (.call lossyCalls[1] _ rfl)).snoc
      (.call lossyCalls[2] _ rfl))).mpr
    ⟨rfl, .inr ⟨[(.install, ⟨fun _ => true, true, true⟩)], ⟨fun _ => true, false, true⟩,
      [(.install, ⟨fun _ => true, true, true⟩)], rfl, rfl, _, List.mem_singleton_self _⟩⟩,
  (strayPointer_iff (arm64Sched (some (8, 4))) arm64Insn_documented ⟨true, true⟩
    (fun _ => 0) arm64Image arm64Kernel arm64Kernel_pristine _ unmountedKernel
    (Run.nil.snoc (.call _ _ rfl))).mpr
    ⟨rfl, .inl ⟨⟨fun _ => true, true, false⟩, List.mem_singleton_self _, rfl⟩⟩⟩

end Plugsched
