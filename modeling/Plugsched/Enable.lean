/-
Loading and unloading the scheduler, one call at a time.

`schedModInit` is `sched_mod_init`, `plugschedEnabledStore` is a write to the
file `enable`.  What the kernel functions they call return (parsing the written
number, creating the memory pools, registering the files, stopping the machine)
is given with each call.  The interfaces in procfs, debugfs and sysctl, the
clock and the printing are left out.

* `loadSchedRoutine_spec`, `unloadSchedRoutine_spec` — a routine does all it has
  to do or nothing;
* `enable_iff_loaded` — the flag, the redirection, the pools and the reference
  go together, after any number of calls.
-/
import Plugsched.SyncEffect

open ByteMem Runs

namespace Plugsched

variable {T : Type*} {M : SchedMod T}

/-- What the module and the kernel hold.  `history` lists the successful calls of
`sync_sched_mod`; the code has no such list. -/
structure ModState (M : SchedMod T) where
  image : Image T
  jumps : List (Jump M.arch)
  schedulerEnable : ℕ
  refcnt : ℕ
  mempools : Bool
  registered : Bool
  history : List SyncOp

/-- The module is linked in, its code has not run; there are `refcnt` references. -/
def ModState.fresh (M : SchedMod T) (img : Image T) (refcnt : ℕ) : ModState M where
  image := img
  jumps := []
  schedulerEnable := 0
  refcnt := refcnt
  mempools := false
  registered := false
  history := []

/-- `sync_sched_mod` with its effect, when `stop_machine` returns `ret`. -/
def ModState.sync (op : SyncOp) (ret : ℤ) (s : ModState M) : ModState M :=
  { s with
    image := syncSchedMod M s.jumps op ret s.image
    history := if ret = 0 then s.history ++ [op] else s.history }

/-- `load_sched_routine`, when `sched_mempools_create` returns `created` and
`stop_machine` returns `stopped`. -/
def loadSchedRoutine (created stopped : ℤ) (s : ModState M) : ℤ × ModState M :=
  -- the reference keeps `rmmod` away until the module is disabled
  let s := { s with refcnt := s.refcnt + 1 }
  if created ≠ 0 then (-ENOMEM, { s with refcnt := s.refcnt - 1 })
  else
    let s := { s with mempools := true }
    let s := s.sync .install stopped
    if stopped ≠ 0 then (stopped, { s with mempools := false, refcnt := s.refcnt - 1 })
    else (0, { s with schedulerEnable := 1 })

/-- `unload_sched_routine`, when `stop_machine` returns `stopped`. -/
def unloadSchedRoutine (stopped : ℤ) (s : ModState M) : ℤ × ModState M :=
  let s := s.sync .restore stopped
  if stopped ≠ 0 then (stopped, s)
  else (0, { s with mempools := false, refcnt := s.refcnt - 1, schedulerEnable := 0 })

/-- A write to `enable`: what `kstrtoul` returns and stores, the length of the
buffer, and what the functions called later return. -/
structure Write where
  parsed : ℤ × ℕ
  count : ℕ
  created : ℤ
  stopped : ℤ

/-- `!!val`. -/
def truth (val : ℕ) : ℕ := if val = 0 then 0 else 1

theorem truth_eq (val : ℕ) : truth val = 0 ∨ truth val = 1 := by
  rw [truth]
  split
  · exact .inl rfl
  · exact .inr rfl

/-- `plugsched_enabled_store`. -/
def plugschedEnabledStore (w : Write) (s : ModState M) : ℤ × ModState M :=
  if w.parsed.1 ≠ 0 then (w.parsed.1, s)
  else
    let val := truth w.parsed.2
    -- asking for what is the case already is a success
    if s.schedulerEnable = val then (w.count, s)
    else
      let r :=
        if val ≠ 0 then loadSchedRoutine w.created w.stopped s
        else unloadSchedRoutine w.stopped s
      if r.1 ≠ 0 then r else (w.count, r.2)

/-- What happens while the module is inserted: the results of
`register_plugsched_enable` and `register_tainted_functions`, and those of the
functions that loading calls. -/
structure Insertion where
  registerEnable : ℤ
  registerTainted : ℤ
  created : ℤ
  stopped : ℤ

/-- `register_plugsched_sysfs`. -/
def registerPlugschedSysfs (i : Insertion) (s : ModState M) : ℤ × ModState M :=
  if i.registerEnable ≠ 0 then (-ENOMEM, s)
  else
    let s := { s with registered := true }
    -- `unregister_plugsched_sysfs` takes the file away again
    if i.registerTainted ≠ 0 then (-ENOMEM, { s with registered := false })
    else (0, s)

/-- `sched_mod_init`.  What a refused `jump_init_all` has saved goes away with the
module. -/
def schedModInit (i : Insertion) (s : ModState M) : ℤ × ModState M :=
  match jumpInitAll M.arch M.fns s.image.text with
  | .error _ => (-EBUSY, s)
  | .ok jumps =>
    let r := registerPlugschedSysfs i { s with jumps := jumps }
    if r.1 ≠ 0 then r
    else
      let r := loadSchedRoutine i.created i.stopped r.2
      if r.1 ≠ 0 then (r.1, { r.2 with registered := false }) else (0, r.2)

/-! ### Loaded and unloaded -/

/-- Everything that is written to the text when the module scheduler goes in. -/
def redirect (M : SchedMod T) (jumps : List (Jump M.arch)) (text : Mem Byte) : Mem Byte :=
  disableStackProtector M.arch (jumpInstall jumps text)

theorem redirect_idem (hM : M.arch.Documented) (jumps : List (Jump M.arch))
    (text : Mem Byte) : redirect M jumps (redirect M jumps text) = redirect M jumps text := by
  have hpatch : ∀ text, redirect M jumps text =
      applyAll (installPatches jumps ++ nopPatches M.arch) text := by
    intro text
    rw [redirect, disableStackProtector_eq hM, jumpInstall_eq hM, applyAll_append]
  rw [hpatch, hpatch, applyAll_idem]

/-- The kernel runs its own scheduler: the flag is 0, there are no pools and no
reference taken, tables and heads are those of `img`. -/
structure Unloaded (img : Image T) (base : ℕ) (s : ModState M) : Prop where
  enable : s.schedulerEnable = 0
  refcnt : s.refcnt = base
  mempools : s.mempools = false
  last : s.history.getLast? ≠ some .install
  classes : s.image.classes.orig = img.classes.orig
  heads : ∀ x, InHead M.arch M.fns x → s.image.text x = img.text x

/-- The scheduler of the module runs: the flag is 1, there are pools and one
reference more, the tables are those of the module with the old ones saved, and
redirecting the text once more would not change it. -/
structure Loaded (img : Image T) (base : ℕ) (s : ModState M) : Prop where
  enable : s.schedulerEnable = 1
  refcnt : s.refcnt = base + 1
  mempools : s.mempools = true
  last : s.history.getLast? = some .install
  classes : s.image.classes = { orig := M.modClass, bak := img.classes.orig }
  text : redirect M s.jumps s.image.text = s.image.text

section Calls

variable {img : Image T} {base : ℕ} {s : ModState M}

/-- A call of `sync_sched_mod` that fails leaves everything as it is. -/
theorem sync_of_ne_zero (op : SyncOp) {ret : ℤ} (hret : ret ≠ 0) (s : ModState M) :
    s.sync op ret = s := by
  rw [ModState.sync, syncSchedMod, if_neg hret, if_neg hret]

/-- Loading does all of it, or takes back what it had done. -/
theorem loadSchedRoutine_spec (hM : M.arch.Documented) (h : Unloaded img base s)
    (created stopped : ℤ) :
    ((loadSchedRoutine created stopped s).1 = 0 ∧
      Loaded img base (loadSchedRoutine created stopped s).2) ∨
    ((loadSchedRoutine created stopped s).1 ≠ 0 ∧
      (loadSchedRoutine created stopped s).2 = s) := by
  by_cases hcreated : created = 0
  · by_cases hstopped : stopped = 0
    · refine .inl ⟨by simp [loadSchedRoutine, hcreated, hstopped], ?_⟩
      have hload : (loadSchedRoutine created stopped s).2 =
          { s with
            image := syncEffect M s.jumps .install s.image
            refcnt := s.refcnt + 1
            mempools := true
            history := s.history ++ [.install]
            schedulerEnable := 1 } := by
        simp [loadSchedRoutine, ModState.sync, syncSchedMod, hcreated, hstopped]
      rw [hload]
      exact
        { enable := rfl
          refcnt := congrArg (· + 1) h.refcnt
          mempools := rfl
          last := List.getLast?_concat
          classes := by
            show switchSchedClass M.modClass true s.image.classes = _
            rw [switchSchedClass_true, h.classes]
          text := redirect_idem hM s.jumps s.image.text }
    · refine .inr ⟨by simp [loadSchedRoutine, hcreated, hstopped], ?_⟩
      have hpools : { s with mempools := false } = s := by rw [← h.mempools]
      simpa [loadSchedRoutine, hcreated, hstopped, sync_of_ne_zero] using hpools
  · refine .inr ⟨by simp [loadSchedRoutine, hcreated, ENOMEM], ?_⟩
    simp [loadSchedRoutine, hcreated]

/-- Unloading does all of it or nothing. -/
theorem unloadSchedRoutine_spec (hM : M.arch.Documented)
    (hinit : jumpInitAll M.arch M.fns img.text = .ok s.jumps) (h : Loaded img base s)
    (stopped : ℤ) :
    ((unloadSchedRoutine stopped s).1 = 0 ∧
      Unloaded img base (unloadSchedRoutine stopped s).2) ∨
    ((unloadSchedRoutine stopped s).1 ≠ 0 ∧ (unloadSchedRoutine stopped s).2 = s) := by
  by_cases hstopped : stopped = 0
  · refine .inl ⟨by simp [unloadSchedRoutine, hstopped], ?_⟩
    have hunload : (unloadSchedRoutine stopped s).2 =
        { s with
          image := syncEffect M s.jumps .restore s.image
          refcnt := s.refcnt - 1
          mempools := false
          history := s.history ++ [.restore]
          schedulerEnable := 0 } := by
      simp [unloadSchedRoutine, ModState.sync, syncSchedMod, hstopped]
    rw [hunload]
    exact
      { enable := rfl
        refcnt := by
          show s.refcnt - 1 = base
          rw [h.refcnt, Nat.add_sub_cancel]
        mempools := rfl
        last := by
          rw [List.getLast?_concat]
          simp
        classes := by
          show (switchSchedClass M.modClass false s.image.classes).orig = _
          rw [switchSchedClass_false, h.classes]
        heads := fun x hx => jumpRemove_inHead hM hinit hx _ }
  · exact .inr (by simp [unloadSchedRoutine, hstopped, sync_of_ne_zero])

/-! ### Sessions -/

/-- What holds between two calls. -/
structure Settled (img : Image T) (base : ℕ) (s : ModState M) : Prop where
  cases : Unloaded img base s ∨ Loaded img base s
  saved : s.registered = true → jumpInitAll M.arch M.fns img.text = .ok s.jumps

/-- The routines leave the saved heads and the files alone. -/
theorem loadSchedRoutine_frame (created stopped : ℤ) (s : ModState M) :
    (loadSchedRoutine created stopped s).2.jumps = s.jumps ∧
      (loadSchedRoutine created stopped s).2.registered = s.registered := by
  rw [loadSchedRoutine]
  dsimp only
  split
  · exact ⟨rfl, rfl⟩
  · split <;> exact ⟨rfl, rfl⟩

theorem unloadSchedRoutine_frame (stopped : ℤ) (s : ModState M) :
    (unloadSchedRoutine stopped s).2.jumps = s.jumps ∧
      (unloadSchedRoutine stopped s).2.registered = s.registered := by
  rw [unloadSchedRoutine]
  split <;> exact ⟨rfl, rfl⟩

/-- A write calls the routine that its value asks for, if the flag is different. -/
theorem plugschedEnabledStore_cases (w : Write) (s : ModState M) :
    (plugschedEnabledStore w s).2 = s ∨
    (s.schedulerEnable ≠ 1 ∧ plugschedEnabledStore w s =
      if (loadSchedRoutine w.created w.stopped s).1 ≠ 0 then
        loadSchedRoutine w.created w.stopped s
      else (w.count, (loadSchedRoutine w.created w.stopped s).2)) ∨
    (s.schedulerEnable ≠ 0 ∧ plugschedEnabledStore w s =
      if (unloadSchedRoutine w.stopped s).1 ≠ 0 then unloadSchedRoutine w.stopped s
      else (w.count, (unloadSchedRoutine w.stopped s).2)) := by
  rw [plugschedEnabledStore]
  split
  · exact .inl rfl
  · dsimp only
    split
    · exact .inl rfl
    · next hne =>
      by_cases hval : w.parsed.2 = 0
      · have htruth : truth w.parsed.2 = 0 := if_pos hval
        rw [htruth] at hne ⊢
        exact .inr (.inr ⟨hne, rfl⟩)
      · have htruth : truth w.parsed.2 = 1 := if_neg hval
        rw [htruth] at hne ⊢
        exact .inr (.inl ⟨hne, rfl⟩)

/-- A write leaves the module settled, and as it was unless it returns the length
of the buffer. -/
theorem plugschedEnabledStore_spec (hM : M.arch.Documented) (h : Settled img base s)
    (hreg : s.registered = true) (w : Write) :
    Settled img base (plugschedEnabledStore w s).2 ∧
      ((plugschedEnabledStore w s).1 ≠ w.count → (plugschedEnabledStore w s).2 = s) := by
  rcases plugschedEnabledStore_cases w s with heq | ⟨hne, heq⟩ | ⟨hne, heq⟩
  · rw [heq]
    exact ⟨h, fun _ => rfl⟩
  · have hunloaded : Unloaded img base s :=
      h.cases.resolve_right fun hloaded => hne hloaded.enable
    rw [heq]
    rcases loadSchedRoutine_spec hM hunloaded w.created w.stopped with ⟨hret, hloaded⟩ | ⟨hret, hs⟩
    · rw [if_neg (not_not.mpr hret)]
      refine ⟨⟨.inr hloaded, ?_⟩, fun hcount => absurd rfl hcount⟩
      rw [(loadSchedRoutine_frame w.created w.stopped s).1]
      exact fun _ => h.saved hreg
    · rw [if_pos hret, hs]
      exact ⟨h, fun _ => rfl⟩
  · have hloaded : Loaded img base s :=
      h.cases.resolve_left fun hunloaded => hne hunloaded.enable
    rw [heq]
    rcases unloadSchedRoutine_spec hM (h.saved hreg) hloaded w.stopped with
      ⟨hret, hunloaded⟩ | ⟨hret, hs⟩
    · rw [if_neg (not_not.mpr hret)]
      refine ⟨⟨.inl hunloaded, ?_⟩, fun hcount => absurd rfl hcount⟩
      rw [(unloadSchedRoutine_frame w.stopped s).1]
      exact fun _ => h.saved hreg
    · rw [if_pos hret, hs]
      exact ⟨h, fun _ => rfl⟩

theorem unloaded_fresh (M : SchedMod T) (img : Image T) (base : ℕ) (jumps : List (Jump M.arch))
    (registered : Bool) :
    Unloaded img base
      { ModState.fresh M img base with jumps := jumps, registered := registered } where
  enable := rfl
  refcnt := rfl
  mempools := rfl
  last := by simp [ModState.fresh]
  classes := rfl
  heads := fun _ _ => rfl

theorem registerPlugschedSysfs_spec (i : Insertion) {s : ModState M}
    (hreg : s.registered = false) :
    registerPlugschedSysfs i s = (0, { s with registered := true }) ∨
      ((registerPlugschedSysfs i s).1 ≠ 0 ∧ (registerPlugschedSysfs i s).2 = s) := by
  have hs : { s with registered := false } = s := by rw [← hreg]
  rw [registerPlugschedSysfs]
  split
  · exact .inr ⟨by simp [ENOMEM], rfl⟩
  · dsimp only
    split
    · exact .inr ⟨by simp [ENOMEM], hs⟩
    · exact .inl rfl

/-- Inserting the module leaves it settled, whether it succeeds or not. -/
theorem schedModInit_spec (hM : M.arch.Documented) (img : Image T) (base : ℕ) (i : Insertion) :
    Settled img base (schedModInit i (ModState.fresh M img base)).2 := by
  rw [schedModInit]
  split
  · exact ⟨.inl (unloaded_fresh M img base [] false), by simp [ModState.fresh]⟩
  · next jumps hinit =>
    have hstopped : Settled img base
        { ModState.fresh M img base with jumps := jumps, registered := false } :=
      ⟨.inl (unloaded_fresh M img base jumps false), by simp⟩
    rcases registerPlugschedSysfs_spec i (s := { ModState.fresh M img base with jumps := jumps })
      rfl with hok | ⟨hret, hs⟩
    · rw [hok]
      dsimp only
      rw [if_neg (not_not.mpr rfl)]
      have hframe := loadSchedRoutine_frame i.created i.stopped
        { ModState.fresh M img base with jumps := jumps, registered := true }
      rcases loadSchedRoutine_spec hM (unloaded_fresh M img base jumps true) i.created i.stopped
        with ⟨hret, hloaded⟩ | ⟨hret, hs⟩
      · rw [if_neg (not_not.mpr hret)]
        refine ⟨.inr hloaded, fun _ => ?_⟩
        rw [hframe.1]
        exact hinit
      · rw [if_pos hret, hs]
        exact hstopped
    · dsimp only
      rw [if_pos hret, hs]
      exact hstopped

end Calls

/-- A write to the file, which is there while it is registered. -/
inductive Writes : ModState M → Option Write → ModState M → Prop
  | store {s : ModState M} (w : Write) (hreg : s.registered = true) :
      Writes s (some w) (plugschedEnabledStore w s).2

theorem settled_of_run (hM : M.arch.Documented) {img : Image T} {base : ℕ} {i : Insertion}
    {ws : List Write} {s : ModState M}
    (h : Run Writes (schedModInit i (ModState.fresh M img base)).2 ws s) :
    Settled img base s := by
  refine h.invariant (I := fun _ s => Settled img base s) (schedModInit_spec hM img base i) ?_
  rintro - s - - - ih ⟨w, hreg⟩
  exact (plugschedEnabledStore_spec hM ih hreg w).1

/-- **The flag tells the truth.**  After the insertion of the module and any
number of writes, whatever fails on the way: the flag is 1 exactly if the last
successful update was an install, exactly if the pools exist, and exactly if
loading holds its reference; tables and heads are those of the module when the
flag is 1 and those of the kernel when it is not; and a write that does not return
the length of its buffer has changed nothing. -/
theorem enable_iff_loaded (M : SchedMod T) (hM : M.arch.Documented) (img : Image T) (base : ℕ)
    (i : Insertion) (ws : List Write) (s : ModState M)
    (h : Run Writes (schedModInit i (ModState.fresh M img base)).2 ws s) :
    (s.schedulerEnable = 1 ↔ s.history.getLast? = some .install) ∧
    (s.schedulerEnable = 1 ↔ s.mempools = true) ∧
    (s.schedulerEnable = 1 ↔ s.refcnt = base + 1) ∧
    (s.schedulerEnable = 1 → redirect M s.jumps s.image.text = s.image.text ∧
      s.image.classes = { orig := M.modClass, bak := img.classes.orig }) ∧
    (s.schedulerEnable ≠ 1 → s.schedulerEnable = 0 ∧ s.refcnt = base ∧
      s.image.classes.orig = img.classes.orig ∧
      ∀ x, InHead M.arch M.fns x → s.image.text x = img.text x) ∧
    ∀ w, s.registered = true → (plugschedEnabledStore w s).1 ≠ w.count →
      (plugschedEnabledStore w s).2 = s := by
  have hset := settled_of_run hM h
  have hstore : ∀ w, s.registered = true → (plugschedEnabledStore w s).1 ≠ w.count →
      (plugschedEnabledStore w s).2 = s :=
    fun w hreg => (plugschedEnabledStore_spec hM hset hreg w).2
  rcases hset.cases with hunloaded | hloaded
  · have hne : s.schedulerEnable ≠ 1 := by
      rw [hunloaded.enable]
      exact zero_ne_one
    have hrefcnt : s.refcnt ≠ base + 1 := by
      have := hunloaded.refcnt
      omega
    refine ⟨iff_of_false hne hunloaded.last, iff_of_false hne ?_, iff_of_false hne hrefcnt,
      fun hone => absurd hone hne, fun _ => ?_, hstore⟩
    · rw [hunloaded.mempools]
      exact Bool.false_ne_true
    · exact ⟨hunloaded.enable, hunloaded.refcnt, hunloaded.classes, hunloaded.heads⟩
  · exact ⟨iff_of_true hloaded.enable hloaded.last, iff_of_true hloaded.enable hloaded.mempools,
      iff_of_true hloaded.enable hloaded.refcnt, fun _ => ⟨hloaded.text, hloaded.classes⟩,
      fun hne => absurd hloaded.enable hne, hstore⟩

/-- Insert, unload, fail to load because the machine does not stop, load. -/
def busySession : ModState (arm64Sched (some (8, 4))) :=
  let s := (schedModInit ⟨0, 0, 0, 0⟩ (ModState.fresh _ arm64Image 1)).2
  let s := (plugschedEnabledStore ⟨(0, 0), 2, 0, 0⟩ s).2
  let s := (plugschedEnabledStore ⟨(0, 1), 2, 0, -16⟩ s).2
  (plugschedEnabledStore ⟨(0, 7), 2, 0, 0⟩ s).2

theorem enable_iff_loaded_busySession :
    busySession.schedulerEnable = 1 ∧ busySession.mempools = true ∧ busySession.refcnt = 2 ∧
      busySession.history = [.install, .restore, .install] ∧
      busySession.image.classes = { orig := fun i => 10 + i, bak := fun i => i } :=
  have h := enable_iff_loaded (arm64Sched (some (8, 4))) arm64Insn_documented arm64Image 1
    ⟨0, 0, 0, 0⟩ _ busySession
    (((Run.nil.snoc (.store ⟨(0, 0), 2, 0, 0⟩ rfl)).snoc (.store ⟨(0, 1), 2, 0, -16⟩ rfl)).snoc
      (.store ⟨(0, 7), 2, 0, 0⟩ rfl))
  ⟨rfl, h.2.1.mp rfl, h.2.2.1.mp rfl, rfl, (h.2.2.2.1 rfl).2⟩

end Plugsched
