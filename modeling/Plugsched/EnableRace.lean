/-
Concurrent calls: the initialisation of the module and any number of writes to
the file `enable`, interleaved step by step.

The steps of a call are the statements of `sched_mod_init`, of
`plugsched_enabled_store` and of the two routines that touch what the calls
share.  The update itself is one step, as `cpu_maps_update_begin` excludes others;
nothing else is locked.  Other live patchers may write to the text of the kernel
while the module scheduler is not installed.

* `solo_load`, `solo_unload`, `solo_store`, `solo_init` — a call that is not
  disturbed does what the sequential model says;
* `serial_alternates` — what holds when no write acts on the flag while another
  call is at work;
* `twoLoads_not_alternating` — what may happen otherwise.
-/
import Plugsched.Enable
import Plugsched.Threads

open ByteMem Runs Threads

namespace Plugsched

/-- `sched_mod_init`, and the writes to the file. -/
inductive Caller where
  | init
  | store (i : ℕ)
  deriving DecidableEq

/-- Where a call is: before this statement. -/
inductive Place where
  /-- `sched_mod_init`: `jump_init_all`, and the two parts of
  `register_plugsched_sysfs`. -/
  | check
  | register
  | taint
  /-- A write that has not begun; the test of `scheduler_enable`. -/
  | idle
  | test
  /-- `load_sched_routine`: `__module_get`, `sched_mempools_create`,
  `sync_sched_mod`, then on failure `sched_mempools_destroy` and `module_put`, else
  the flag. -/
  | get
  | create
  | install
  | installFailed (ret : ℤ)
  | put (ret : ℤ)
  | enable
  /-- `unload_sched_routine`: `sync_sched_mod`, `sched_mempools_destroy`,
  `module_put`, the flag. -/
  | restore
  | destroy
  | putRef
  | disable
  /-- `unregister_plugsched_sysfs` when loading has failed. -/
  | unregister (ret : ℤ)
  | returned (ret : ℤ)
  deriving DecidableEq

/-- What the calls are given and what the kernel functions answer them. -/
structure Inputs where
  insertion : Insertion
  writes : ℕ → Write

def Inputs.created (inp : Inputs) : Caller → ℤ
  | .init => inp.insertion.created
  | .store i => (inp.writes i).created

def Inputs.stopped (inp : Inputs) : Caller → ℤ
  | .init => inp.insertion.stopped
  | .store i => (inp.writes i).stopped

/-- Where a routine that returns `ret` leaves its caller. -/
def Inputs.leave (inp : Inputs) : Caller → ℤ → Place
  | .init, ret => if ret ≠ 0 then .unregister ret else .returned 0
  | .store i, ret => .returned (if ret ≠ 0 then ret else (inp.writes i).count)

variable {T : Type*} {M : SchedMod T}

/-- The next statement of a call. -/
def callStep (inp : Inputs) (c : Caller) (p : Place) (s : ModState M) :
    Option (Place × ModState M) :=
  match p with
  | .check =>
    match jumpInitAll M.arch M.fns s.image.text with
    | .error _ => some (.returned (-EBUSY), s)
    | .ok jumps => some (.register, { s with jumps := jumps })
  | .register =>
    if inp.insertion.registerEnable ≠ 0 then some (.returned (-ENOMEM), s)
    else some (.taint, { s with registered := true })
  | .taint =>
    if inp.insertion.registerTainted ≠ 0 then some (.unregister (-ENOMEM), s)
    else some (.get, s)
  | .idle =>
    match c with
    | .init => none
    | .store i =>
      -- nobody can open a file that is not there
      if s.registered = false then none
      else if (inp.writes i).parsed.1 ≠ 0 then some (.returned (inp.writes i).parsed.1, s)
      else some (.test, s)
  | .test =>
    match c with
    | .init => none
    | .store i =>
      let val := truth (inp.writes i).parsed.2
      -- from here on the flag is not looked at again
      if s.schedulerEnable = val then some (.returned (inp.writes i).count, s)
      else if val ≠ 0 then some (.get, s) else some (.restore, s)
  | .get => some (.create, { s with refcnt := s.refcnt + 1 })
  | .create =>
    if inp.created c ≠ 0 then some (.put (-ENOMEM), s)
    else some (.install, { s with mempools := true })
  | .install =>
    let s := s.sync .install (inp.stopped c)
    if inp.stopped c ≠ 0 then some (.installFailed (inp.stopped c), s) else some (.enable, s)
  | .installFailed ret => some (.put ret, { s with mempools := false })
  | .put ret => some (inp.leave c ret, { s with refcnt := s.refcnt - 1 })
  | .enable => some (inp.leave c 0, { s with schedulerEnable := 1 })
  | .restore =>
    let s := s.sync .restore (inp.stopped c)
    if inp.stopped c ≠ 0 then some (inp.leave c (inp.stopped c), s) else some (.destroy, s)
  | .destroy => some (.putRef, { s with mempools := false })
  | .putRef => some (.disable, { s with refcnt := s.refcnt - 1 })
  | .disable => some (inp.leave c 0, { s with schedulerEnable := 0 })
  -- that removing a file waits for the writes in progress is left out
  | .unregister ret => some (.returned ret, { s with registered := false })
  | .returned _ => none

/-- The module scheduler is installed: the last successful update was an install. -/
def Installed (s : ModState M) : Prop := s.history.getLast? = some .install

instance (s : ModState M) : Decidable (Installed s) :=
  inferInstanceAs (Decidable (s.history.getLast? = some .install))

/-- Another live patcher writes to the text. -/
def LivePatch (s s' : ModState M) : Prop :=
  ¬ Installed s ∧ ∃ p : Patch Byte,
    s' = { s with image := { s.image with text := p.apply s.image.text } }

/-- All calls together. -/
def calls (M : SchedMod T) (inp : Inputs) : System Caller Place (ModState M) where
  step := callStep inp
  env := LivePatch

/-- The module is being inserted, and no write has begun. -/
def start (M : SchedMod T) (img : Image T) (refcnt : ℕ) : State Caller Place (ModState M) where
  pc := fun c => if c = .init then .check else .idle
  data := ModState.fresh M img refcnt

/-- Everything the next statement of a call can do. -/
inductive Stepped (inp : Inputs) (c : Caller) (s : ModState M) :
    Place → Place → ModState M → Prop
  | hooked {name : String} (hinit : jumpInitAll M.arch M.fns s.image.text = .error name) :
      Stepped inp c s .check (.returned (-EBUSY)) s
  | check {jumps : List (Jump M.arch)}
      (hinit : jumpInitAll M.arch M.fns s.image.text = .ok jumps) :
      Stepped inp c s .check .register { s with jumps := jumps }
  | notRegistered : Stepped inp c s .register (.returned (-ENOMEM)) s
  | register : Stepped inp c s .register .taint { s with registered := true }
  | notTainted : Stepped inp c s .taint (.unregister (-ENOMEM)) s
  | taint : Stepped inp c s .taint .get s
  | invalid {ret : ℤ} : Stepped inp c s .idle (.returned ret) s
  | begin : Stepped inp c s .idle .test s
  | nothing {ret : ℤ} : Stepped inp c s .test (.returned ret) s
  | load {i : ℕ} (hc : c = .store i) (hval : truth (inp.writes i).parsed.2 = 1)
      (hne : s.schedulerEnable ≠ 1) : Stepped inp c s .test .get s
  | unload {i : ℕ} (hc : c = .store i) (hval : truth (inp.writes i).parsed.2 = 0)
      (hne : s.schedulerEnable ≠ 0) : Stepped inp c s .test .restore s
  | get : Stepped inp c s .get .create { s with refcnt := s.refcnt + 1 }
  | noPools : Stepped inp c s .create (.put (-ENOMEM)) s
  | create : Stepped inp c s .create .install { s with mempools := true }
  | notInstalled {ret : ℤ} : Stepped inp c s .install (.installFailed ret) s
  | install (hok : inp.stopped c = 0) : Stepped inp c s .install .enable (s.sync .install 0)
  | installFailed {ret : ℤ} :
      Stepped inp c s (.installFailed ret) (.put ret) { s with mempools := false }
  | put {ret : ℤ} :
      Stepped inp c s (.put ret) (inp.leave c ret) { s with refcnt := s.refcnt - 1 }
  | enable : Stepped inp c s .enable (inp.leave c 0) { s with schedulerEnable := 1 }
  | notRestored {ret : ℤ} : Stepped inp c s .restore (inp.leave c ret) s
  | restore (hok : inp.stopped c = 0) : Stepped inp c s .restore .destroy (s.sync .restore 0)
  | destroy : Stepped inp c s .destroy .putRef { s with mempools := false }
  | putRef : Stepped inp c s .putRef .disable { s with refcnt := s.refcnt - 1 }
  | disable : Stepped inp c s .disable (inp.leave c 0) { s with schedulerEnable := 0 }
  | unregister {ret : ℤ} :
      Stepped inp c s (.unregister ret) (.returned ret) { s with registered := false }

theorem callStep_stepped {inp : Inputs} {c : Caller} {p p' : Place} {s s' : ModState M}
    (h : callStep inp c p s = some (p', s')) : Stepped inp c s p p' s' := by
  cases p with
  | check =>
    rw [callStep] at h
    split at h
    · next name hinit =>
      cases h
      exact .hooked hinit
    · next jumps hinit =>
      cases h
      exact .check hinit
  | register =>
    rw [callStep] at h
    split at h
    · cases h
      exact .notRegistered
    · cases h
      exact .register
  | taint =>
    rw [callStep] at h
    split at h
    · cases h
      exact .notTainted
    · cases h
      exact .taint
  | idle =>
    cases c with
    | init => cases h
    | store i =>
      simp only [callStep] at h
      split at h
      · cases h
      · split at h
        · cases h
          exact .invalid
        · cases h
          exact .begin
  | test =>
    cases c with
    | init => cases h
    | store i =>
      simp only [callStep] at h
      split at h
      · cases h
        exact .nothing
      · next hne =>
        split at h
        · next hval =>
          cases h
          have hone := (truth_eq _).resolve_left hval
          exact .load rfl hone (hone ▸ hne)
        · next hval =>
          cases h
          have hzero := not_not.mp hval
          exact .unload rfl hzero (hzero ▸ hne)
  | get =>
    cases h
    exact .get
  | create =>
    rw [callStep] at h
    split at h
    · cases h
      exact .noPools
    · cases h
      exact .create
  | install =>
    rw [callStep] at h
    split at h
    · next hne =>
      cases h
      rw [sync_of_ne_zero _ hne]
      exact .notInstalled
    · next hzero =>
      cases h
      rw [not_not.mp hzero]
      exact .install (not_not.mp hzero)
  | installFailed ret =>
    cases h
    exact .installFailed
  | put ret =>
    cases h
    exact .put
  | enable =>
    cases h
    exact .enable
  | restore =>
    rw [callStep] at h
    split at h
    · next hne =>
      cases h
      rw [sync_of_ne_zero _ hne]
      exact .notRestored
    · next hzero =>
      cases h
      rw [not_not.mp hzero]
      exact .restore (not_not.mp hzero)
  | destroy =>
    cases h
    exact .destroy
  | putRef =>
    cases h
    exact .putRef
  | disable =>
    cases h
    exact .disable
  | unregister ret =>
    cases h
    exact .unregister
  | returned ret => cases h

/-! ### A call on its own -/

section Solo

variable (inp : Inputs) (c : Caller) (s : ModState M)

theorem solo_load :
    ∃ n, solo (calls M inp) c n (.get, s) =
      (inp.leave c (loadSchedRoutine (inp.created c) (inp.stopped c) s).1,
        (loadSchedRoutine (inp.created c) (inp.stopped c) s).2) := by
  by_cases hcreated : inp.created c = 0
  · by_cases hstopped : inp.stopped c = 0
    · refine ⟨4, ?_⟩
      simp [solo, calls, callStep, loadSchedRoutine, hcreated, hstopped]
    · refine ⟨5, ?_⟩
      simp [solo, calls, callStep, loadSchedRoutine, hcreated, hstopped]
  · refine ⟨3, ?_⟩
    simp [solo, calls, callStep, loadSchedRoutine, hcreated]

theorem solo_unload :
    ∃ n, solo (calls M inp) c n (.restore, s) =
      (inp.leave c (unloadSchedRoutine (inp.stopped c) s).1,
        (unloadSchedRoutine (inp.stopped c) s).2) := by
  by_cases hstopped : inp.stopped c = 0
  · refine ⟨4, ?_⟩
    simp [solo, calls, callStep, unloadSchedRoutine, hstopped]
  · refine ⟨1, ?_⟩
    simp [solo, calls, callStep, unloadSchedRoutine, hstopped]

/-- A write that is not disturbed. -/
theorem solo_store (i : ℕ) (hreg : s.registered = true) :
    ∃ n, solo (calls M inp) (.store i) n (.idle, s) =
      (.returned (plugschedEnabledStore (inp.writes i) s).1,
        (plugschedEnabledStore (inp.writes i) s).2) := by
  by_cases hparsed : (inp.writes i).parsed.1 = 0
  · by_cases hsame : s.schedulerEnable = truth (inp.writes i).parsed.2
    · refine ⟨2, ?_⟩
      simp [solo, calls, callStep, plugschedEnabledStore, hreg, hparsed, hsame]
    · have hresult : ∀ r : ℤ × ModState M,
          (inp.leave (.store i) r.1, r.2) =
            (Place.returned (if r.1 ≠ 0 then r else ((inp.writes i).count, r.2)).1,
              (if r.1 ≠ 0 then r else ((inp.writes i).count, r.2)).2) := by
        intro r
        rw [Inputs.leave]
        split <;> rfl
      by_cases hval : truth (inp.writes i).parsed.2 = 0
      · -- two steps to the routine, then the routine
        have hstart : solo (calls M inp) (.store i) 2 (.idle, s) = (.restore, s) := by
          rw [hval] at hsame
          simp [solo, calls, callStep, hreg, hparsed, hsame, hval]
        have hstore : plugschedEnabledStore (inp.writes i) s =
            let r := unloadSchedRoutine (inp.writes i).stopped s
            if r.1 ≠ 0 then r else ((inp.writes i).count, r.2) := by
          rw [hval] at hsame
          simp [plugschedEnabledStore, hparsed, hsame, hval]
        obtain ⟨n, hn⟩ := solo_unload inp (.store i) s
        refine ⟨2 + n, ?_⟩
        rw [solo_add, hstart, hn, hstore]
        exact hresult _
      · have hstart : solo (calls M inp) (.store i) 2 (.idle, s) = (.get, s) := by
          simp [solo, calls, callStep, hreg, hparsed, hsame, hval]
        have hstore : plugschedEnabledStore (inp.writes i) s =
            let r := loadSchedRoutine (inp.writes i).created (inp.writes i).stopped s
            if r.1 ≠ 0 then r else ((inp.writes i).count, r.2) := by
          simp [plugschedEnabledStore, hparsed, hsame, hval]
        obtain ⟨n, hn⟩ := solo_load inp (.store i) s
        refine ⟨2 + n, ?_⟩
        rw [solo_add, hstart, hn, hstore]
        exact hresult _
  · refine ⟨1, ?_⟩
    simp [solo, calls, callStep, plugschedEnabledStore, hreg, hparsed]

/-- The initialisation that is not disturbed. -/
theorem solo_init :
    ∃ n, solo (calls M inp) .init n (.check, s) =
      (.returned (schedModInit inp.insertion s).1, (schedModInit inp.insertion s).2) := by
  cases hinit : jumpInitAll M.arch M.fns s.image.text with
  | error name =>
    refine ⟨1, ?_⟩
    simp [solo, calls, callStep, schedModInit, hinit]
  | ok jumps =>
    by_cases henable : inp.insertion.registerEnable = 0
    · by_cases htaint : inp.insertion.registerTainted = 0
      · obtain ⟨s₁, hs₁⟩ : ∃ s₁, s₁ = { s with jumps := jumps, registered := true } := ⟨_, rfl⟩
        have hstart : solo (calls M inp) .init 3 (.check, s) = (.get, s₁) := by
          simp [solo, calls, callStep, hinit, henable, htaint, hs₁]
        have hmod : schedModInit inp.insertion s =
            let r := loadSchedRoutine inp.insertion.created inp.insertion.stopped s₁
            if r.1 ≠ 0 then (r.1, { r.2 with registered := false }) else (0, r.2) := by
          simp [schedModInit, registerPlugschedSysfs, hinit, henable, htaint, hs₁]
        obtain ⟨n, hn⟩ := solo_load inp .init s₁
        rw [hmod]
        -- a failed load takes one more step, to unregister the files
        by_cases hret : (loadSchedRoutine inp.insertion.created inp.insertion.stopped s₁).1 = 0
        · refine ⟨3 + n, ?_⟩
          rw [solo_add, hstart, hn]
          simp [Inputs.leave, Inputs.created, Inputs.stopped, hret]
        · refine ⟨3 + n + 1, ?_⟩
          rw [solo_add, solo_add, hstart, hn]
          simp [solo, calls, callStep, Inputs.leave, Inputs.created, Inputs.stopped, hret]
      · refine ⟨4, ?_⟩
        simp [solo, calls, callStep, schedModInit, registerPlugschedSysfs, hinit, henable, htaint,
          ENOMEM]
    · refine ⟨2, ?_⟩
      simp [solo, calls, callStep, schedModInit, registerPlugschedSysfs, hinit, henable, ENOMEM]

end Solo

/-! ### Calls that do not act at the same time -/

/-- The successful updates are an install, a restore, an install, and so on. -/
def Alternates (history : List SyncOp) : Prop :=
  history.IsChain (· ≠ ·) ∧ history.head? ≠ some .restore

theorem Alternates.snoc {history : List SyncOp} (h : Alternates history) {op : SyncOp}
    (hop : op = .install ↔ history.getLast? ≠ some .install) : Alternates (history ++ [op]) := by
  refine ⟨List.isChain_append.mpr ⟨h.1, .singleton op, fun x hx y hy => ?_⟩, ?_⟩
  · obtain rfl : op = y := by simpa using hy
    rintro rfl
    -- the last update would be the same
    have hlast : history.getLast? = some x := hx
    cases x with
    | install => exact hop.mp rfl hlast
    | restore =>
      rw [hlast] at hop
      simp at hop
  · cases history with
    | nil =>
      obtain rfl : op = .install := hop.mpr (by simp)
      simp
    | cons x history => exact h.2

/-- The values of the flag, of the references taken and of the pools, and whether the
module scheduler is installed; what is saved in `bak_class` is what `img` had. -/
structure Holds (img : Image T) (base enable refs : ℕ) (installed pools : Bool)
    (s : ModState M) : Prop where
  enable : s.schedulerEnable = enable
  refcnt : s.refcnt = base + refs
  mempools : s.mempools = pools
  alternates : Alternates s.history
  last : Installed s ↔ installed = true
  tables : installed = false → s.image.classes.orig = img.classes.orig
  saved : installed = true → s.image.classes = { orig := M.modClass, bak := img.classes.orig }

section Holds

variable {img : Image T} {base enable refs : ℕ} {installed pools : Bool} {s : ModState M}

theorem Holds.install (h : Holds img base enable refs false pools s) :
    Holds img base enable refs true pools (s.sync .install 0) :=
  { h with
    alternates := h.alternates.snoc
      (iff_of_true rfl fun hlast => Bool.false_ne_true (h.last.mp hlast))
    last := iff_of_true List.getLast?_concat rfl
    tables := fun hf => absurd hf (by decide)
    saved := fun _ => by
      show switchSchedClass M.modClass true s.image.classes = _
      rw [switchSchedClass_true, h.tables rfl] }

theorem Holds.restore (h : Holds img base enable refs true pools s) :
    Holds img base enable refs false pools (s.sync .restore 0) :=
  { h with
    alternates := h.alternates.snoc (iff_of_false (by decide) (not_not.mpr (h.last.mpr rfl)))
    last := iff_of_false (by
      show (s.history ++ [SyncOp.restore]).getLast? ≠ _
      rw [List.getLast?_concat]
      decide) (by decide)
    tables := fun _ => by
      show (switchSchedClass M.modClass false s.image.classes).orig = _
      rw [switchSchedClass_false, h.saved rfl]
    saved := fun hf => absurd hf (by decide) }

end Holds

/-- A call is at work: it is the initialisation, or a write that has found the flag
different and has not returned. -/
def Place.busy : Place → Bool
  | .idle | .test | .unregister _ | .returned _ => false
  | _ => true

/-- What the call at work knows. -/
def Own (img : Image T) (base : ℕ) : Place → ModState M → Prop
  | .check | .register | .taint | .get => Holds img base 0 0 false false
  | .create => Holds img base 0 1 false false
  | .install | .installFailed _ => Holds img base 0 1 false true
  | .put _ => Holds img base 0 1 false false
  | .enable => Holds img base 0 1 true true
  | .restore => Holds img base 1 1 true true
  | .destroy => Holds img base 1 1 false true
  | .putRef => Holds img base 1 1 false false
  | .disable => Holds img base 1 0 false false
  | .idle | .test | .unregister _ | .returned _ => fun _ => True

/-- What holds when no call is at work. -/
def Free (img : Image T) (base : ℕ) (s : ModState M) : Prop :=
  Holds img base 0 0 false false s ∨ Holds img base 1 1 true true s

section Steps

variable {inp : Inputs} {c : Caller} {p p' : Place} {s s' : ModState M} {img : Image T} {base : ℕ}

theorem leave_eq (inp : Inputs) (c : Caller) (ret : ℤ) :
    inp.leave c ret = .unregister ret ∨ ∃ r, inp.leave c ret = .returned r := by
  cases c with
  | init =>
    rw [Inputs.leave]
    split
    · exact .inl rfl
    · exact .inr ⟨0, rfl⟩
  | store i => exact .inr ⟨_, rfl⟩

theorem leave_not_busy (inp : Inputs) (c : Caller) (ret : ℤ) :
    (inp.leave c ret).busy = false := by
  rcases leave_eq inp c ret with h | ⟨r, h⟩ <;> rw [h] <;> rfl

/-- What a step leaves: knowledge for a call at work, order otherwise. -/
def Leaves (img : Image T) (base : ℕ) (p : Place) (s : ModState M) : Prop :=
  (p.busy = true → Own img base p s) ∧ (p.busy = false → Free img base s)

theorem Leaves.busy (hb : p.busy = true) (h : Own img base p s) : Leaves img base p s := by
  refine ⟨fun _ => h, fun hfree => ?_⟩
  rw [hb] at hfree
  cases hfree

theorem Leaves.free (hb : p.busy = false) (h : Free img base s) : Leaves img base p s := by
  refine ⟨fun hbusy => ?_, fun _ => h⟩
  rw [hb] at hbusy
  cases hbusy

/-- The step of the call at work keeps what it knows, or brings everything in order. -/
theorem Stepped.leaves (h : Stepped inp c s p p' s') (hb : p.busy = true)
    (hown : Own img base p s) : Leaves img base p' s' := by
  cases h with
  | hooked _ | notRegistered | notTainted => exact .free rfl (.inl hown)
  | check _ | register => exact .busy rfl { hown with }
  | taint | noPools | notInstalled => exact .busy rfl hown
  | invalid | begin | nothing | load _ _ _ | unload _ _ _ | unregister => cases hb
  | get => exact .busy rfl { hown with refcnt := congrArg (· + 1) hown.refcnt }
  | create | installFailed | destroy => exact .busy rfl { hown with mempools := rfl }
  | install _ => exact .busy rfl (Holds.install hown)
  | restore _ => exact .busy rfl (Holds.restore hown)
  | put =>
    exact .free (leave_not_busy inp c _)
      (.inl { hown with refcnt := congrArg (· - 1) hown.refcnt })
  | enable => exact .free (leave_not_busy inp c 0) (.inr { hown with enable := rfl })
  | notRestored => exact .free (leave_not_busy inp c _) (.inr hown)
  | putRef => exact .busy rfl { hown with refcnt := congrArg (· - 1) hown.refcnt }
  | disable => exact .free (leave_not_busy inp c 0) (.inl { hown with enable := rfl })

/-- Write `i` finds the flag different from its value. -/
def Acts (inp : Inputs) (p : Place) (s : ModState M) (c : Caller) : Prop :=
  ∃ i, c = .store i ∧ p = .test ∧ s.schedulerEnable ≠ truth (inp.writes i).parsed.2

/-- A call that is not at work begins to work only by acting on the flag, and
otherwise changes at most what is registered. -/
theorem Stepped.idle (h : Stepped inp c s p p' s') (hb : p.busy = false) :
    (p'.busy = false ∧ (s' = s ∨ s' = { s with registered := false })) ∨
      (Acts inp p s c ∧ s' = s ∧
        ((p' = .get ∧ s.schedulerEnable ≠ 1) ∨ (p' = .restore ∧ s.schedulerEnable ≠ 0))) := by
  cases h with
  | invalid | begin | nothing => exact .inl ⟨rfl, .inl rfl⟩
  | unregister => exact .inl ⟨rfl, .inr rfl⟩
  | load hc hval hne => exact .inr ⟨⟨_, hc, rfl, hval ▸ hne⟩, rfl, .inl ⟨rfl, hne⟩⟩
  | unload hc hval hne => exact .inr ⟨⟨_, hc, rfl, hval ▸ hne⟩, rfl, .inr ⟨rfl, hne⟩⟩
  | _ => cases hb

/-- The two states differ at most in the text, the saved heads and what is registered. -/
structure Same (s s' : ModState M) : Prop where
  enable : s'.schedulerEnable = s.schedulerEnable
  refcnt : s'.refcnt = s.refcnt
  mempools : s'.mempools = s.mempools
  classes : s'.image.classes = s.image.classes
  history : s'.history = s.history

theorem Holds.of_same (hsame : Same s s') {enable refs : ℕ} {installed pools : Bool}
    (h : Holds img base enable refs installed pools s) :
    Holds img base enable refs installed pools s' where
  enable := hsame.enable.trans h.enable
  refcnt := hsame.refcnt.trans h.refcnt
  mempools := hsame.mempools.trans h.mempools
  alternates := hsame.history ▸ h.alternates
  last := by
    rw [Installed, hsame.history]
    exact h.last
  tables := hsame.classes ▸ h.tables
  saved := hsame.classes ▸ h.saved

theorem Own.of_same (hsame : Same s s') (hown : Own img base p s) : Own img base p s' := by
  cases p with
  | idle | test | unregister _ | returned _ => trivial
  | _ => exact Holds.of_same hsame hown

theorem Free.of_same (hsame : Same s s') (hfree : Free img base s) : Free img base s' :=
  hfree.imp (Holds.of_same hsame) (Holds.of_same hsame)

end Steps

/-- The steps of all calls in which a write acts on the flag only while no other
call is at work. -/
def SerialNext (M : SchedMod T) (inp : Inputs) (s : State Caller Place (ModState M))
    (e : Option Caller) (s' : State Caller Place (ModState M)) : Prop :=
  Next (calls M inp) s e s' ∧
    ∀ c, e = some c → Acts inp (s.pc c) s.data c → ∀ c', (s.pc c').busy = false

section Serial

variable {inp : Inputs} {img : Image T} {base : ℕ} {s s' : State Caller Place (ModState M)}
  {e : Option Caller} {tr : List Caller}

/-- At most one call is at work, and the data is as that call left it. -/
def Orderly (img : Image T) (base : ℕ) (s : State Caller Place (ModState M)) : Prop :=
  Owned (fun p : Place => p.busy = true) (Own img base) (Free img base) s

theorem orderly_start : Orderly img base (start M img base) := by
  have hbusy : ∀ c, ((start M img base).pc c).busy = true → c = .init := by
    intro c hc
    by_contra hne
    simp [start, hne, Place.busy] at hc
  have hfresh : Holds img base 0 0 false false (ModState.fresh M img base) :=
    { enable := rfl
      refcnt := rfl
      mempools := rfl
      alternates := ⟨.nil, by simp [ModState.fresh]⟩
      last := iff_of_false (by simp [Installed, ModState.fresh]) (by decide)
      tables := fun _ => rfl
      saved := fun h => absurd h (by decide) }
  refine ⟨fun c c' hc hc' => (hbusy c hc).trans (hbusy c' hc').symm, fun c hc => ?_,
    fun hnone => ?_⟩
  · obtain rfl := hbusy c hc
    exact hfresh
  · exact .inl hfresh

theorem Orderly.next (h : Orderly img base s) (hnext : SerialNext M inp s e s') :
    Orderly img base s' := by
  obtain ⟨hnext, hserial⟩ := hnext
  cases hnext with
  | env hpatch =>
    -- a live patcher touches the text only
    obtain ⟨-, p, rfl⟩ := hpatch
    have hsame : Same s.data
        { s.data with image := { s.data.image with text := p.apply s.data.image.text } } :=
      ⟨rfl, rfl, rfl, rfl, rfl⟩
    exact Owned.env h (fun c _ hown => hown.of_same hsame) (fun hfree => hfree.of_same hsame)
  | @thread c p d hstep =>
    by_cases hb : (s.pc c).busy = true
    · -- the call at work goes on, no other one is at work
      have hleaves : Leaves img base p d := (callStep_stepped hstep).leaves hb (h.own c hb)
      exact Owned.step_alone (h.others hb) hleaves.1 fun hp => hleaves.2 (Bool.eq_false_iff.mpr hp)
    · rcases (callStep_stepped hstep).idle (Bool.eq_false_iff.mpr hb) with
        ⟨hp, hd⟩ | ⟨hacts, rfl, hp⟩
      · have hsame : Same s.data d := by
          rcases hd with rfl | rfl <;> exact ⟨rfl, rfl, rfl, rfl, rfl⟩
        exact Owned.step_aside h hb (Bool.eq_false_iff.mp hp) (fun q hown => hown.of_same hsame)
          fun hfree => hfree.of_same hsame
      · -- the only call at work from here on
        have hnone : ∀ c', ¬ (s.pc c').busy = true :=
          fun c' => Bool.eq_false_iff.mp (hserial c rfl hacts c')
        have hleaves : Leaves img base p s.data := by
          rcases hp with ⟨rfl, hne⟩ | ⟨rfl, hne⟩
          · exact .busy rfl ((h.free hnone).resolve_right fun hloaded => hne hloaded.enable)
          · exact .busy rfl ((h.free hnone).resolve_left fun hunloaded => hne hunloaded.enable)
        exact Owned.step_alone (fun c' _ => hnone c') hleaves.1
          fun hp => hleaves.2 (Bool.eq_false_iff.mpr hp)

theorem orderly_of_run (h : Run (SerialNext M inp) (start M img base) tr s) :
    Orderly img base s :=
  h.invariant (I := fun _ s => Orderly img base s) orderly_start
    fun _ _ _ _ _ ih hnext => ih.next hnext

/-- What is known of the updates at any time. -/
structure Sound (img : Image T) (m : ModState M) : Prop where
  alternates : Alternates m.history
  saved : Installed m → m.image.classes = { orig := M.modClass, bak := img.classes.orig }
  tables : ¬ Installed m → m.image.classes.orig = img.classes.orig

theorem Holds.sound {m : ModState M} {enable refs : ℕ} {installed pools : Bool}
    (h : Holds img base enable refs installed pools m) : Sound img m where
  alternates := h.alternates
  saved := fun hi => h.saved (h.last.mp hi)
  tables := fun hi => h.tables (Bool.eq_false_iff.mpr fun ht => hi (h.last.mpr ht))

theorem Own.sound {p : Place} {m : ModState M} (hb : p.busy = true) (hown : Own img base p m) :
    Sound img m := by
  cases p with
  | idle | test | unregister _ | returned _ => cases hb
  | _ => exact Holds.sound hown

theorem Orderly.sound (h : Orderly img base s) : Sound img s.data := by
  by_cases hnone : ∀ c, ¬ (s.pc c).busy = true
  · rcases h.free hnone with hfree | hfree <;> exact hfree.sound
  · obtain ⟨c, hc⟩ := not_forall_not.mp hnone
    exact (h.own c hc).sound hc

/-- A write that was not made, or a call that is over. -/
def Place.AtRest (p : Place) : Prop := p = .idle ∨ ∃ ret, p = .returned ret

theorem Place.AtRest.not_busy {p : Place} (h : p.AtRest) : ¬ p.busy = true := by
  rcases h with rfl | ⟨ret, rfl⟩ <;> exact Bool.false_ne_true

/-- **Updates alternate when writes act one at a time.**  In every interleaving in
which a write acts on the flag only while no other call is at work: successful
installs and restores alternate, beginning with an install; as long as the module
scheduler is installed `bak_class` holds the tables of the kernel; and when all
calls have returned there is one reference more exactly if the flag is 1. -/
theorem serial_alternates (M : SchedMod T) (inp : Inputs) (img : Image T) (base : ℕ)
    (tr : List Caller) (s : State Caller Place (ModState M))
    (h : Run (SerialNext M inp) (start M img base) tr s) :
    Alternates s.data.history ∧
    (Installed s.data → s.data.image.classes = { orig := M.modClass, bak := img.classes.orig }) ∧
    (¬ Installed s.data → s.data.image.classes.orig = img.classes.orig) ∧
    ((∀ c, (s.pc c).AtRest) →
      (s.data.schedulerEnable = 1 ∧ s.data.refcnt = base + 1 ∧ Installed s.data) ∨
        (s.data.schedulerEnable = 0 ∧ s.data.refcnt = base ∧ ¬ Installed s.data)) := by
  have horderly := orderly_of_run h
  refine ⟨horderly.sound.alternates, horderly.sound.saved, horderly.sound.tables, fun hrest => ?_⟩
  rcases horderly.free fun c => (hrest c).not_busy with hfree | hfree
  · exact .inr ⟨hfree.enable, hfree.refcnt, fun hi => Bool.false_ne_true (hfree.last.mp hi)⟩
  · exact .inl ⟨hfree.enable, hfree.refcnt, hfree.last.mpr rfl⟩

/-- Calls made one after the other are serial. -/
theorem run_alone (h : Run (SerialNext M inp) (start M img base) tr s) {c : Caller}
    (hothers : ∀ c' ≠ c, (s.pc c').busy = false) (n : ℕ) :
    Run (SerialNext M inp) (start M img base) (exec (calls M inp) (List.replicate n c) (tr, s)).1
      (exec (calls M inp) (List.replicate n c) (tr, s)).2 := by
  induction n generalizing tr s with
  | zero => exact h
  | succ n ih =>
    rw [List.replicate_succ]
    cases hstep : (calls M inp).step c (s.pc c) s.data with
    | none =>
      rw [exec_cons_none hstep]
      exact ih h hothers
    | some r =>
      obtain ⟨p, d⟩ := r
      rw [exec_cons_some hstep]
      refine ih (h.snoc (e := some c) ⟨.thread hstep, ?_⟩) fun c' hne => ?_
      · rintro c₀ hc₀ ⟨i, -, htest, -⟩ c'
        by_cases hne : c' = c
        · cases hc₀
          rw [hne, htest]
          rfl
        · exact hothers c' hne
      · rw [State.move_pc_of_ne s hne]
        exact hothers c' hne

end Serial

/-- The module is inserted, write 0 unloads, writes 1 and 2 load. -/
def threeWrites : Inputs where
  insertion := ⟨0, 0, 0, 0⟩
  writes := fun i => ⟨(0, i), 2, 0, 0⟩

/-- The insertion, and then write 0. -/
def insertThenUnload : List Caller × State Caller Place (ModState x86Sched) :=
  exec (calls x86Sched threeWrites) (List.replicate 8 (.store 0))
    (exec (calls x86Sched threeWrites) (List.replicate 8 .init) ([], start x86Sched x86Image 1))

theorem serial_alternates_insertThenUnload :
    insertThenUnload.2.data.history = [.install, .restore] ∧
      insertThenUnload.2.data.refcnt = 1 ∧
      insertThenUnload.2.data.image.classes.orig = x86Image.classes.orig := by
  have hstart : Run (SerialNext x86Sched threeWrites) (start x86Sched x86Image 1) []
      (start x86Sched x86Image 1) := .nil
  have hinit := run_alone hstart (c := .init) (fun c' hne => by
    cases c' with
    | init => exact absurd rfl hne
    | store i => rfl) 8
  have hunload := run_alone hinit (c := .store 0) (fun c' hne => by
    cases c' with
    | init => rfl
    | store i => rfl) 8
  have h := serial_alternates x86Sched threeWrites x86Image 1 _ insertThenUnload.2 hunload
  exact ⟨rfl, rfl, h.2.2.1 (by decide)⟩

/-- The file is there before the initialisation has loaded: write 1 loads as well. -/
def twoLoads : List Caller × State Caller Place (ModState x86Sched) :=
  exec (calls x86Sched threeWrites)
    ([.init, .init, .store 1, .store 1] ++ List.replicate 8 .init ++ List.replicate 8 (.store 1))
    ([], start x86Sched x86Image 1)

/-- Two installs in a row: the tables of the module are saved as those of the
kernel, and the flag is 1 with two references. -/
theorem twoLoads_not_alternating :
    Run (Next (calls x86Sched threeWrites)) (start x86Sched x86Image 1) twoLoads.1 twoLoads.2 ∧
      ¬ Alternates twoLoads.2.data.history ∧
      (∀ i, twoLoads.2.data.image.classes.bak i = x86Sched.modClass i) ∧
      twoLoads.2.data.schedulerEnable = 1 ∧ twoLoads.2.data.refcnt = 3 := by
  refine ⟨exec_run _ .nil, fun h => ?_, by decide, rfl, rfl⟩
  have hchain : ([.install, .install] : List SyncOp).IsChain (· ≠ ·) := h.1
  revert hchain
  decide

end Plugsched
