/-
The directories of the module in sysfs.

`registerPlugschedSysfs` creates `plugsched/plugsched/vmlinux`, the file `enable` and
one directory for every tainted function; each creation may fail.  A failure inside
`registerPlugschedEnable` jumps to a chain of `kobject_put` on what may be `NULL`, a
later one calls `unregisterPlugschedSysfs`, which stops at the first function without a
directory.

* `registerTainted_spec`, `unregisterTainted_eq` — the two loops over the tainted
  functions;
* `registerPlugschedEnable_spec` — the three directories and the file;
* `registerPlugschedSysfs_eq_zero_iff` — when nothing fails;
* `registerPlugschedSysfs_releases` — what is released after a failure, or later.
-/
import Plugsched.Enable
import Plugsched.Ledger

open Ledger

namespace Plugsched.Sysfs

/-- What is created in sysfs. -/
inductive Created where
  | kobj (k : ℕ)
  | enableFile
  deriving DecidableEq

/-- `kernel_kobj`, the results of the calls of `kobject_create_and_add`, and the result
of `sysfs_create_file`. -/
structure Answers where
  kernelKobj : ℕ
  kobjectCreateAndAdd : ℕ → Option ℕ
  sysfsCreateFile : ℤ

/-- An entry of `tainted_functions`, but the last one, which has no name. -/
structure TaintedFunction where
  name : String
  kobj : Option ℕ

/-- The static variables, the number of calls of `kobject_create_and_add` so far, what
these have created, as kobject, name and parent, and the ledger. -/
structure State where
  plugschedDir : Option ℕ
  plugschedSubdir : Option ℕ
  vmlinuxModdir : Option ℕ
  taintedFunctions : List TaintedFunction
  calls : ℕ
  dirs : List (ℕ × String × Option ℕ)
  log : List (Entry Created)

/-- The module is inserted. -/
def State.init (names : List String) : State where
  plugschedDir := none
  plugschedSubdir := none
  vmlinuxModdir := none
  taintedFunctions := names.map fun name => { name := name, kobj := none }
  calls := 0
  dirs := []
  log := []

/-- `kobject_create_and_add`. -/
def kobjectCreateAndAdd (ans : Answers) (name : String) (parent : Option ℕ) (s : State) :
    Option ℕ × State :=
  match ans.kobjectCreateAndAdd s.calls with
  | none => (none, { s with calls := s.calls + 1 })
  | some k =>
    (some k,
      { s with
        calls := s.calls + 1
        dirs := s.dirs ++ [(k, name, parent)]
        log := s.log ++ [.obtained (.kobj k)] })

/-- `kobject_put`, which ignores `NULL`. -/
def kobjectPut (kobj : Option ℕ) (s : State) : State :=
  match kobj with
  | none => s
  | some k => { s with log := s.log ++ [.released (.kobj k)] }

/-- The label `error` of `register_plugsched_enable`. -/
def putDirs (s : State) : State :=
  kobjectPut s.plugschedDir (kobjectPut s.plugschedSubdir (kobjectPut s.vmlinuxModdir s))

/-- `register_plugsched_enable` from the creation of the file on. -/
def registerFile (ans : Answers) (s : State) : ℤ × State :=
  if ans.sysfsCreateFile ≠ 0 then (ans.sysfsCreateFile, putDirs s)
  else (0, { s with log := s.log ++ [.obtained .enableFile] })

/-- `register_plugsched_enable` from the creation of `vmlinux_moddir` on. -/
def registerModdir (ans : Answers) (s : State) : ℤ × State :=
  let r := kobjectCreateAndAdd ans "vmlinux" s.plugschedSubdir s
  let s := { r.2 with vmlinuxModdir := r.1 }
  if r.1 = none then (-ENOMEM, putDirs s) else registerFile ans s

/-- `register_plugsched_enable` from the creation of `plugsched_subdir` on. -/
def registerSubdir (ans : Answers) (s : State) : ℤ × State :=
  let r := kobjectCreateAndAdd ans "plugsched" s.plugschedDir s
  let s := { r.2 with plugschedSubdir := r.1 }
  if r.1 = none then (-ENOMEM, putDirs s) else registerModdir ans s

/-- `register_plugsched_enable`. -/
def registerPlugschedEnable (ans : Answers) (s : State) : ℤ × State :=
  let r := kobjectCreateAndAdd ans "plugsched" (some ans.kernelKobj) s
  let s := { r.2 with plugschedDir := r.1 }
  if r.1 = none then (-ENOMEM, s) else registerSubdir ans s

/-- `unregister_plugsched_enable`. -/
def unregisterPlugschedEnable (s : State) : State :=
  putDirs { s with log := s.log ++ [.released .enableFile] }

/-- The loop of `register_tainted_functions` over the functions from `tf` on. -/
def registerTainted (ans : Answers) :
    List TaintedFunction → State → ℤ × List TaintedFunction × State
  | [], s => (0, [], s)
  | tf :: tfs, s =>
    let r := kobjectCreateAndAdd ans tf.name s.vmlinuxModdir s
    let tf := { tf with kobj := r.1 }
    if r.1 = none then (-ENOMEM, tf :: tfs, r.2)
    else
      let rest := registerTainted ans tfs r.2
      (rest.1, tf :: rest.2.1, rest.2.2)

/-- `register_tainted_functions`. -/
def registerTaintedFunctions (ans : Answers) (s : State) : ℤ × State :=
  let r := registerTainted ans s.taintedFunctions s
  (r.1, { r.2.2 with taintedFunctions := r.2.1 })

/-- The loop of `unregister_tainted_functions`. -/
def unregisterTainted : List TaintedFunction → State → State
  | [], s => s
  | tf :: tfs, s => if tf.kobj = none then s else unregisterTainted tfs (kobjectPut tf.kobj s)

/-- `unregister_tainted_functions`. -/
def unregisterTaintedFunctions (s : State) : State := unregisterTainted s.taintedFunctions s

/-- `unregister_plugsched_sysfs`. -/
def unregisterPlugschedSysfs (s : State) : State :=
  unregisterPlugschedEnable (unregisterTaintedFunctions s)

/-- `register_plugsched_sysfs`. -/
def registerPlugschedSysfs (ans : Answers) (s : State) : ℤ × State :=
  let r := registerPlugschedEnable ans s
  if r.1 ≠ 0 then (-ENOMEM, r.2)
  else
    let r := registerTaintedFunctions ans r.2
    if r.1 ≠ 0 then (-ENOMEM, unregisterPlugschedSysfs r.2) else (0, r.2)

/-! ### One step -/

/-- The static variables for the directories are the same. -/
structure SameDirs (s s' : State) : Prop where
  dir : s'.plugschedDir = s.plugschedDir
  subdir : s'.plugschedSubdir = s.plugschedSubdir
  moddir : s'.vmlinuxModdir = s.vmlinuxModdir

theorem SameDirs.refl (s : State) : SameDirs s s where
  dir := rfl
  subdir := rfl
  moddir := rfl

theorem kobjectCreateAndAdd_cases (ans : Answers) (name : String) (parent : Option ℕ) (s : State) :
    kobjectCreateAndAdd ans name parent s = (none, { s with calls := s.calls + 1 }) ∨
      ∃ k, kobjectCreateAndAdd ans name parent s =
        (some k,
          { s with
            calls := s.calls + 1
            dirs := s.dirs ++ [(k, name, parent)]
            log := s.log ++ [.obtained (.kobj k)] }) := by
  rw [kobjectCreateAndAdd]
  cases ans.kobjectCreateAndAdd s.calls with
  | none => exact .inl rfl
  | some k => exact .inr ⟨k, rfl⟩

theorem neg_ENOMEM_ne_zero : -ENOMEM ≠ 0 := by decide

/-! ### The tainted functions -/

/-- The first functions have the kobjects `ks`, and the next, if there is one, has none. -/
def HaveKobjs (tfs : List TaintedFunction) (ks : List ℕ) : Prop :=
  ∃ rest, tfs.map TaintedFunction.kobj = ks.map some ++ rest ∧ rest.head?.join = none

theorem unregisterTainted_eq {tfs : List TaintedFunction} {ks : List ℕ} (h : HaveKobjs tfs ks)
    (s : State) :
    unregisterTainted tfs s =
      { s with log := s.log ++ ks.map fun k => .released (.kobj k) } := by
  induction ks generalizing tfs s with
  | nil =>
    obtain ⟨rest, heq, hrest⟩ := h
    cases tfs with
    | nil => simp [unregisterTainted]
    | cons tf tfs =>
      have hkobj : tf.kobj = none := by
        rw [List.map_nil, List.nil_append] at heq
        rw [← heq] at hrest
        simpa using hrest
      rw [unregisterTainted, if_pos hkobj]
      simp
  | cons k ks ih =>
    obtain ⟨rest, heq, hrest⟩ := h
    cases tfs with
    | nil => simp at heq
    | cons tf tfs =>
      obtain ⟨hkobj, htail⟩ := List.cons.inj heq
      rw [unregisterTainted, hkobj, if_neg (by simp), ih ⟨rest, htail, hrest⟩]
      simp [kobjectPut]

/-- A run `r` of the loop that has created the kobjects `ks`: of all functions if it
succeeds, and of the first ones if it fails. -/
structure TaintedRun (tfs : List TaintedFunction) (s : State)
    (r : ℤ × List TaintedFunction × State) (ks : List ℕ) : Prop where
  log : r.2.2.log = s.log ++ ks.map fun k => .obtained (.kobj k)
  same : SameDirs s r.2.2
  dirs : s.dirs ⊆ r.2.2.dirs
  kobjs : HaveKobjs r.2.1 ks
  names : r.1 = 0 → r.2.1.map TaintedFunction.name = tfs.map TaintedFunction.name
  registered : r.1 = 0 → ∀ tf ∈ r.2.1, ∃ k, tf.kobj = some k ∧
    (k, tf.name, s.vmlinuxModdir) ∈ r.2.2.dirs

theorem registerTainted_spec (ans : Answers) (tfs : List TaintedFunction) (s : State) :
    ∃ ks, TaintedRun tfs s (registerTainted ans tfs s) ks := by
  induction tfs generalizing s with
  | nil =>
    exact ⟨[],
      { log := (List.append_nil _).symm
        same := SameDirs.refl s
        dirs := fun _ h => h
        kobjs := ⟨[], rfl, rfl⟩
        names := fun _ => rfl
        registered := fun _ => by simp [registerTainted] }⟩
  | cons tf tfs ih =>
    rcases kobjectCreateAndAdd_cases ans tf.name s.vmlinuxModdir s with hr | ⟨k, hr⟩
    · -- the loop stops at this function
      have heq : registerTainted ans (tf :: tfs) s =
          (-ENOMEM, { tf with kobj := none } :: tfs, { s with calls := s.calls + 1 }) := by
        rw [registerTainted, hr]
        rfl
      rw [heq]
      exact ⟨[],
        { log := (List.append_nil _).symm
          same := ⟨rfl, rfl, rfl⟩
          dirs := fun _ h => h
          kobjs := ⟨_, rfl, rfl⟩
          names := fun h => absurd h neg_ENOMEM_ne_zero
          registered := fun h => absurd h neg_ENOMEM_ne_zero }⟩
    · obtain ⟨ks, hrun⟩ := ih (kobjectCreateAndAdd ans tf.name s.vmlinuxModdir s).2
      have heq : registerTainted ans (tf :: tfs) s =
          ((registerTainted ans tfs (kobjectCreateAndAdd ans tf.name s.vmlinuxModdir s).2).1,
            { tf with kobj := some k } ::
              (registerTainted ans tfs (kobjectCreateAndAdd ans tf.name s.vmlinuxModdir s).2).2.1,
            (registerTainted ans tfs
              (kobjectCreateAndAdd ans tf.name s.vmlinuxModdir s).2).2.2) := by
        rw [registerTainted, hr]
        rfl
      rw [heq]
      rw [hr] at hrun ⊢
      obtain ⟨rest, hkobjs, hhead⟩ := hrun.kobjs
      have hmine : (k, tf.name, s.vmlinuxModdir) ∈ s.dirs ++ [(k, tf.name, s.vmlinuxModdir)] :=
        List.mem_append_right _ List.mem_cons_self
      exact ⟨k :: ks,
        { log := by
            rw [hrun.log]
            simp
          same := ⟨hrun.same.dir, hrun.same.subdir, hrun.same.moddir⟩
          dirs := fun d hd => hrun.dirs (List.mem_append_left _ hd)
          kobjs := ⟨rest, by simp [hkobjs], hhead⟩
          names := fun h => congrArg (tf.name :: ·) (hrun.names h)
          registered := fun h =>
            List.forall_mem_cons.mpr ⟨⟨k, rfl, hrun.dirs hmine⟩, hrun.registered h⟩ }⟩

/-! ### The three directories and the file -/

/-- The directories and the file are there; the ledger holds them and `held`. -/
structure EnableRegistered (s : State) (held : List Created) (d sd md : ℕ) : Prop where
  dir : s.plugschedDir = some d
  subdir : s.plugschedSubdir = some sd
  moddir : s.vmlinuxModdir = some md
  holds : Holds s.log (held ++ [.enableFile, .kobj md, .kobj sd, .kobj d])

/-- Putting the directories releases those that are there, the last one first. -/
theorem putDirs_log (s : State) :
    (putDirs s).log = s.log ++
      (([s.vmlinuxModdir, s.plugschedSubdir, s.plugschedDir].filterMap id).map fun k =>
        .released (.kobj k)) := by
  rw [putDirs]
  cases s.vmlinuxModdir <;> cases s.plugschedSubdir <;> cases s.plugschedDir <;>
    simp [kobjectPut]

theorem putDirs_taintedFunctions (s : State) :
    (putDirs s).taintedFunctions = s.taintedFunctions := by
  rw [putDirs]
  cases s.vmlinuxModdir <;> cases s.plugschedSubdir <;> cases s.plugschedDir <;> rfl

theorem putDirs_allReleased {s : State} (ks : List ℕ)
    (hks : [s.vmlinuxModdir, s.plugschedSubdir, s.plugschedDir].filterMap id = ks)
    (h : Holds s.log (ks.map .kobj)) : AllReleased (putDirs s).log := by
  have hback : Holds s.log (ks.map .kobj ++ []) := by rwa [List.append_nil]
  have hrelease := hback.releaseAll
  rw [List.map_map] at hrelease
  rw [putDirs_log, hks]
  exact hrelease

/-- A part of `register_plugsched_enable` gives everything back, or registers the file. -/
def EnableOutcome (tainted : List TaintedFunction) (r : ℤ × State) : Prop :=
  r.2.taintedFunctions = tainted ∧
    ((r.1 ≠ 0 ∧ AllReleased r.2.log) ∨
      (r.1 = 0 ∧ ∃ d sd md, EnableRegistered r.2 [] d sd md))

section Enable

variable {s : State} {d sd md : ℕ} (ans : Answers)

theorem registerFile_spec (hd : s.plugschedDir = some d) (hsd : s.plugschedSubdir = some sd)
    (hmd : s.vmlinuxModdir = some md) (h : Holds s.log [.kobj md, .kobj sd, .kobj d]) :
    EnableOutcome s.taintedFunctions (registerFile ans s) := by
  rw [registerFile]
  split
  · next hfile =>
    refine ⟨putDirs_taintedFunctions s, .inl ⟨hfile, ?_⟩⟩
    refine putDirs_allReleased [md, sd, d] ?_ h
    rw [hd, hsd, hmd]
    rfl
  · exact ⟨rfl, .inr ⟨rfl, d, sd, md,
      { dir := hd
        subdir := hsd
        moddir := hmd
        holds := h.obtain .enableFile }⟩⟩

theorem registerModdir_spec (hd : s.plugschedDir = some d) (hsd : s.plugschedSubdir = some sd)
    (h : Holds s.log [.kobj sd, .kobj d]) :
    EnableOutcome s.taintedFunctions (registerModdir ans s) := by
  rw [registerModdir]
  rcases kobjectCreateAndAdd_cases ans "vmlinux" s.plugschedSubdir s with hr | ⟨md, hr⟩
  · rw [hr]
    refine ⟨putDirs_taintedFunctions _, .inl ⟨neg_ENOMEM_ne_zero, ?_⟩⟩
    refine putDirs_allReleased [sd, d] ?_ h
    show [none, s.plugschedSubdir, s.plugschedDir].filterMap id = _
    rw [hd, hsd]
    rfl
  · rw [hr]
    exact registerFile_spec ans hd hsd rfl (h.obtain (.kobj md))

theorem registerSubdir_spec (hd : s.plugschedDir = some d) (hmd : s.vmlinuxModdir = none)
    (h : Holds s.log [.kobj d]) : EnableOutcome s.taintedFunctions (registerSubdir ans s) := by
  rw [registerSubdir]
  rcases kobjectCreateAndAdd_cases ans "plugsched" s.plugschedDir s with hr | ⟨sd, hr⟩
  · rw [hr]
    refine ⟨putDirs_taintedFunctions _, .inl ⟨neg_ENOMEM_ne_zero, ?_⟩⟩
    -- the two directories that are not there are `NULL`
    refine putDirs_allReleased [d] ?_ h
    show [s.vmlinuxModdir, none, s.plugschedDir].filterMap id = _
    rw [hd, hmd]
    rfl
  · rw [hr]
    exact registerModdir_spec ans hd rfl (h.obtain (.kobj sd))

theorem registerPlugschedEnable_spec (hmd : s.vmlinuxModdir = none) (h : AllReleased s.log) :
    EnableOutcome s.taintedFunctions (registerPlugschedEnable ans s) := by
  rw [registerPlugschedEnable]
  rcases kobjectCreateAndAdd_cases ans "plugsched" (some ans.kernelKobj) s with hr | ⟨d, hr⟩
  · rw [hr]
    exact ⟨rfl, .inl ⟨neg_ENOMEM_ne_zero, h⟩⟩
  · rw [hr]
    exact registerSubdir_spec ans rfl hmd (Holds.obtain h (.kobj d))

/-- The way back from everything that is registered, if the loop over the tainted
functions has created the kobjects `ks`. -/
theorem unregisterPlugschedSysfs_allReleased {ks : List ℕ}
    (hkobjs : HaveKobjs s.taintedFunctions ks)
    (h : EnableRegistered s (ks.map .kobj) d sd md) :
    AllReleased (unregisterPlugschedSysfs s).log := by
  have hback := h.holds.releaseAll.release
  rw [List.map_map] at hback
  rw [unregisterPlugschedSysfs, unregisterTaintedFunctions, unregisterTainted_eq hkobjs]
  refine putDirs_allReleased [md, sd, d] ?_ hback
  show [s.vmlinuxModdir, s.plugschedSubdir, s.plugschedDir].filterMap id = _
  rw [h.dir, h.subdir, h.moddir]
  rfl

end Enable

/-! ### When nothing fails -/

section Succeeds

variable {s : State} (ans : Answers)

@[simp] theorem kobjectCreateAndAdd_fst (name : String) (parent : Option ℕ) (s : State) :
    (kobjectCreateAndAdd ans name parent s).1 = ans.kobjectCreateAndAdd s.calls := by
  rw [kobjectCreateAndAdd]
  cases ans.kobjectCreateAndAdd s.calls <;> rfl

@[simp] theorem calls_kobjectCreateAndAdd (name : String) (parent : Option ℕ) (s : State) :
    (kobjectCreateAndAdd ans name parent s).2.calls = s.calls + 1 := by
  rw [kobjectCreateAndAdd]
  cases ans.kobjectCreateAndAdd s.calls <;> rfl

/-- The next `n` calls of `kobject_create_and_add` succeed. -/
def NextCreated (n : ℕ) (s : State) : Prop :=
  ∀ k < n, (ans.kobjectCreateAndAdd (s.calls + k)).isSome

theorem nextCreated_zero (s : State) : NextCreated ans 0 s :=
  fun k hk => absurd hk (Nat.not_lt_zero k)

/-- The first call, and those from the state behind it on. -/
theorem nextCreated_succ_iff {s' : State} (n : ℕ) (hcalls : s'.calls = s.calls + 1) :
    NextCreated ans (n + 1) s ↔
      ans.kobjectCreateAndAdd s.calls ≠ none ∧ NextCreated ans n s' := by
  rw [← Option.isSome_iff_ne_none]
  constructor
  · intro h
    refine ⟨h 0 (Nat.succ_pos n), fun k hk => ?_⟩
    rw [hcalls, Nat.add_assoc, Nat.add_comm 1 k]
    exact h (k + 1) (Nat.succ_lt_succ hk)
  · rintro ⟨hfirst, hrest⟩ k hk
    cases k with
    | zero => exact hfirst
    | succ k =>
      have hnext := hrest k (Nat.lt_of_succ_lt_succ hk)
      rwa [hcalls, Nat.add_assoc, Nat.add_comm 1 k] at hnext

/-- A part of `register_plugsched_enable` that makes `n` calls. -/
structure PartSucceeds (n : ℕ) (s : State) (r : ℤ × State) : Prop where
  iff : r.1 = 0 ↔ NextCreated ans n s ∧ ans.sysfsCreateFile = 0
  calls : r.1 = 0 → r.2.calls = s.calls + n

theorem registerFile_succeeds (s : State) : PartSucceeds ans 0 s (registerFile ans s) := by
  rw [registerFile]
  split
  · next hfile =>
    exact ⟨iff_of_false hfile fun h => hfile h.2, fun h => absurd h hfile⟩
  · next hfile =>
    exact ⟨iff_of_true rfl ⟨nextCreated_zero ans s, not_not.mp hfile⟩, fun _ => rfl⟩

/-- One more directory in front of a part. -/
theorem PartSucceeds.cons {n : ℕ} {s' sfail : State} {r : ℤ × State}
    (h : PartSucceeds ans n s' r) (hcalls : s'.calls = s.calls + 1) :
    PartSucceeds ans (n + 1) s
      (if ans.kobjectCreateAndAdd s.calls = none then (-ENOMEM, sfail) else r) := by
  have hsucc := nextCreated_succ_iff ans n hcalls
  split
  · next hnone =>
    exact ⟨iff_of_false neg_ENOMEM_ne_zero fun hall => (hsucc.mp hall.1).1 hnone,
      fun hret => absurd hret neg_ENOMEM_ne_zero⟩
  · next hsome =>
    refine ⟨?_, fun hret => ?_⟩
    · rw [h.iff, hsucc, and_iff_right hsome]
    · rw [h.calls hret, hcalls, Nat.add_assoc, Nat.add_comm 1 n]

theorem registerPlugschedEnable_succeeds (s : State) :
    PartSucceeds ans 3 s (registerPlugschedEnable ans s) := by
  have hmoddir (s : State) : PartSucceeds ans 1 s (registerModdir ans s) := by
    rw [registerModdir, kobjectCreateAndAdd_fst]
    exact (registerFile_succeeds ans _).cons ans (calls_kobjectCreateAndAdd ans _ _ s)
  have hsubdir (s : State) : PartSucceeds ans 2 s (registerSubdir ans s) := by
    rw [registerSubdir, kobjectCreateAndAdd_fst]
    exact (hmoddir _).cons ans (calls_kobjectCreateAndAdd ans _ _ s)
  rw [registerPlugschedEnable, kobjectCreateAndAdd_fst]
  exact (hsubdir _).cons ans (calls_kobjectCreateAndAdd ans _ _ s)

theorem registerTainted_eq_zero_iff (tfs : List TaintedFunction) (s : State) :
    (registerTainted ans tfs s).1 = 0 ↔ NextCreated ans tfs.length s := by
  induction tfs generalizing s with
  | nil => exact iff_of_true rfl (nextCreated_zero ans s)
  | cons tf tfs ih =>
    rw [List.length_cons, nextCreated_succ_iff ans _
      (calls_kobjectCreateAndAdd ans tf.name s.vmlinuxModdir s), ← ih, registerTainted,
      kobjectCreateAndAdd_fst]
    dsimp only
    split
    · next hnone => exact iff_of_false neg_ENOMEM_ne_zero fun h => h.1 hnone
    · next hsome => exact (and_iff_right hsome).symm

end Succeeds

/-- All directories for these functions and the file can be created. -/
def AllCreated (ans : Answers) (names : List String) : Prop :=
  (∀ k < 3 + names.length, (ans.kobjectCreateAndAdd k).isSome) ∧ ans.sysfsCreateFile = 0

/-! ### The whole registration -/

/-- The directories of the module, the file `enable`, and a directory in
`vmlinux_moddir` for every tainted function. -/
structure Registered (names : List String) (s : State) : Prop where
  dirs : ∃ d sd md, s.plugschedDir = some d ∧ s.plugschedSubdir = some sd ∧
    s.vmlinuxModdir = some md
  file : .obtained .enableFile ∈ s.log
  names : s.taintedFunctions.map TaintedFunction.name = names
  tainted : ∀ tf ∈ s.taintedFunctions, ∃ k, tf.kobj = some k ∧
    (k, tf.name, s.vmlinuxModdir) ∈ s.dirs

/-- The loop over the tainted functions after `register_plugsched_enable`. -/
theorem registerTaintedFunctions_spec (ans : Answers) {s : State} {d sd md : ℕ}
    (h : EnableRegistered s [] d sd md) :
    (∃ ks : List ℕ, HaveKobjs (registerTaintedFunctions ans s).2.taintedFunctions ks ∧
      EnableRegistered (registerTaintedFunctions ans s).2 (ks.map .kobj) d sd md) ∧
    ((registerTaintedFunctions ans s).1 = 0 →
      Registered (s.taintedFunctions.map TaintedFunction.name)
        (registerTaintedFunctions ans s).2) := by
  obtain ⟨ks, hrun⟩ := registerTainted_spec ans s.taintedFunctions s
  have hfile : .obtained .enableFile ∈ s.log := by
    have hcount := h.holds.balance .enableFile
    refine List.count_pos_iff.mp ?_
    rw [hcount]
    simp
  have hholds := h.holds.obtainAll (ks.map .kobj)
  rw [List.map_map] at hholds
  refine ⟨⟨ks, hrun.kobjs,
    { dir := hrun.same.dir.trans h.dir
      subdir := hrun.same.subdir.trans h.subdir
      moddir := hrun.same.moddir.trans h.moddir
      holds := ?_ }⟩, fun hret =>
    { dirs := ⟨d, sd, md, hrun.same.dir.trans h.dir, hrun.same.subdir.trans h.subdir,
        hrun.same.moddir.trans h.moddir⟩
      file := ?_
      names := hrun.names hret
      tainted := ?_ }⟩
  · show Holds (registerTainted ans s.taintedFunctions s).2.2.log _
    rw [hrun.log]
    exact hholds
  · show _ ∈ (registerTainted ans s.taintedFunctions s).2.2.log
    rw [hrun.log]
    exact List.mem_append_left _ hfile
  · intro tf htf
    obtain ⟨k, hk, hmem⟩ := hrun.registered hret tf htf
    refine ⟨k, hk, ?_⟩
    rw [← hrun.same.moddir] at hmem
    exact hmem

/-- The registration succeeds exactly if every creation does. -/
theorem registerPlugschedSysfs_eq_zero_iff (ans : Answers) (names : List String) :
    (registerPlugschedSysfs ans (State.init names)).1 = 0 ↔ AllCreated ans names := by
  have henable := registerPlugschedEnable_succeeds ans (State.init names)
  obtain ⟨htainted, -⟩ := registerPlugschedEnable_spec ans (s := State.init names) rfl holds_nil
  have hlen : (registerPlugschedEnable ans (State.init names)).2.taintedFunctions.length =
      names.length := by
    rw [htainted]
    exact List.length_map _
  rw [registerPlugschedSysfs]
  dsimp only
  split
  · next hret =>
    refine iff_of_false neg_ENOMEM_ne_zero fun hall => ?_
    refine hret (henable.iff.mpr ⟨fun k hk => ?_, hall.2⟩)
    rw [show (State.init names).calls = 0 from rfl, Nat.zero_add]
    exact hall.1 k (by omega)
  · next hret =>
    have hret := not_not.mp hret
    obtain ⟨hdirs, hfile⟩ := henable.iff.mp hret
    have hcalls : (registerPlugschedEnable ans (State.init names)).2.calls = 0 + 3 :=
      henable.calls hret
    have hloop := registerTainted_eq_zero_iff ans
      (registerPlugschedEnable ans (State.init names)).2.taintedFunctions
      (registerPlugschedEnable ans (State.init names)).2
    rw [hlen] at hloop
    -- the calls of the loop are those from the fourth on
    have hall : (registerTaintedFunctions ans
        (registerPlugschedEnable ans (State.init names)).2).1 = 0 ↔ AllCreated ans names := by
      refine hloop.trans ⟨fun hrest => ⟨fun k hk => ?_, hfile⟩, fun hall k hk => ?_⟩
      · rcases Nat.lt_or_ge k 3 with hlt | hge
        · have hdir := hdirs k hlt
          rwa [show (State.init names).calls = 0 from rfl, Nat.zero_add] at hdir
        · obtain ⟨j, rfl⟩ := Nat.exists_eq_add_of_le hge
          have hfn := hrest j (by omega)
          rwa [hcalls, Nat.zero_add] at hfn
      · rw [hcalls, Nat.zero_add]
        exact hall.1 (3 + k) (by omega)
    split
    · next hne => exact iff_of_false neg_ENOMEM_ne_zero fun h => hne (hall.mpr h)
    · next heq => exact iff_of_true rfl (hall.mp (not_not.mp heq))

/-- Whatever fails: `register_plugsched_sysfs` returns 0 with everything registered, and
later `unregister_plugsched_sysfs` releases each once; or it returns an error and has
released once what it has created, and nothing else.  It returns 0 exactly if every creation
succeeds. -/
theorem registerPlugschedSysfs_releases (ans : Answers) (names : List String) :
    (((registerPlugschedSysfs ans (State.init names)).1 = 0 ∧
      Registered names (registerPlugschedSysfs ans (State.init names)).2 ∧
      AllReleased
        (unregisterPlugschedSysfs (registerPlugschedSysfs ans (State.init names)).2).log) ∨
    ((registerPlugschedSysfs ans (State.init names)).1 = -ENOMEM ∧
      AllReleased (registerPlugschedSysfs ans (State.init names)).2.log)) ∧
    ((registerPlugschedSysfs ans (State.init names)).1 = 0 ↔ AllCreated ans names) := by
  refine ⟨?_, registerPlugschedSysfs_eq_zero_iff ans names⟩
  have hinit : (State.init names).taintedFunctions.map TaintedFunction.name = names := by
    rw [State.init, List.map_map]
    exact List.map_id names
  obtain ⟨htainted, hor⟩ := registerPlugschedEnable_spec ans (s := State.init names) rfl holds_nil
  rw [registerPlugschedSysfs]
  dsimp only
  rcases hor with ⟨hret, hreleased⟩ | ⟨hret, d, sd, md, henable⟩
  · rw [if_pos hret]
    exact .inr ⟨rfl, hreleased⟩
  rw [if_neg (not_not.mpr hret)]
  obtain ⟨⟨ks, hkobjs, hall⟩, hregistered⟩ := registerTaintedFunctions_spec ans henable
  have hback := unregisterPlugschedSysfs_allReleased hkobjs hall
  by_cases hloop :
      (registerTaintedFunctions ans (registerPlugschedEnable ans (State.init names)).2).1 = 0
  · rw [if_neg (not_not.mpr hloop)]
    have hreg := hregistered hloop
    rw [htainted, hinit] at hreg
    exact .inl ⟨rfl, hreg, hback⟩
  · rw [if_pos hloop]
    exact .inr ⟨rfl, hback⟩

/-- The results that the life of the module in `schedModInit` depends on are those of
the two routines here. -/
theorem registerPlugschedSysfs_insertion {T : Type*} {M : SchedMod T} (ans : Answers) (s : State)
    {i : Insertion} (henable : i.registerEnable = (registerPlugschedEnable ans s).1)
    (htainted : i.registerTainted =
      (registerTaintedFunctions ans (registerPlugschedEnable ans s).2).1) (m : ModState M) :
    (Plugsched.registerPlugschedSysfs i m).1 = (registerPlugschedSysfs ans s).1 := by
  rw [registerPlugschedSysfs, Plugsched.registerPlugschedSysfs, henable, htainted]
  dsimp only
  split
  · rfl
  · split <;> rfl

end Plugsched.Sysfs
