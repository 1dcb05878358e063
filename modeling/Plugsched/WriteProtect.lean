/-
Writing to memory that is write-protected, as in `helper.h`.

The text of the kernel and its class tables lie in read-only pages.  On x86-64
`disable_write_protect` clears the bit `WP` of `cr0` and keeps the old value in
`orig_cr0`, of which every file that includes the header has its own; on arm64 it maps
one page at `FIX_TEXT_POKE0`, and the caller writes through that.  `guardedSync` is a
handler on such a machine, where a step may fail; the other modules leave all this out.

* `switchOneGuarded_ok`, `jumpOperation_ok` — what happens between the two calls;
* `Shows.phase` — a phase on the machine does what it does to the image;
* `guardedSync_refines_iff` — when the updates go well, and what they do then.
-/
import Plugsched.SyncEffect

open ByteMem ExceptRules

namespace Plugsched

def Arch.isX86 : Arch → Bool
  | .x86_64 _ => true
  | .arm64 _ _ _ => false

/-- What stops the kernel: `BUG_ON(orig_cr0)`, a write to a read-only page, and an access
behind the page that is mapped. -/
inductive Fault where
  | bug | readOnly | outside

/-- The files that include `helper.h`. -/
inductive HelperUser where
  | mainC | schedRebuildC
  deriving DecidableEq

/-- The machine that runs the first process: the memory of the kernel, `bak_class`, the
register, the static variables, and the page at `FIX_TEXT_POKE0`. -/
structure Guarded where
  mem : Mem Byte
  bakClass : Fin NR_SCHED_CLASS → List Byte
  cr0 : BitVec 64
  origCr0 : HelperUser → BitVec 64
  textPoke0 : Option ℕ

/-- Where `orig_class` points, and the size of its tables.  They do not overlap, and no
redirected head and no canary lies in one of them. -/
structure ClassLayout (M : SchedMod (List Byte)) where
  origClass : Fin NR_SCHED_CLASS → ℕ
  size : ℕ
  pageSize : ℕ
  length_modClass : ∀ i, (M.modClass i).length = size
  apart : ∀ i j, i ≠ j → Disjoint (Set.Ico (origClass i) (origClass i + size))
    (Set.Ico (origClass j) (origClass j + size))
  data : ∀ i, ∀ x ∈ Set.Ico (origClass i) (origClass i + size),
    ¬ InHead M.arch M.fns x ∧ ¬ Covered (nopPatches M.arch) x

/-! ### Opening and closing -/

/-- What `disable_write_protect` returns: the address itself, or one in the page that is
mapped. -/
inductive Waddr where
  | direct (addr : ℕ)
  | fixmap (offset : ℕ)

/-- `disable_write_protect`. -/
def disableWriteProtect (A : Arch) (pageSize : ℕ) (user : HelperUser) (addr : ℕ) (m : Guarded) :
    Except Fault (Waddr × Guarded) :=
  if A.isX86 then
    if m.origCr0 user ≠ 0 then .error .bug
    else
      .ok (.direct addr,
        { m with
          origCr0 := Function.update m.origCr0 user m.cr0
          cr0 := m.cr0 &&& 0xfffeffff })
  else .ok (.fixmap (addr % pageSize), { m with textPoke0 := some (addr / pageSize) })

/-- `enable_write_protect`. -/
def enableWriteProtect (A : Arch) (user : HelperUser) (m : Guarded) : Guarded :=
  if A.isX86 then
    { m with cr0 := m.origCr0 user, origCr0 := Function.update m.origCr0 user 0 }
  else { m with textPoke0 := none }

/-- The bit `WP`: writes of the kernel to read-only pages fail. -/
def Guarded.wp (m : Guarded) : Bool := m.cr0.getLsbD 16

/-- The memory that `len` bytes at such an address are. -/
def Guarded.resolve (pageSize : ℕ) (waddr : Waddr) (len : ℕ) (m : Guarded) : Except Fault ℕ :=
  match waddr with
  | .direct addr => .ok addr
  | .fixmap offset =>
    match m.textPoke0 with
    | none => .error .outside
    | some page =>
      if offset + len ≤ pageSize then .ok (page * pageSize + offset) else .error .outside

/-- `memcpy` to such an address.  The page at `FIX_TEXT_POKE0` is writable. -/
def Guarded.store (pageSize : ℕ) (waddr : Waddr) (bs : List Byte) (m : Guarded) :
    Except Fault Guarded :=
  match waddr with
  | .direct addr =>
    if m.wp then .error .readOnly else .ok { m with mem := writeBytes m.mem addr bs }
  | .fixmap offset =>
    match m.resolve pageSize (.fixmap offset) bs.length with
    | .error e => .error e
    | .ok addr => .ok { m with mem := writeBytes m.mem addr bs }

variable {M : SchedMod (List Byte)} (L : ClassLayout M) (jumps : List (Jump M.arch))

/-- The loop body of `switch_sched_class`. -/
def switchOneGuarded (mod : Bool) (m : Guarded) (i : Fin NR_SCHED_CLASS) :
    Except Fault Guarded := do
  let (waddr, m) ← disableWriteProtect M.arch L.pageSize .schedRebuildC (L.origClass i) m
  if mod then
    let addr ← m.resolve L.pageSize waddr L.size
    let m := { m with bakClass := Function.update m.bakClass i (readBytes m.mem addr L.size) }
    let m ← m.store L.pageSize waddr (M.modClass i)
    .ok (enableWriteProtect M.arch .schedRebuildC m)
  else
    let m ← m.store L.pageSize waddr (m.bakClass i)
    .ok (enableWriteProtect M.arch .schedRebuildC m)

/-- `switch_sched_class`. -/
def switchSchedClassGuarded (mod : Bool) (m : Guarded) : Except Fault Guarded :=
  (List.finRange NR_SCHED_CLASS).foldlM (switchOneGuarded L mod) m

/-- What `jump_install` or `jump_remove` does with one function. -/
def SyncOp.jumpFunc {A : Arch} (op : SyncOp) (text : Mem Byte) (j : Jump A) : Mem Byte :=
  match op with
  | .install => jumpInstallFunc text j
  | .restore => jumpRemoveFunc text j

/-- The same on the machine.  On x86-64 it is a `memcpy` to the text itself; on arm64
`aarch64_insn_patch_text_nosync` maps the page. -/
def jumpFuncGuarded {A : Arch} (op : SyncOp) (m : Guarded) (j : Jump A) : Except Fault Guarded :=
  if A.isX86 && m.wp then .error .readOnly else .ok { m with mem := op.jumpFunc m.mem j }

/-- `JUMP_OPERATION`. -/
def jumpOperation (op : SyncOp) (m : Guarded) : Except Fault Guarded :=
  if M.arch.isX86 then do
    let (_, m) ← disableWriteProtect M.arch L.pageSize .mainC 0 m
    let m ← jumps.foldlM (jumpFuncGuarded op) m
    .ok (enableWriteProtect M.arch .mainC m)
  else jumps.foldlM (jumpFuncGuarded op) m

/-- A call of a handler on the machine. -/
def guardedPhase (op : SyncOp) (m : Guarded) (ph : Phase) : Except Fault Guarded :=
  match ph with
  | .switchSchedClass => switchSchedClassGuarded L (op = .install) m
  | .jumpOperation => jumpOperation L jumps op m
  | .disableStackProtector => .ok { m with mem := disableStackProtector M.arch m.mem }
  | _ => .ok m

/-- All calls of a handler. -/
def guardedSync (m : Guarded) (op : SyncOp) : Except Fault Guarded :=
  op.phases.foldlM (guardedPhase L jumps op) m

/-! ### Between the two calls -/

/-- The pages of the tables can be opened: on x86-64 the last opening was closed, on arm64
each table lies in one page. -/
def OpensTables (m : Guarded) : Prop :=
  if M.arch.isX86 then m.origCr0 .schedRebuildC = 0
  else ∀ i, L.origClass i % L.pageSize + L.size ≤ L.pageSize

/-- The pages of the text can be opened. -/
def OpensText (A : Arch) (m : Guarded) : Prop := A.isX86 = true → m.origCr0 .mainC = 0

/-- The loop body of `switch_sched_class` without the protection. -/
def switchOneBytes (mod : Bool) (m : Guarded) (i : Fin NR_SCHED_CLASS) : Guarded :=
  if mod then
    { m with
      bakClass := Function.update m.bakClass i (readBytes m.mem (L.origClass i) L.size)
      mem := writeBytes m.mem (L.origClass i) (M.modClass i) }
  else { m with mem := writeBytes m.mem (L.origClass i) (m.bakClass i) }

variable {L jumps} {m m' : Guarded} {op : SyncOp}

/-! ### The machine on x86-64 -/

/-- The pages are open. -/
def Guarded.opened (user : HelperUser) (m : Guarded) : Guarded :=
  { m with
    origCr0 := Function.update m.origCr0 user m.cr0
    cr0 := m.cr0 &&& 0xfffeffff }

theorem disableWriteProtect_x86 {A : Arch} (hA : A.isX86 = true) {user : HelperUser}
    (h : m.origCr0 user = 0) (pageSize addr : ℕ) :
    disableWriteProtect A pageSize user addr m = .ok (.direct addr, m.opened user) := by
  rw [disableWriteProtect, if_pos hA, if_neg (not_not.mpr h)]
  rfl

/-- The mask clears `WP`. -/
theorem wp_of_cr0 {cr0 : BitVec 64} (h : m.cr0 = cr0 &&& 0xfffeffff) : m.wp = false := by
  rw [Guarded.wp, h, BitVec.getLsbD_and]
  simp

/-- Closing puts back what `orig_cr0` has kept. -/
theorem enableWriteProtect_opened {A : Arch} (hA : A.isX86 = true) {user : HelperUser}
    (h : m.origCr0 user = 0) (mem : Mem Byte) (bak : Fin NR_SCHED_CLASS → List Byte) :
    enableWriteProtect A user { m.opened user with mem := mem, bakClass := bak } =
      { m with mem := mem, bakClass := bak } := by
  have horig : Function.update (Function.update m.origCr0 user m.cr0) user 0 = m.origCr0 := by
    rw [Function.update_idem, ← h, Function.update_eq_self]
  rw [enableWriteProtect, if_pos hA]
  simp only [Guarded.opened, Function.update_self, horig]

theorem switchOneGuarded_x86 (hA : M.arch.isX86 = true) (h : m.origCr0 .schedRebuildC = 0)
    (mod : Bool) (i : Fin NR_SCHED_CLASS) :
    switchOneGuarded L mod m i = .ok (switchOneBytes L mod m i) := by
  have hwp : ∀ bak : Fin NR_SCHED_CLASS → List Byte,
      ({ m.opened .schedRebuildC with bakClass := bak } : Guarded).wp = false :=
    fun bak => wp_of_cr0 rfl
  rw [switchOneGuarded, disableWriteProtect_x86 hA h, ok_bind]
  cases mod with
  | true =>
    show Guarded.store _ (.direct _) _ { m.opened .schedRebuildC with bakClass := _ } >>= _ = _
    rw [Guarded.store, hwp]
    exact congrArg Except.ok (enableWriteProtect_opened hA h _ _)
  | false =>
    show Guarded.store _ (.direct _) _ { m.opened .schedRebuildC with bakClass := _ } >>= _ = _
    rw [Guarded.store, hwp]
    exact congrArg Except.ok (enableWriteProtect_opened hA h _ _)

theorem jumpFuncs_ok {m : Guarded} (h : M.arch.isX86 = true → m.wp = false)
    (jumps : List (Jump M.arch)) :
    jumps.foldlM (jumpFuncGuarded op) m =
      .ok { m with mem := jumps.foldl op.jumpFunc m.mem } := by
  induction jumps generalizing m with
  | nil => rfl
  | cons j jumps ih =>
    have hone : jumpFuncGuarded op m j = .ok { m with mem := op.jumpFunc m.mem j } := by
      refine if_neg ?_
      rw [Bool.and_eq_true]
      rintro ⟨hA, hwp⟩
      rw [h hA] at hwp
      cases hwp
    rw [List.foldlM_cons, hone, ok_bind]
    exact ih (m := { m with mem := op.jumpFunc m.mem j }) h

theorem jumpOperation_x86 (hA : M.arch.isX86 = true) (h : m.origCr0 .mainC = 0)
    (op : SyncOp) : jumpOperation L jumps op m =
      .ok { m with mem := jumps.foldl op.jumpFunc m.mem } := by
  rw [jumpOperation, if_pos hA, disableWriteProtect_x86 hA h, ok_bind]
  show jumps.foldlM _ (m.opened .mainC) >>= _ = _
  rw [jumpFuncs_ok fun _ => wp_of_cr0 rfl, ok_bind]
  exact congrArg Except.ok (enableWriteProtect_opened hA h _ _)

/-! ### The machine on arm64 -/

theorem jumpOperation_arm64 (hA : ¬ M.arch.isX86 = true) (op : SyncOp) :
    jumpOperation L jumps op m = .ok { m with mem := jumps.foldl op.jumpFunc m.mem } := by
  rw [jumpOperation, if_neg hA]
  exact jumpFuncs_ok (fun h => absurd h hA) jumps

/-- The page that is mapped shows the bytes at `addr`, up to its end. -/
theorem resolve_fixmap {pageSize addr : ℕ} (hpage : m.textPoke0 = some (addr / pageSize))
    (len : ℕ) :
    m.resolve pageSize (.fixmap (addr % pageSize)) len =
      if addr % pageSize + len ≤ pageSize then .ok addr else .error .outside := by
  rw [Guarded.resolve, hpage]
  show (if _ then Except.ok (addr / pageSize * pageSize + addr % pageSize) else _) = _
  rw [Nat.div_add_mod']

theorem store_fixmap {pageSize addr : ℕ} (hpage : m.textPoke0 = some (addr / pageSize))
    (bs : List Byte) :
    m.store pageSize (.fixmap (addr % pageSize)) bs =
      if addr % pageSize + bs.length ≤ pageSize then
        .ok { m with mem := writeBytes m.mem addr bs }
      else .error .outside := by
  rw [Guarded.store, resolve_fixmap hpage]
  by_cases hfits : addr % pageSize + bs.length ≤ pageSize
  · rw [if_pos hfits, if_pos hfits]
  · rw [if_neg hfits, if_neg hfits]

theorem disableWriteProtect_arm64 {A : Arch} (hA : ¬ A.isX86 = true) (user : HelperUser)
    (pageSize addr : ℕ) :
    disableWriteProtect A pageSize user addr m =
      .ok (.fixmap (addr % pageSize), { m with textPoke0 := some (addr / pageSize) }) :=
  if_neg hA

theorem enableWriteProtect_arm64 {A : Arch} (hA : ¬ A.isX86 = true) (user : HelperUser)
    (m : Guarded) : enableWriteProtect A user m = { m with textPoke0 := none } :=
  if_neg hA

/-- A table that does not end in its page cannot be exchanged. -/
theorem switchOneGuarded_arm64 (hA : ¬ M.arch.isX86 = true) (hslot : m.textPoke0 = none)
    {mod : Bool} {i : Fin NR_SCHED_CLASS} (hlen : (m.bakClass i).length = L.size) :
    switchOneGuarded L mod m i =
      if L.origClass i % L.pageSize + L.size ≤ L.pageSize then .ok (switchOneBytes L mod m i)
      else .error .outside := by
  rw [switchOneGuarded, disableWriteProtect_arm64 hA, ok_bind]
  cases mod with
  | true =>
    show Guarded.resolve _ _ _ { m with textPoke0 := _ } >>= _ = _
    rw [resolve_fixmap rfl]
    by_cases hfits : L.origClass i % L.pageSize + L.size ≤ L.pageSize
    · rw [if_pos hfits, if_pos hfits, ok_bind]
      show Guarded.store _ _ _ _ >>= _ = _
      rw [store_fixmap rfl, L.length_modClass, if_pos hfits, ok_bind,
        enableWriteProtect_arm64 hA, ← hslot]
      rfl
    · rw [if_neg hfits, if_neg hfits]
      rfl
  | false =>
    show Guarded.store _ _ _ { m with textPoke0 := _ } >>= _ = _
    rw [store_fixmap rfl, hlen]
    by_cases hfits : L.origClass i % L.pageSize + L.size ≤ L.pageSize
    · rw [if_pos hfits, if_pos hfits, ok_bind, enableWriteProtect_arm64 hA, ← hslot]
      rfl
    · rw [if_neg hfits, if_neg hfits]
      rfl

/-! ### Whole updates -/

/-- The machine holds this image: the tables where `orig_class` points, and the rest. -/
structure Shows (L : ClassLayout M) (m : Guarded) (img : Image (List Byte)) : Prop where
  text : ∀ x, (∀ i, x ∉ Set.Ico (L.origClass i) (L.origClass i + L.size)) → m.mem x = img.text x
  orig : ∀ i, readBytes m.mem (L.origClass i) L.size = img.classes.orig i
  bak : m.bakClass = img.classes.bak
  length_bak : ∀ i, (m.bakClass i).length = L.size

/-- What opening and closing deal with is as it was. -/
structure SameControl (m m' : Guarded) : Prop where
  cr0 : m'.cr0 = m.cr0
  origCr0 : m'.origCr0 = m.origCr0
  textPoke0 : m'.textPoke0 = m.textPoke0

theorem SameControl.refl (m : Guarded) : SameControl m m := ⟨rfl, rfl, rfl⟩

theorem SameControl.trans {m'' : Guarded} (h : SameControl m m') (h' : SameControl m' m'') :
    SameControl m m'' :=
  ⟨h'.cr0.trans h.cr0, h'.origCr0.trans h.origCr0, h'.textPoke0.trans h.textPoke0⟩

variable {img : Image (List Byte)}

theorem Shows.written (h : Shows L m img) {i : Fin NR_SCHED_CLASS} {bs : List Byte}
    (hlen : bs.length = L.size) :
    Shows L { m with mem := writeBytes m.mem (L.origClass i) bs }
      { img with classes := { img.classes with orig := Function.update img.classes.orig i bs } }
    where
  text x hx := by
    have hout : x ∉ Set.Ico (L.origClass i) (L.origClass i + bs.length) := by
      rw [hlen]
      exact hx i
    show writeBytes m.mem _ _ x = _
    rw [writeBytes_of_notMem _ hout]
    exact h.text x hx
  orig j := by
    show readBytes (writeBytes m.mem _ _) _ _ = Function.update img.classes.orig i bs j
    by_cases hij : j = i
    · rw [hij, Function.update_self, ← hlen, readBytes_writeBytes_self]
    · rw [Function.update_of_ne hij, ← h.orig j]
      refine readBytes_congr fun x hx => writeBytes_of_notMem _ ?_
      rw [hlen]
      exact Set.disjoint_left.mp (L.apart j i hij) hx
  bak := h.bak
  length_bak := h.length_bak

theorem Shows.saved (h : Shows L m img) (i : Fin NR_SCHED_CLASS) :
    Shows L { m with bakClass :=
        Function.update m.bakClass i (readBytes m.mem (L.origClass i) L.size) }
      { img with classes :=
        { img.classes with bak := Function.update img.classes.bak i (img.classes.orig i) } }
    where
  text := h.text
  orig := h.orig
  bak := by
    show Function.update m.bakClass i _ = Function.update img.classes.bak i _
    rw [h.bak, h.orig]
  length_bak j := by
    show (Function.update m.bakClass i _ j).length = _
    by_cases hij : j = i
    · rw [hij, Function.update_self, length_readBytes]
    · rw [Function.update_of_ne hij]
      exact h.length_bak j

theorem Shows.switchOne (h : Shows L m img) (mod : Bool) (i : Fin NR_SCHED_CLASS) :
    Shows L (switchOneBytes L mod m i)
      { img with classes := switchOne M.modClass mod img.classes i } := by
  cases mod with
  | true => exact (h.saved i).written (L.length_modClass i)
  | false =>
    have hbak : m.bakClass i = img.classes.bak i := congrFun h.bak i
    show Shows L { m with mem := writeBytes m.mem _ (m.bakClass i) }
      { img with classes := { img.classes with
        orig := Function.update img.classes.orig i (img.classes.bak i) } }
    rw [← hbak]
    exact h.written (h.length_bak i)

/-- Patches that stay away from the tables do to the machine what they do to the text. -/
theorem Shows.patched (h : Shows L m img) {ps : List (Patch Byte)}
    (hps : ∀ i, ∀ x ∈ Set.Ico (L.origClass i) (L.origClass i + L.size), ¬ Covered ps x) :
    Shows L { m with mem := applyAll ps m.mem } { img with text := applyAll ps img.text } where
  text x hx := by
    show applyAll ps m.mem x = applyAll ps img.text x
    by_cases hcov : Covered ps x
    · exact applyAll_of_covered hcov _ _
    · rw [applyAll_of_not_covered hcov, applyAll_of_not_covered hcov]
      exact h.text x hx
  orig i := by
    rw [← h.orig i]
    exact readBytes_congr fun x hx => applyAll_of_not_covered (hps i x hx) _
  bak := h.bak
  length_bak := h.length_bak

theorem OpensTables.of_same (h : OpensTables L m) (hsame : SameControl m m') :
    OpensTables L m' := by
  unfold OpensTables at h ⊢
  rw [hsame.origCr0]
  exact h

theorem OpensText.of_same {A : Arch} (h : OpensText A m) (hsame : SameControl m m') :
    OpensText A m' := by
  intro hA
  rw [hsame.origCr0]
  exact h hA

theorem sameControl_switchOneBytes (mod : Bool) (m : Guarded) (i : Fin NR_SCHED_CLASS) :
    SameControl m (switchOneBytes L mod m i) := by
  cases mod with
  | true => exact ⟨rfl, rfl, rfl⟩
  | false => exact ⟨rfl, rfl, rfl⟩

theorem switchOneGuarded_ok (hopen : OpensTables L m) (hslot : m.textPoke0 = none)
    (h : Shows L m img) (mod : Bool) (i : Fin NR_SCHED_CLASS) :
    switchOneGuarded L mod m i = .ok (switchOneBytes L mod m i) := by
  unfold OpensTables at hopen
  split at hopen
  · next hA => exact switchOneGuarded_x86 hA hopen mod i
  · next hA =>
    rw [switchOneGuarded_arm64 hA hslot (h.length_bak i)]
    exact if_pos (hopen i)

/-- A machine that has gone on as the image has. -/
def Follows (L : ClassLayout M) (m : Guarded) (img' : Image (List Byte))
    (r : Except Fault Guarded) : Prop :=
  ∃ m', r = .ok m' ∧ Shows L m' img' ∧ SameControl m m'

theorem switchSchedClassGuarded_follows (hopen : OpensTables L m) (hslot : m.textPoke0 = none)
    (h : Shows L m img) (mod : Bool) :
    Follows L m { img with classes := switchSchedClass M.modClass mod img.classes }
      (switchSchedClassGuarded L mod m) := by
  have hloop : ∀ (l : List (Fin NR_SCHED_CLASS)) (m : Guarded) (img : Image (List Byte)),
      OpensTables L m → m.textPoke0 = none → Shows L m img →
      Follows L m { img with classes := l.foldl (switchOne M.modClass mod) img.classes }
        (l.foldlM (switchOneGuarded L mod) m) := by
    intro l
    induction l with
    | nil =>
      intro m img _ _ h
      exact ⟨m, rfl, h, .refl m⟩
    | cons i l ih =>
      intro m img hopen hslot h
      have hsame := sameControl_switchOneBytes (L := L) mod m i
      obtain ⟨m', hrun, hshows, hsame'⟩ := ih _ _ (hopen.of_same hsame)
        (hsame.textPoke0.trans hslot) (h.switchOne mod i)
      refine ⟨m', ?_, hshows, hsame.trans hsame'⟩
      rw [List.foldlM_cons, switchOneGuarded_ok hopen hslot h, ok_bind]
      exact hrun
  exact hloop _ m img hopen hslot h

theorem jumpOperation_ok (hopen : OpensText M.arch m) (op : SyncOp) :
    jumpOperation L jumps op m = .ok { m with mem := jumps.foldl op.jumpFunc m.mem } := by
  by_cases hA : M.arch.isX86 = true
  · exact jumpOperation_x86 hA (hopen hA) op
  · exact jumpOperation_arm64 hA op

/-- What the jumps of either kind write are patches of the redirected heads. -/
theorem jumpFuncs_patches (hM : M.arch.Documented) (hfns : jumps.map Jump.fn = M.fns)
    (op : SyncOp) : ∃ ps, (∀ text, jumps.foldl op.jumpFunc text = applyAll ps text) ∧
      ∀ x, Covered ps x ↔ InHead M.arch M.fns x := by
  cases op with
  | install =>
    refine ⟨installPatches jumps, jumpInstall_eq hM jumps, fun x => ?_⟩
    rw [covered_installPatches, hfns]
  | restore =>
    refine ⟨removePatches jumps, jumpRemove_eq hM jumps, fun x => ?_⟩
    rw [covered_removePatches, hfns]

theorem phaseEffect_jumpOperation (op : SyncOp) (img : Image (List Byte)) :
    phaseEffect M jumps op .jumpOperation img =
      { img with text := jumps.foldl op.jumpFunc img.text } := by
  cases op with
  | install => rfl
  | restore => rfl

/-- A call of a handler does to the machine what it does to the image. -/
theorem Shows.phase (h : Shows L m img) (hM : M.arch.Documented)
    (hfns : jumps.map Jump.fn = M.fns) (htables : OpensTables L m)
    (htext : OpensText M.arch m) (hslot : m.textPoke0 = none) (op : SyncOp) (ph : Phase) :
    Follows L m (phaseEffect M jumps op ph img) (guardedPhase L jumps op m ph) := by
  cases ph with
  | switchSchedClass => exact switchSchedClassGuarded_follows htables hslot h _
  | jumpOperation =>
    obtain ⟨ps, hps, hcov⟩ := jumpFuncs_patches hM hfns op
    refine ⟨_, jumpOperation_ok htext op, ?_, rfl, rfl, rfl⟩
    rw [phaseEffect_jumpOperation, hps, hps]
    exact h.patched fun i x hx => (hcov x).not.mpr (L.data i x hx).1
  | disableStackProtector =>
    refine ⟨_, rfl, ?_, rfl, rfl, rfl⟩
    show Shows L { m with mem := disableStackProtector M.arch m.mem }
      { img with text := disableStackProtector M.arch img.text }
    rw [disableStackProtector_eq hM, disableStackProtector_eq hM]
    exact h.patched fun i x hx => (L.data i x hx).2
  | _ => exact ⟨m, rfl, h, .refl m⟩

/-- A loop whose every step follows the image does so as a whole. -/
theorem follows_foldlM {γ : Type} {f : Guarded → γ → Except Fault Guarded}
    {g : Image (List Byte) → γ → Image (List Byte)} (hslot : m.textPoke0 = none)
    (htables : OpensTables L m) (htext : OpensText M.arch m) (h : Shows L m img)
    (hstep : ∀ m img c, m.textPoke0 = none → OpensTables L m → OpensText M.arch m →
      Shows L m img → Follows L m (g img c) (f m c)) (cs : List γ) :
    Follows L m (cs.foldl g img) (cs.foldlM f m) := by
  induction cs generalizing m img with
  | nil => exact ⟨m, rfl, h, .refl m⟩
  | cons c cs ih =>
    obtain ⟨m₁, hone, hshows, hsame⟩ := hstep m img c hslot htables htext h
    obtain ⟨m', hrest, hshows', hsame'⟩ := ih (hsame.textPoke0.trans hslot)
      (htables.of_same hsame) (htext.of_same hsame) hshows
    refine ⟨m', ?_, hshows', hsame.trans hsame'⟩
    rw [List.foldlM_cons, hone, ok_bind]
    exact hrest

/-! ### Pages that cannot be opened -/

theorem switchSchedClassGuarded_ne_ok (hclosed : ¬ OpensTables L m) (hslot : m.textPoke0 = none)
    (hbak : ∀ i, (m.bakClass i).length = L.size) (mod : Bool) (m' : Guarded) :
    switchSchedClassGuarded L mod m ≠ .ok m' := by
  unfold OpensTables at hclosed
  split at hclosed
  · next hA =>
    -- the first table is enough
    intro h
    obtain ⟨m₁, hfirst, -⟩ := foldlM_cons_ok (a := 0) h
    rw [switchOneGuarded, disableWriteProtect, if_pos hA, if_pos hclosed] at hfirst
    cases hfirst
  · next hA =>
    push Not at hclosed
    obtain ⟨i, hi⟩ := hclosed
    refine foldlM_ne_ok (I := fun m => m.textPoke0 = none ∧ ∀ i, (m.bakClass i).length = L.size)
      (List.mem_finRange i) ⟨hslot, hbak⟩ ?_ ?_ m'
    · rintro j - m₁ m₂ ⟨hslot, hbak⟩ hone
      rw [switchOneGuarded_arm64 hA hslot (hbak j)] at hone
      split at hone
      · obtain rfl := Except.ok.inj hone
        refine ⟨(sameControl_switchOneBytes mod m₁ j).textPoke0.trans hslot, fun k => ?_⟩
        cases mod with
        | false => exact hbak k
        | true =>
          show (Function.update m₁.bakClass j _ k).length = _
          by_cases hkj : k = j
          · rw [hkj, Function.update_self, length_readBytes]
          · rw [Function.update_of_ne hkj]
            exact hbak k
      · cases hone
    · rintro m₁ m₂ ⟨hslot, hbak⟩ hone
      rw [switchOneGuarded_arm64 hA hslot (hbak i), if_neg (not_le.mpr hi)] at hone
      cases hone

theorem jumpOperation_ne_ok (hclosed : ¬ OpensText M.arch m) (op : SyncOp) (m' : Guarded) :
    jumpOperation L jumps op m ≠ .ok m' := by
  unfold OpensText at hclosed
  push Not at hclosed
  obtain ⟨hA, hbug⟩ := hclosed
  intro h
  rw [jumpOperation, if_pos hA, disableWriteProtect, if_pos hA, if_pos hbug] at h
  cases h

/-- A handler exchanges the tables, then patches the jumps. -/
theorem guardedSync_eq (L : ClassLayout M) (jumps : List (Jump M.arch)) (m : Guarded)
    (op : SyncOp) :
    ∃ rest : Guarded → Except Fault Guarded, guardedSync L jumps m op =
      switchSchedClassGuarded L (op = .install) m >>= fun m₁ =>
        jumpOperation L jumps op m₁ >>= rest := by
  cases op with
  | install => exact ⟨fun m₂ => .ok { m₂ with mem := disableStackProtector M.arch m₂.mem }, rfl⟩
  | restore => exact ⟨.ok, rfl⟩

theorem opens_of_guardedSync (h : Shows L m img) (hslot : m.textPoke0 = none)
    (hrun : guardedSync L jumps m op = .ok m') : OpensTables L m ∧ OpensText M.arch m := by
  obtain ⟨rest, heq⟩ := guardedSync_eq L jumps m op
  rw [heq] at hrun
  obtain ⟨m₁, hswitch, hrun⟩ := bind_eq_ok hrun
  obtain ⟨m₂, hjump, -⟩ := bind_eq_ok hrun
  have htables : OpensTables L m := by
    by_contra hclosed
    exact switchSchedClassGuarded_ne_ok hclosed hslot h.length_bak _ m₁ hswitch
  refine ⟨htables, ?_⟩
  -- the jumps are patched with the variables as they were
  obtain ⟨m₁', hswitch', -, hsame⟩ := switchSchedClassGuarded_follows htables hslot h
    (op = .install)
  rw [hswitch] at hswitch'
  obtain rfl := Except.ok.inj hswitch'
  by_contra hclosed
  refine jumpOperation_ne_ok (fun hopen => hclosed ?_) op m₂ hjump
  intro hA
  rw [← hsame.origCr0]
  exact hopen hA

/-- **Write protection.**  Any sequence of updates goes well on the machine exactly if, on
x86-64, no page is left open in either file, and on arm64, no class table crosses the end
of a page.  The memory then holds what the plain model says, and `cr0`, `orig_cr0` and the
mapping are as they were. -/
theorem guardedSync_refines_iff (M : SchedMod (List Byte)) (hM : M.arch.Documented)
    (L : ClassLayout M) (img : Image (List Byte)) (jumps : List (Jump M.arch))
    (hinit : jumpInitAll M.arch M.fns img.text = .ok jumps) (m : Guarded) (h : Shows L m img)
    (hslot : m.textPoke0 = none) (ops : List SyncOp) (hne : ops ≠ []) :
    ((∃ m', ops.foldlM (guardedSync L jumps) m = .ok m') ↔
      OpensTables L m ∧ OpensText M.arch m) ∧
    ∀ m', ops.foldlM (guardedSync L jumps) m = .ok m' →
      Shows L m' (ops.foldl (fun img op => syncEffect M jumps op img) img) ∧
        SameControl m m' := by
  obtain ⟨hfns, -⟩ := jumpInitAll_ok hinit
  have hgo : OpensTables L m ∧ OpensText M.arch m →
      Follows L m (ops.foldl (fun img op => syncEffect M jumps op img) img)
        (ops.foldlM (guardedSync L jumps) m) := by
    rintro ⟨htables, htext⟩
    refine follows_foldlM hslot htables htext h (fun m img op hslot htables htext h => ?_) ops
    exact follows_foldlM hslot htables htext h
      (fun m img ph hslot htables htext h => h.phase hM hfns htables htext hslot op ph) op.phases
  have hopens : ∀ m', ops.foldlM (guardedSync L jumps) m = .ok m' →
      OpensTables L m ∧ OpensText M.arch m := by
    intro m' hrun
    obtain ⟨op, rest, rfl⟩ := List.exists_cons_of_ne_nil hne
    obtain ⟨m₁, hfirst, -⟩ := foldlM_cons_ok hrun
    exact opens_of_guardedSync h hslot hfirst
  refine ⟨⟨?_, ?_⟩, ?_⟩
  · rintro ⟨m', hrun⟩
    exact hopens m' hrun
  · intro hopen
    obtain ⟨m', hrun, -⟩ := hgo hopen
    exact ⟨m', hrun⟩
  · intro m' hrun
    obtain ⟨m'', hrun', hshows, hsame⟩ := hgo (hopens m' hrun)
    rw [hrun] at hrun'
    obtain rfl := Except.ok.inj hrun'
    exact ⟨hshows, hsame⟩

/-- A module for arm64 whose tables have two bytes each. -/
def smallTables : SchedMod (List Byte) where
  arch := .arm64 arm64Insn 0x1000 none
  fns := [⟨"__schedule", 0x1000, 0x9000⟩]
  modClass := fun _ => [7, 7]

/-- The tables stand two bytes apart from `base` on, behind the text. -/
def smallLayout (base : ℕ) (h : 0x2000 ≤ base) : ClassLayout smallTables where
  origClass := fun i => base + 2 * i
  size := 2
  pageSize := 0x1000
  length_modClass := fun _ => rfl
  apart := by
    intro i j hij
    refine Set.disjoint_left.mpr ?_
    rintro x ⟨hi, hi'⟩ ⟨hj, hj'⟩
    exact hij (Fin.ext (by omega))
  data := by
    rintro i x ⟨hle, -⟩
    refine ⟨?_, ?_⟩
    · rintro ⟨f, hf, -, -, hlt⟩
      obtain rfl := List.mem_singleton.mp hf
      have hlt' : x < 0x1000 + 4 := hlt
      omega
    · rintro ⟨p, hp, -⟩
      exact absurd hp List.not_mem_nil

/-- A machine with these tables. -/
def smallMachine : Guarded where
  mem := fun x => BitVec.ofNat 8 x
  bakClass := fun _ => [0, 0]
  cr0 := 0x80050033
  origCr0 := fun _ => 0
  textPoke0 := none

/-- What it holds. -/
def smallImage (base : ℕ) : Image (List Byte) where
  text := smallMachine.mem
  classes :=
    { orig := fun i => readBytes smallMachine.mem (base + 2 * i) 2, bak := fun _ => [0, 0] }

/-- Tables that begin a page can be exchanged; when the third one crosses the end of its
page the kernel stops. -/
theorem guardedSync_refines_iff_smallTables :
    ∃ jumps, jumpInitAll smallTables.arch smallTables.fns smallMachine.mem = .ok jumps ∧
      (∃ m', [SyncOp.install, .restore].foldlM
        (guardedSync (smallLayout 0x2000 (by decide)) jumps) smallMachine = .ok m') ∧
      ¬ ∃ m', [SyncOp.install].foldlM
        (guardedSync (smallLayout 0x2ffb (by decide)) jumps) smallMachine = .ok m' := by
  have hshows : ∀ base (h : 0x2000 ≤ base),
      Shows (smallLayout base h) smallMachine (smallImage base) :=
    fun base h => ⟨fun _ _ => rfl, fun _ => rfl, rfl, fun _ => rfl⟩
  refine ⟨_, rfl, ?_, ?_⟩
  · refine (guardedSync_refines_iff smallTables arm64Insn_documented _ (smallImage 0x2000) _ rfl
      smallMachine (hshows _ _) rfl _ (by decide)).1.mpr ⟨?_, ?_⟩
    · show ∀ i : Fin NR_SCHED_CLASS, (0x2000 + 2 * i.val) % 0x1000 + 2 ≤ 0x1000
      decide
    · intro hA
      cases hA
  · intro hrun
    have hopen := (guardedSync_refines_iff smallTables arm64Insn_documented _ (smallImage 0x2ffb) _
      rfl smallMachine (hshows _ _) rfl _ (by decide)).1.mp hrun
    have hfits : ∀ i : Fin NR_SCHED_CLASS, (0x2ffb + 2 * i.val) % 0x1000 + 2 ≤ 0x1000 := hopen.1
    exact absurd (hfits 2) (by decide)

end Plugsched
