/-
Redirected functions that another live patcher has hooked.

On x86-64 `jump_init_all` refuses a function whose head is a jump or a call; it
runs once, when the module is inserted.  The heads are overwritten by every load.

* `unhooked_when_overwritten` — when no head is ever hooked at that moment;
* `hook_overwritten` — a hook that is lost.
-/
import Plugsched.EnableRace

open ByteMem Runs Threads

namespace Plugsched

variable {T : Type*} {M : SchedMod T} {A : Arch} {fentry : ℕ}

/-- None of these functions is hooked in the sense of `jump_init_all`. -/
def Unhooked (fentry : ℕ) (jumps : List (Jump A)) (text : Mem Byte) : Prop :=
  ∀ j ∈ jumps, hooked fentry j.fn.orig (readBytes text j.fn.orig 5) = false

/-- The heads of two redirected functions do not overlap. -/
def HeadsApart (fns : List ExportFn) : Prop :=
  fns.Pairwise fun f g => Disjoint (Set.Ico f.orig (f.orig + 5)) (Set.Ico g.orig (g.orig + 5))

theorem unhooked_of_jumpInitAll (hA : A = .x86_64 fentry) {fns : List ExportFn}
    {text : Mem Byte} {jumps : List (Jump A)} (h : jumpInitAll A fns text = .ok jumps) :
    Unhooked fentry jumps text := by
  subst hA
  intro j hj
  have hfns : jumps.map Jump.fn = fns := (jumpInitAll_ok h).1
  refine jumpInitAll_ok_iff.mp ⟨jumps, h⟩ j.fn ?_
  rw [← hfns]
  exact List.mem_map_of_mem hj

/-- A hooked function makes `jump_init_all` fail. -/
theorem jumpInitAll_error_of_hooked (hA : A = .x86_64 fentry) {fns : List ExportFn}
    {text : Mem Byte} {f : ExportFn} (hf : f ∈ fns)
    (hhook : hooked fentry f.orig (readBytes text f.orig 5) = true) :
    ∃ name, jumpInitAll A fns text = .error name := by
  subst hA
  cases h : jumpInitAll (.x86_64 fentry) fns text with
  | error name => exact ⟨name, rfl⟩
  | ok jumps =>
    have hno := jumpInitAll_ok_iff.mp ⟨jumps, h⟩ f hf
    rw [hhook] at hno
    cases hno

/-- Overwriting the heads in front of `j` does not touch the head of `j`. -/
theorem readBytes_jumpInstall (hA : A = .x86_64 fentry) {pre post : List (Jump A)} {j : Jump A}
    (hapart : HeadsApart ((pre ++ j :: post).map Jump.fn)) (text : Mem Byte) :
    readBytes (jumpInstall pre text) j.fn.orig 5 = readBytes text j.fn.orig 5 := by
  have hdoc : A.Documented := by rw [hA]; trivial
  have hlen : A.headLen = 5 := by rw [hA]; rfl
  rw [jumpInstall_eq hdoc]
  refine readBytes_applyAll_of_disjoint (fun p hp => ?_) text
  obtain ⟨i, hi, rfl⟩ := List.mem_map.mp (List.mem_of_mem_filter hp)
  rw [List.map_append, List.map_cons, HeadsApart, List.pairwise_append] at hapart
  have hij := hapart.2.2 i.fn (List.mem_map_of_mem hi) j.fn List.mem_cons_self
  show Disjoint _ (Set.Ico i.fn.orig (i.fn.orig + i.storeJump.length))
  rw [i.length_jump, hlen]
  exact hij.symm

/-- A load is on its way: `jump_init_all` has passed, or a write is going to load. -/
def Place.loading : Place → Bool
  | .register | .taint | .get | .create | .install => true
  | _ => false

section Steps

variable {inp : Inputs} {c : Caller} {p p' : Place} {m m' : ModState M}

/-- Up to the install a load leaves the heads alone. -/
theorem Stepped.loading (h : Stepped inp c m p p' m') (hb : p.busy = true)
    (hp' : p'.loading = true) :
    (p.loading = true ∧ m'.jumps = m.jumps ∧ m'.image.text = m.image.text) ∨
      (jumpInitAll M.arch M.fns m.image.text = .ok m'.jumps ∧ m'.image.text = m.image.text) := by
  have hleave : ∀ ret, (inp.leave c ret).loading = true → False := by
    intro ret hl
    rcases leave_eq inp c ret with h | ⟨r, h⟩ <;> rw [h] at hl <;> cases hl
  cases h with
  | check hinit => exact .inr ⟨hinit, rfl⟩
  | register | taint | get | create => exact .inl ⟨rfl, rfl, rfl⟩
  | invalid | begin | nothing | load _ _ _ | unload _ _ _ | unregister => cases hb
  | put | enable | notRestored | disable => exact (hleave _ hp').elim
  | _ => cases hp'

/-- A write comes to the test without having done anything. -/
theorem Stepped.before_test (h : Stepped inp c m p p' m') (hp' : p' = .idle ∨ p' = .test) :
    p = .idle ∧ m' = m := by
  have hleave : ∀ ret, ¬ (inp.leave c ret = .idle ∨ inp.leave c ret = .test) := by
    intro ret
    rcases leave_eq inp c ret with h | ⟨r, h⟩ <;> simp [h]
  cases h with
  | begin => exact ⟨rfl, rfl⟩
  | put | enable | notRestored | disable => exact absurd hp' (hleave _)
  | _ => simp at hp'

/-- Only `jump_init_all` saves heads. -/
theorem Stepped.jumps (h : Stepped inp c m p p' m') :
    m'.jumps = m.jumps ∨ jumpInitAll M.arch M.fns m.image.text = .ok m'.jumps := by
  cases h with
  | check hinit => exact .inr hinit
  | _ => exact .inl rfl

end Steps

/-- The steps in which no write acts on the flag while another call is at work, no
write sets out to load while a redirected function is hooked, and live patchers
hook none while a load is on its way. -/
def HookFreeNext (M : SchedMod T) (fentry : ℕ) (inp : Inputs)
    (s : State Caller Place (ModState M)) (e : Option Caller)
    (s' : State Caller Place (ModState M)) : Prop :=
  SerialNext M inp s e s' ∧
    (∀ i, e = some (.store i) → s.pc (.store i) = .test → s.data.schedulerEnable ≠ 1 →
      truth (inp.writes i).parsed.2 = 1 → Unhooked fentry s.data.jumps s.data.image.text) ∧
    (e = none → (∃ c, (s.pc c).loading = true) →
      Unhooked fentry s'.data.jumps s'.data.image.text)

section Runs

variable {inp : Inputs} {img : Image T} {base : ℕ} {s s' : State Caller Place (ModState M)}
  {e : Option Caller} {tr : List Caller}

/-- What is saved belongs to the functions of the module. -/
theorem jumps_of_run (h : Run (Next (calls M inp)) (start M img base) tr s) :
    s.data.jumps = [] ∨ s.data.jumps.map Jump.fn = M.fns := by
  refine h.invariant
    (I := fun _ s => s.data.jumps = [] ∨ s.data.jumps.map Jump.fn = M.fns) (.inl rfl) ?_
  rintro - s - - - ih (hstep | hpatch)
  · rcases (callStep_stepped hstep).jumps with hsame | hinit
    · show _ ∨ _
      rwa [State.move, hsame]
    · exact .inr (jumpInitAll_ok hinit).1
  · obtain ⟨-, p, rfl⟩ := hpatch
    exact ih

/-- While a load is on its way no redirected function is hooked. -/
def HookFree (fentry : ℕ) (s : State Caller Place (ModState M)) : Prop :=
  Owned (fun p : Place => p.busy = true)
    (fun p m => p.loading = true → Unhooked fentry m.jumps m.image.text) (fun _ => True) s

theorem HookFree.next (hM : M.arch = .x86_64 fentry) (h : HookFree fentry s)
    (hnext : HookFreeNext M fentry inp s e s') : HookFree fentry s' := by
  obtain ⟨⟨hnext, hserial⟩, hload, hpatch⟩ := hnext
  cases hnext with
  | env hd => exact Owned.env h (fun c _ _ hl => hpatch rfl ⟨c, hl⟩) fun _ => trivial
  | @thread c p d hstep =>
    have hstepped := callStep_stepped hstep
    by_cases hb : (s.pc c).busy = true
    · -- either the load goes on, or `jump_init_all` has just passed
      refine Owned.step_alone (h.others hb) (fun _ hp => ?_) fun _ => trivial
      rcases hstepped.loading hb hp with ⟨hl, hjumps, htext⟩ | ⟨hinit, htext⟩
      · rw [hjumps, htext]
        exact h.own c hb hl
      · rw [htext]
        exact unhooked_of_jumpInitAll hM hinit
    · rcases hstepped.idle (Bool.eq_false_iff.mpr hb) with ⟨hp, hd⟩ | ⟨hacts, rfl, hp⟩
      · refine Owned.step_aside h hb (Bool.eq_false_iff.mp hp) (fun q hown => ?_) fun _ => trivial
        rcases hd with rfl | rfl <;> exact hown
      · obtain ⟨i, rfl, htest, hne⟩ := id hacts
        refine Owned.step_alone (fun c' _ => Bool.eq_false_iff.mp (hserial _ rfl hacts c'))
          (fun _ hl => ?_) fun _ => trivial
        rcases hp with ⟨rfl, hone⟩ | ⟨rfl, -⟩
        · -- a write sets out to load: here the condition on it is used
          rw [htest] at hstepped
          cases hstepped with
          | load hc hval _ =>
            cases hc
            exact hload i rfl htest hone hval
        · cases hl

theorem hookFree_of_run (hM : M.arch = .x86_64 fentry)
    (h : Run (HookFreeNext M fentry inp) (start M img base) tr s) : HookFree fentry s := by
  have hstart : HookFree fentry (start M img base) := by
    have horderly : Orderly img base (start M img base) := orderly_start
    refine ⟨horderly.alone, fun c _ hl => ?_, fun _ => trivial⟩
    by_cases hc : c = .init <;> simp [start, hc, Place.loading] at hl
  exact h.invariant (I := fun _ s => HookFree fentry s) hstart fun _ _ _ _ _ ih hnext =>
    ih.next hM hnext

/-- **No hook is lost when nobody hooks during a load.**  On x86-64, for functions
whose heads do not overlap, in every run of the initialisation, of writes that act
one at a time and of other live patchers: if no write sets out to load while a
function is hooked and nobody hooks one while a load is on its way, no head is
hooked at the moment an install overwrites it.  A function that is hooked when the
module is inserted makes the insertion fail, and nothing is changed. -/
theorem unhooked_when_overwritten (M : SchedMod T) (fentry : ℕ)
    (hM : M.arch = .x86_64 fentry) (hapart : HeadsApart M.fns) (inp : Inputs) (img : Image T)
    (base : ℕ) (tr : List Caller) (s : State Caller Place (ModState M))
    (h : Run (HookFreeNext M fentry inp) (start M img base) tr s) :
    (∀ c, s.pc c = .install → inp.stopped c = 0 → ∀ pre j post,
      s.data.jumps = pre ++ j :: post →
        hooked fentry j.fn.orig
          (readBytes (jumpInstall pre s.data.image.text) j.fn.orig 5) = false) ∧
    (s.pc .init = .check → ∀ f ∈ M.fns,
      hooked fentry f.orig (readBytes s.data.image.text f.orig 5) = true →
        callStep inp .init .check s.data = some (.returned (-EBUSY), s.data)) := by
  constructor
  · intro c hc _ pre j post hjumps
    have hrun : Run (Next (calls M inp)) (start M img base) tr s :=
      h.mono fun _ _ _ hnext => hnext.1.1
    have hfns : HeadsApart ((pre ++ j :: post).map Jump.fn) := by
      rw [← hjumps]
      rcases jumps_of_run hrun with hnil | hfns
      · rw [hnil]
        exact .nil
      · rwa [hfns]
    -- unhooked before the install, and not touched by the heads in front
    have hfree := (hookFree_of_run hM h).own c (by rw [hc]; rfl) (by rw [hc]; rfl)
    rw [readBytes_jumpInstall hM hfns]
    refine hfree j ?_
    rw [hjumps]
    exact List.mem_append_right pre List.mem_cons_self
  · intro _ f hf hhook
    obtain ⟨name, hinit⟩ := jumpInitAll_error_of_hooked hM hf hhook
    simp only [callStep, hinit]

end Runs

section Alone

variable {inp : Inputs} {img : Image T} {base : ℕ} {s : State Caller Place (ModState M)}
  {tr : List Caller} {c : Caller}

/-- A call that runs on its own while no function is hooked. -/
theorem run_alone_hookFree (h : Run (HookFreeNext M fentry inp) (start M img base) tr s)
    (hothers : ∀ c' ≠ c, (s.pc c').busy = false)
    (hun : ∀ i, c = .store i → truth (inp.writes i).parsed.2 = 1 →
      s.pc c = .idle ∨ s.pc c = .test → Unhooked fentry s.data.jumps s.data.image.text)
    (n : ℕ) :
    Run (HookFreeNext M fentry inp) (start M img base)
      (exec (calls M inp) (List.replicate n c) (tr, s)).1
      (exec (calls M inp) (List.replicate n c) (tr, s)).2 := by
  induction n generalizing tr s with
  | zero => exact h
  | succ n ih =>
    rw [List.replicate_succ]
    cases hstep : (calls M inp).step c (s.pc c) s.data with
    | none =>
      rw [exec_cons_none hstep]
      exact ih h hothers hun
    | some r =>
      obtain ⟨p, d⟩ := r
      rw [exec_cons_some hstep]
      have hnext : HookFreeNext M fentry inp s (some c) (s.move c p d) := by
        refine ⟨⟨.thread hstep, ?_⟩, ?_, by simp⟩
        · rintro c₀ hc₀ ⟨i, -, htest, -⟩ c'
          by_cases hne : c' = c
          · cases hc₀
            rw [hne, htest]
            rfl
          · exact hothers c' hne
        · intro i hi htest _ hval
          cases hi
          exact hun i rfl hval (.inr htest)
      refine ih (h.snoc hnext) (fun c' hne => ?_) fun i hi hval hp => ?_
      · rw [State.move_pc_of_ne s hne]
        exact hothers c' hne
      · rw [State.move_pc] at hp
        obtain ⟨hidle, rfl⟩ := (callStep_stepped hstep).before_test hp
        exact hun i hi hval (.inl hidle)

end Alone

/-- The module is inserted and unloaded again; write 1 is about to install it. -/
def reload : List Caller × State Caller Place (ModState x86Sched) :=
  exec (calls x86Sched threeWrites) (List.replicate 4 (.store 1)) insertThenUnload

theorem unhooked_when_overwritten_reload :
    reload.2.pc (.store 1) = .install ∧ ∃ i j, reload.2.data.jumps = [i, j] ∧
      hooked 0x2000 j.fn.orig
        (readBytes (jumpInstall [i] reload.2.data.image.text) j.fn.orig 5) = false := by
  have hapart : HeadsApart x86Sched.fns := by
    have hdisjoint : Disjoint (Set.Ico 0x1000 (0x1000 + 5)) (Set.Ico 0x1040 (0x1040 + 5)) :=
      Set.disjoint_left.mpr fun x hx hx' => by
        have hlt := hx.2
        have hle := hx'.1
        omega
    exact .cons (fun g hg => List.mem_singleton.mp hg ▸ hdisjoint) (.cons (by simp) .nil)
  have hstart : Run (HookFreeNext x86Sched 0x2000 threeWrites) (start x86Sched x86Image 1) []
      (start x86Sched x86Image 1) := .nil
  have hinit := run_alone_hookFree hstart (c := .init) (fun c' hne => by
    cases c' with
    | init => exact absurd rfl hne
    | store i => rfl) (fun i hi => by cases hi) 8
  have hunload := run_alone_hookFree hinit (c := .store 0) (fun c' hne => by
    cases c' with
    | init => rfl
    | store i => rfl) (fun i hi hval => by cases hi; cases hval) 8
  have hload := run_alone_hookFree hunload (c := .store 1) (fun c' hne => by
    cases c' with
    | init => rfl
    | store i =>
      match i with
      | 0 => rfl
      | 1 => exact absurd rfl hne
      | i + 2 => rfl) (fun i hi _ _ => by
    show ∀ j ∈ insertThenUnload.2.data.jumps, hooked 0x2000 j.fn.orig
      (readBytes insertThenUnload.2.data.image.text j.fn.orig 5) = false
    decide) 4
  have h := unhooked_when_overwritten x86Sched 0x2000 rfl hapart threeWrites x86Image 1 _
    reload.2 hload
  exact ⟨rfl, _, _, rfl, h.1 (.store 1) rfl rfl [_] _ [] rfl⟩

/-- Another live patcher redirects `__schedule` while the module is unloaded. -/
def hookSchedule : Patch Byte where
  addr := 0x1000
  bytes := [0xe9, 0x00, 0x10, 0x00, 0x00]

/-- The load that follows does not ask again, and overwrites the hook. -/
theorem hook_overwritten :
    ∃ tr s, Run (Next (calls x86Sched threeWrites)) (start x86Sched x86Image 1) tr s ∧
      s.pc (.store 1) = .install ∧ threeWrites.stopped (.store 1) = 0 ∧
      ∃ (pre : List (Jump x86Sched.arch)) (j : Jump x86Sched.arch) (post : List _),
        s.data.jumps = pre ++ j :: post ∧
        hooked 0x2000 j.fn.orig
          (readBytes (jumpInstall pre s.data.image.text) j.fn.orig 5) = true := by
  have hstart : Run (Next (calls x86Sched threeWrites)) (start x86Sched x86Image 1) []
      (start x86Sched x86Image 1) := .nil
  have hinit := exec_run (List.replicate 8 .init) hstart
  have hunload := exec_run (List.replicate 8 (.store 0)) hinit
  have hhook := hunload.snoc (.env ⟨by decide, hookSchedule, rfl⟩)
  exact ⟨_, _, exec_run (List.replicate 4 (.store 1)) hhook, rfl, rfl, [], _, _, rfl, by decide⟩

end Plugsched
