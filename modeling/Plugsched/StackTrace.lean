/-
The check of one task, as in `stack_check.h`.

A task may not be inside a redirected function while the functions are
exchanged.  `stackCheckTask` takes a trace of at most `MAX_STACK_ENTRIES` return
addresses and looks each of them up in the sorted table of the functions.  The
unwinder belongs to the kernel: `Unwinder` holds what it offers.

* `stackCheckFn_eq_scan` — the search in the sorted table agrees with a scan;
* `stackCheckTask_safe_iff` — a task is declared safe wrongly exactly if only
  the part of its trace that was cut off is inside a redirected function.
-/
import Mathlib.Algebra.Group.Nat.Defs
import Mathlib.Data.Fin.VecNotation
import Mathlib.Data.Fintype.Basic
import Plugsched.AddrSort

namespace Plugsched

def EAGAIN : ℤ := 11

def ULONG_MAX : ℕ := 2 ^ 64 - 1

def MAX_STACK_ENTRIES : ℕ := 100

/-! ### The tables -/

/-- Functions in memory, by address and by the size that kallsyms reports.  They
do not overlap, and none reaches the end of the address space. -/
structure FuncSet (n : ℕ) extends FuncTable n where
  inj : Function.Injective addr
  disjoint : ∀ i j, i ≠ j → addr i + size i ≤ addr j ∨ addr j + size j ≤ addr i
  le_top : ∀ i, addr i + size i ≤ ULONG_MAX

/-- The redirected functions in the kernel and their replacements in the module;
`schedule` is `NR___schedule`. -/
structure SchedFns (n : ℕ) where
  vm : FuncSet n
  mod : FuncSet n
  schedule : Fin n

/-- The arrays that `stack_check_fn` searches. -/
structure StackTables (n : ℕ) where
  vm : FuncTable n
  mod : FuncTable n

variable {n : ℕ}

/-- The size of `__schedule` is set to 0, then the arrays are sorted. -/
def FuncSet.sorted (f : FuncSet n) (schedule : Fin n) : FuncTable n :=
  addrSort { addr := f.addr, size := Function.update f.size schedule 0 }

/-- `stack_check_init`. -/
def stackCheckInit (F : SchedFns n) : StackTables n where
  vm := F.vm.sorted F.schedule
  mod := F.mod.sorted F.schedule

/-- The functions that matter in this direction. -/
def SchedFns.side (F : SchedFns n) (install : Bool) : FuncSet n :=
  if install then F.vm else F.mod

/-- The address lies inside a redirected function other than `__schedule`. -/
def SchedFns.InRedirected (F : SchedFns n) (install : Bool) (a : ℕ) : Prop :=
  ∃ i, i ≠ F.schedule ∧ (F.side install).addr i ≤ a ∧
    a < (F.side install).addr i + (F.side install).size i

instance (F : SchedFns n) (install : Bool) (a : ℕ) : Decidable (F.InRedirected install a) :=
  inferInstanceAs (Decidable (∃ _, _))

/-- The loop of `stack_check_fn` over the entries of the trace. -/
def stackCheckEntries (t : FuncTable n) : List ℕ → ℤ
  | [] => 0
  | address :: entries =>
    let idx := bsearch t.addr 0 (n - 1) le_rfl (Int.sub_one_lt_of_le le_rfl) address
    if h : idx = -1 then stackCheckEntries t entries
    else
      have hidx : idx.toNat < n := by
        have := bsearch_bounds t.addr 0 (n - 1) le_rfl (Int.sub_one_lt_of_le le_rfl) address
        omega
      if address < t.addr ⟨idx.toNat, hidx⟩ + t.size ⟨idx.toNat, hidx⟩ then -EAGAIN
      else stackCheckEntries t entries

/-- `stack_check_fn`. -/
def stackCheckFn (T : StackTables n) (entries : List ℕ) (install : Bool) : ℤ :=
  stackCheckEntries (if install then T.vm else T.mod) entries

/-- In a sorted table without overlaps one search decides about all functions. -/
theorem stackCheckEntries_eq_zero_iff {t : FuncTable n} (hsort : StrictMono t.addr)
    (hdisj : ∀ i j, i ≠ j → t.addr i + t.size i ≤ t.addr j ∨ t.addr j + t.size j ≤ t.addr i)
    (entries : List ℕ) :
    stackCheckEntries t entries = 0 ↔
      ∀ a ∈ entries, ¬ ∃ i, t.addr i ≤ a ∧ a < t.addr i + t.size i := by
  induction entries with
  | nil => simp [stackCheckEntries]
  | cons a entries ih =>
    have hspec := bsearch_spec t.addr hsort a
    have hbounds := bsearch_bounds t.addr 0 (n - 1) le_rfl (by omega) a
    rw [stackCheckEntries, List.forall_mem_cons, ← ih]
    dsimp only
    split
    · next hidx =>
      -- every function begins above the address
      refine (and_iff_right ?_).symm
      rintro ⟨i, hle, -⟩
      have hi := (hspec i).mp hle
      rw [hidx] at hi
      omega
    · next hidx =>
      set idx := bsearch t.addr 0 (n - 1) le_rfl (by omega) a with hdef
      have hfound : t.addr ⟨idx.toNat, by omega⟩ ≤ a := by
        refine (hspec _).mpr ?_
        dsimp only
        omega
      split
      · next hin =>
        refine iff_of_false (by simp [EAGAIN]) fun hno => hno.1 ⟨_, hfound, hin⟩
      · next hout =>
        refine (and_iff_right ?_).symm
        rintro ⟨i, hle, hlt⟩
        have hi := (hspec i).mp hle
        rcases eq_or_ne i ⟨idx.toNat, by omega⟩ with heq | hne
        · exact hout (heq ▸ hlt)
        · -- a function in front of the one found ends before that one begins
          have hfront : t.addr i < t.addr ⟨idx.toNat, by omega⟩ := by
            refine hsort (lt_of_le_of_ne ?_ hne)
            rw [Fin.le_def]
            dsimp only
            omega
          rcases hdisj i _ hne with hend | hend <;> omega

theorem FuncSet.exists_sorted_eq (f : FuncSet n) (schedule : Fin n) :
    ∃ σ : Equiv.Perm (Fin n), (f.sorted schedule).addr = f.addr ∘ σ ∧
      (f.sorted schedule).size = Function.update f.size schedule 0 ∘ σ := by
  obtain ⟨σ, hσ⟩ := addrSort_perm { addr := f.addr, size := Function.update f.size schedule 0 }
  exact ⟨σ, congrArg FuncTable.addr hσ, congrArg FuncTable.size hσ⟩

theorem FuncSet.sorted_strictMono (f : FuncSet n) (schedule : Fin n) :
    StrictMono (f.sorted schedule).addr := by
  obtain ⟨σ, haddr, -⟩ := f.exists_sorted_eq schedule
  refine Monotone.strictMono_of_injective (addrSort_sorted _) ?_
  rw [haddr]
  exact f.inj.comp σ.injective

/-- The sorted table has the same extents, that of `__schedule` apart. -/
theorem FuncSet.exists_sorted_iff (f : FuncSet n) (schedule : Fin n) (a : ℕ) :
    (∃ i, (f.sorted schedule).addr i ≤ a ∧
        a < (f.sorted schedule).addr i + (f.sorted schedule).size i) ↔
      ∃ i, i ≠ schedule ∧ f.addr i ≤ a ∧ a < f.addr i + f.size i := by
  obtain ⟨σ, haddr, hsize⟩ := f.exists_sorted_eq schedule
  rw [haddr, hsize]
  constructor
  · rintro ⟨i, hle, hlt⟩
    dsimp only [Function.comp_apply] at hle hlt
    have hne : σ i ≠ schedule := by
      intro heq
      rw [heq, Function.update_self, Nat.add_zero] at hlt
      rw [heq] at hle
      exact absurd hlt (not_lt.mpr hle)
    rw [Function.update_of_ne hne] at hlt
    exact ⟨σ i, hne, hle, hlt⟩
  · rintro ⟨i, hne, hle, hlt⟩
    refine ⟨σ.symm i, ?_, ?_⟩
    · simpa using hle
    · simpa [Function.update_of_ne hne] using hlt

theorem FuncSet.sorted_disjoint (f : FuncSet n) (schedule : Fin n) (i j : Fin n) (hij : i ≠ j) :
    (f.sorted schedule).addr i + (f.sorted schedule).size i ≤ (f.sorted schedule).addr j ∨
      (f.sorted schedule).addr j + (f.sorted schedule).size j ≤ (f.sorted schedule).addr i := by
  obtain ⟨σ, haddr, hsize⟩ := f.exists_sorted_eq schedule
  rw [haddr, hsize]
  have hle : ∀ k, Function.update f.size schedule 0 k ≤ f.size k := by
    intro k
    rw [Function.update_apply]
    split
    · exact Nat.zero_le _
    · exact le_rfl
  have hi := hle (σ i)
  have hj := hle (σ j)
  dsimp only [Function.comp_apply]
  rcases f.disjoint (σ i) (σ j) (σ.injective.ne hij) with h | h
  · left
    omega
  · right
    omega

/-- After `stack_check_init` the check agrees with a scan of every entry against
every function. -/
theorem stackCheckFn_eq_zero_iff (F : SchedFns n) (entries : List ℕ) (install : Bool) :
    stackCheckFn (stackCheckInit F) entries install = 0 ↔
      ∀ a ∈ entries, ¬ F.InRedirected install a := by
  have htable : (if install then (stackCheckInit F).vm else (stackCheckInit F).mod) =
      (F.side install).sorted F.schedule := by
    cases install <;> rfl
  rw [stackCheckFn, htable, stackCheckEntries_eq_zero_iff (FuncSet.sorted_strictMono _ _)
    (FuncSet.sorted_disjoint _ _)]
  exact forall₂_congr fun a _ => not_congr (FuncSet.exists_sorted_iff _ _ _)

/-- The plain scan of every entry against every function other than `__schedule`. -/
def stackScan (F : SchedFns n) (entries : List ℕ) (install : Bool) : ℤ :=
  if ∃ a ∈ entries, F.InRedirected install a then -EAGAIN else 0

theorem stackCheckEntries_eq_or (t : FuncTable n) (entries : List ℕ) :
    stackCheckEntries t entries = 0 ∨ stackCheckEntries t entries = -EAGAIN := by
  induction entries with
  | nil => exact .inl rfl
  | cons a entries ih =>
    rw [stackCheckEntries]
    dsimp only
    split
    · exact ih
    · split
      · exact .inr rfl
      · exact ih

/-- **The stack check is a scan.**  `stack_check_fn` fails exactly if some entry lies
inside a redirected function other than `__schedule`, and returns what the plain
scan would. -/
theorem stackCheckFn_eq_scan (F : SchedFns n) (entries : List ℕ) (install : Bool) :
    (stackCheckFn (stackCheckInit F) entries install ≠ 0 ↔
        ∃ a ∈ entries, F.InRedirected install a) ∧
      stackCheckFn (stackCheckInit F) entries install = stackScan F entries install := by
  have hzero := stackCheckFn_eq_zero_iff F entries install
  have hiff : stackCheckFn (stackCheckInit F) entries install ≠ 0 ↔
      ∃ a ∈ entries, F.InRedirected install a := by
    rw [ne_eq, hzero]
    push Not
    exact Iff.rfl
  refine ⟨hiff, ?_⟩
  rw [stackScan]
  split
  · next hin =>
    rcases stackCheckEntries_eq_or
      (if install then (stackCheckInit F).vm else (stackCheckInit F).mod) entries with h | h
    · exact absurd h (hiff.mpr hin)
    · exact h
  · next hout =>
    by_contra hne
    exact hout (hiff.mp hne)

/-! ### The trace of a task -/

/-- `struct stacktrace_cookie`; `store` holds the `len` entries written so far. -/
structure StacktraceCookie where
  store : List ℕ
  size : ℕ
  skip : ℕ

/-- `stack_trace_consume_entry`. -/
def stackTraceConsumeEntry (c : StacktraceCookie) (addr : ℕ) : Bool × StacktraceCookie :=
  if c.store.length ≥ c.size then (false, c)
  else if c.skip > 0 then (true, { c with skip := c.skip - 1 })
  else
    let c := { c with store := c.store ++ [addr] }
    (c.store.length < c.size, c)

/-- The addresses are passed to a consumer, in order, until it declines. -/
def deliver {σ : Type*} (consume : σ → ℕ → Bool × σ) : List ℕ → σ → σ
  | [], c => c
  | addr :: rest, c =>
    if (consume c addr).1 then deliver consume rest (consume c addr).2 else (consume c addr).2

/-- What the kernel offers for stack traces: `try_get_task_stack`, and either
`arch_stack_walk` or `__save_stack_trace`.  `frames` is the whole trace of a task. -/
structure Unwinder (Task : Type*) where
  frames : Task → List ℕ
  tryGetTaskStack : Task → Bool
  archStackWalk :
    (StacktraceCookie → ℕ → Bool × StacktraceCookie) → StacktraceCookie → Task → StacktraceCookie
  saveStack : Task → ℕ → List ℕ

variable {Task : Type*}

/-- A task without a stack has no frames; `arch_stack_walk` passes one frame after the
other until the consumer declines; `__save_stack_trace` stores the first `max`
frames, and may end the trace with `ULONG_MAX`. -/
structure Unwinder.Documented (U : Unwinder Task) : Prop where
  noStack : ∀ t, U.tryGetTaskStack t = false → U.frames t = []
  walk : ∀ consume c t, U.archStackWalk consume c t = deliver consume (U.frames t) c
  save : ∀ t max, ∃ tail, U.saveStack t max = (U.frames t).take max ++ tail ∧
    ∀ a ∈ tail, a = ULONG_MAX

/-- `get_stack_trace`, with or without `CONFIG_ARCH_STACKWALK`. -/
def getStackTrace (archStackwalk : Bool) (U : Unwinder Task) (t : Task) (size : ℕ) : List ℕ :=
  if archStackwalk then
    if U.tryGetTaskStack t then
      (U.archStackWalk stackTraceConsumeEntry { store := [], size := size, skip := 0 } t).store
    else []
  else if U.tryGetTaskStack t then U.saveStack t MAX_STACK_ENTRIES
  else []

/-- `stack_check_task`. -/
def stackCheckTask (archStackwalk : Bool) (U : Unwinder Task) (T : StackTables n) (t : Task)
    (install : Bool) : ℤ :=
  stackCheckFn T (getStackTrace archStackwalk U t MAX_STACK_ENTRIES) install

/-- The consumer stores entries as long as there is room. -/
theorem deliver_consume (frames : List ℕ) (c : StacktraceCookie) (hskip : c.skip = 0)
    (hlen : c.store.length ≤ c.size) :
    (deliver stackTraceConsumeEntry frames c).store =
      c.store ++ frames.take (c.size - c.store.length) := by
  induction frames generalizing c with
  | nil => simp [deliver]
  | cons a frames ih =>
    rcases Nat.eq_or_lt_of_le hlen with hfull | hroom
    · simp [deliver, stackTraceConsumeEntry, hfull]
    · have hcons : stackTraceConsumeEntry c a =
          (decide (c.store.length + 1 < c.size), { c with store := c.store ++ [a] }) := by
        rw [stackTraceConsumeEntry, if_neg (not_le.mpr hroom), if_neg (by omega)]
        simp
      have htake : (a :: frames).take (c.size - c.store.length) =
          a :: frames.take (c.size - (c.store.length + 1)) := by
        rw [show c.size - c.store.length = c.size - (c.store.length + 1) + 1 by omega,
          List.take_succ_cons]
      rw [deliver, hcons, htake]
      dsimp only
      split
      · rw [ih { c with store := c.store ++ [a] } hskip (by
          rw [List.length_append]
          exact hroom)]
        simp
      · next hlast =>
        have : c.size - (c.store.length + 1) = 0 := by simp at hlast; omega
        simp [this]

/-- A trace is cut off after `MAX_STACK_ENTRIES` entries. -/
theorem exists_getStackTrace_eq {U : Unwinder Task} (hU : U.Documented) (archStackwalk : Bool)
    (t : Task) :
    ∃ tail, getStackTrace archStackwalk U t MAX_STACK_ENTRIES =
        (U.frames t).take MAX_STACK_ENTRIES ++ tail ∧ ∀ a ∈ tail, a = ULONG_MAX := by
  rw [getStackTrace]
  cases hstack : U.tryGetTaskStack t with
  | false =>
    refine ⟨[], ?_, by simp⟩
    rw [hU.noStack t hstack]
    cases archStackwalk <;> rfl
  | true =>
    cases archStackwalk with
    | true =>
      refine ⟨[], ?_, by simp⟩
      rw [if_pos rfl, if_pos rfl, hU.walk, deliver_consume _ _ rfl (Nat.zero_le _)]
      simp
    | false => simpa using hU.save t MAX_STACK_ENTRIES

/-- The end of the address space lies in no function. -/
theorem not_inRedirected_top (F : SchedFns n) (install : Bool) :
    ¬ F.InRedirected install ULONG_MAX := by
  rintro ⟨i, -, -, hlt⟩
  exact absurd ((F.side install).le_top i) (not_le.mpr hlt)

/-- What the check of a task looks at. -/
theorem stackCheckTask_eq_zero_iff (F : SchedFns n) {U : Unwinder Task} (hU : U.Documented)
    (archStackwalk : Bool) (t : Task) (install : Bool) :
    stackCheckTask archStackwalk U (stackCheckInit F) t install = 0 ↔
      ∀ a ∈ (U.frames t).take MAX_STACK_ENTRIES, ¬ F.InRedirected install a := by
  obtain ⟨tail, heq, htail⟩ := exists_getStackTrace_eq hU archStackwalk t
  rw [stackCheckTask, stackCheckFn_eq_zero_iff, heq]
  refine ⟨fun h a ha => h a (List.mem_append_left _ ha), fun h a ha => ?_⟩
  rcases List.mem_append.mp ha with ha | ha
  · exact h a ha
  · rw [htail a ha]
    exact not_inRedirected_top F install

/-- **Truncated traces.**  The check of a task is right, in the sense that it returns 0
only if no frame is inside a redirected function, exactly if one of the first
`MAX_STACK_ENTRIES` frames is inside such a function or none of the others is. -/
theorem stackCheckTask_safe_iff (F : SchedFns n) (U : Unwinder Task) (hU : U.Documented)
    (archStackwalk : Bool) (t : Task) (install : Bool) :
    (stackCheckTask archStackwalk U (stackCheckInit F) t install = 0 →
        ∀ a ∈ U.frames t, ¬ F.InRedirected install a) ↔
      (∃ a ∈ (U.frames t).take MAX_STACK_ENTRIES, F.InRedirected install a) ∨
        ∀ a ∈ (U.frames t).drop MAX_STACK_ENTRIES, ¬ F.InRedirected install a := by
  rw [stackCheckTask_eq_zero_iff F hU]
  have hall : (∀ a ∈ U.frames t, ¬ F.InRedirected install a) ↔
      (∀ a ∈ (U.frames t).take MAX_STACK_ENTRIES, ¬ F.InRedirected install a) ∧
        ∀ a ∈ (U.frames t).drop MAX_STACK_ENTRIES, ¬ F.InRedirected install a := by
    conv_lhs => rw [← List.take_append_drop MAX_STACK_ENTRIES (U.frames t)]
    exact List.forall_mem_append
  rw [hall]
  by_cases hhead : ∀ a ∈ (U.frames t).take MAX_STACK_ENTRIES, ¬ F.InRedirected install a
  · have hno : ¬ ∃ a ∈ (U.frames t).take MAX_STACK_ENTRIES, F.InRedirected install a := by
      rintro ⟨a, ha, hin⟩
      exact hhead a ha hin
    simp only [hno, false_or]
    exact ⟨fun h => (h hhead).2, fun h _ => ⟨hhead, h⟩⟩
  · refine iff_of_true (fun h => absurd h hhead) (.inl ?_)
    push Not at hhead
    exact hhead

/-- Two functions of the kernel, `__schedule` and another one, and their
replacements in the module. -/
def twoFns : SchedFns 2 where
  vm :=
    { addr := ![0x1000, 0x2000], size := ![0x100, 0x80]
      inj := by decide, disjoint := by decide, le_top := by decide }
  mod :=
    { addr := ![0x9000, 0x8000], size := ![0x100, 0x80]
      inj := by decide, disjoint := by decide, le_top := by decide }
  schedule := 0

/-- An unwinder for tasks that are given by their frames. -/
def listUnwinder : Unwinder (List ℕ) where
  frames := id
  tryGetTaskStack _ := true
  archStackWalk consume c t := deliver consume t c
  saveStack t max := t.take max ++ if t.length < max then [ULONG_MAX] else []

theorem listUnwinder_documented : listUnwinder.Documented where
  noStack _ h := by cases h
  walk _ _ _ := rfl
  save t max := ⟨_, rfl, fun a ha => by split at ha <;> simp_all⟩

/-- A short trace with a frame in the second function is not safe. -/
theorem stackCheckTask_safe_iff_shortTrace :
    stackCheckTask true listUnwinder (stackCheckInit twoFns) [0x500, 0x2010, 0x1010] true ≠ 0 := by
  intro hzero
  have h := (stackCheckTask_safe_iff twoFns listUnwinder listUnwinder_documented true
    [0x500, 0x2010, 0x1010] true).mpr (.inl ⟨0x2010, by decide, by decide⟩)
  exact h hzero 0x2010 (by decide) (by decide)

/-- A deep trace, whose last frame alone is in the second function. -/
def deepTrace : List ℕ := List.replicate 100 0x500 ++ [0x2010]

/-- The deep trace is declared safe. -/
theorem deepTrace_declared_safe :
    stackCheckTask true listUnwinder (stackCheckInit twoFns) deepTrace true = 0 ∧
      0x2010 ∈ listUnwinder.frames deepTrace ∧ twoFns.InRedirected true 0x2010 := by
  refine ⟨?_, List.mem_append_right _ List.mem_cons_self, by decide⟩
  refine (stackCheckTask_eq_zero_iff twoFns listUnwinder_documented true deepTrace true).mpr ?_
  intro a ha
  have htake : (listUnwinder.frames deepTrace).take MAX_STACK_ENTRIES = List.replicate 100 0x500 :=
    List.take_left' (List.length_replicate ..)
  rw [htake] at ha
  rw [List.eq_of_mem_replicate ha]
  decide

end Plugsched
