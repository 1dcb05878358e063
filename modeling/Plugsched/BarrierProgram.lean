/-
Barrier programs: processes that meet on counters and vote through one error
word.

Every process of a finite set runs the same list of instructions.  Phases are
pieces of code with a beginning and an end; a *check* is a phase with a result,
which is compare-and-swapped into the shared error word when it is not zero;
`dec` and `wait` work on shared counters; `abort ks` reads the error word and,
when it is set, leaves the program after decrementing the counters `ks`.  Each
step of a process is atomic and the processes interleave freely.

* `step` — the executable step of one process;
* `step_moved` — its inversion, one case of `Moved` for each kind of step;
* `exec_run` — executing a schedule gives a run.
-/
import Mathlib.Algebra.BigOperators.Group.Finset.Basic
import Mathlib.Algebra.BigOperators.Group.Finset.Piecewise
import Mathlib.Algebra.Order.BigOperators.Group.Finset
import Mathlib.Data.Int.Basic
import Mathlib.Tactic.Linarith
import Plugsched.Runs

open Runs

namespace BarrierProgram

variable {ι κ φ : Type*}

/-- One instruction.  The flag of `phase` and `check` says that only the first
process runs the code, as under `if (is_first())`. -/
inductive Instr (κ φ : Type*) where
  | phase (first : Bool) (ph : φ)
  | check (first : Bool) (ph : φ)
  | dec (k : κ)
  | wait (k : κ)
  | abort (ks : List κ)
  deriving DecidableEq

/-- Where a process is: at instruction `i` (inside its code or not), about to
swap the error `e` before it goes on at `i`, or leaving the program with `e`
from the `abort` at `i`, still to decrement `ks`. -/
inductive Pc (κ : Type*) where
  | run (i : ℕ) (inside : Bool)
  | swap (i : ℕ) (e : ℤ)
  | leave (i : ℕ) (e : ℤ) (ks : List κ)
  deriving DecidableEq

structure State (ι κ : Type*) where
  pc : ι → Pc κ
  counter : κ → ℤ
  error : ℤ

/-- Beginning and end of a phase, as the trace records them. -/
inductive Event (ι φ : Type*) where
  | start (c : ι) (ph : φ)
  | finish (c : ι) (ph : φ)
  deriving DecidableEq

/-- The processes, which of them are first, their common program, and the
result each check has on each process. -/
structure System (ι κ φ : Type*) where
  procs : Finset ι
  first : ι → Bool
  prog : List (Instr κ φ)
  outcome : φ → ι → ℤ

/-- The code an instruction runs, with its flag. -/
def Instr.code : Instr κ φ → Option (Bool × φ)
  | .phase f ph => some (f, ph)
  | .check f ph => some (f, ph)
  | _ => none

/-- The counter an instruction decrements. -/
def Instr.decs : Instr κ φ → Option κ
  | .dec k => some k
  | _ => none

/-- The counters a piece of program decrements when it is run to its end. -/
def decs (l : List (Instr κ φ)) : List κ := l.filterMap Instr.decs

def Pc.idx : Pc κ → ℕ
  | .run i _ => i
  | .swap i _ => i
  | .leave i _ _ => i

/-- The number of instructions whose code the process has begun. -/
def Pc.begun : Pc κ → ℕ
  | .run i true => i + 1
  | .run i false => i
  | .swap i _ => i
  | .leave i _ _ => i

section Semantics

variable [DecidableEq ι] [DecidableEq κ]

def State.goto (s : State ι κ) (c : ι) (p : Pc κ) : State ι κ :=
  { s with pc := Function.update s.pc c p }

def State.decr (s : State ι κ) (k : κ) : State ι κ :=
  { s with counter := Function.update s.counter k (s.counter k - 1) }

/-- Every counter starts at the number of processes, the error word at 0. -/
def System.init (S : System ι κ φ) : State ι κ :=
  { pc := fun _ => .run 0 false, counter := fun _ => S.procs.card, error := 0 }

/-- One atomic step of process `c`; `none` when it waits or has returned. -/
def step (S : System ι κ φ) (c : ι) (s : State ι κ) :
    Option (Option (Event ι φ) × State ι κ) :=
  match s.pc c with
  | .run i inside =>
    match S.prog[i]? with
    | none => none
    | some (.phase f ph) =>
      if f && !S.first c then some (none, s.goto c (.run (i + 1) false))
      else if inside then some (some (.finish c ph), s.goto c (.run (i + 1) false))
      else some (some (.start c ph), s.goto c (.run i true))
    | some (.check f ph) =>
      if f && !S.first c then some (none, s.goto c (.run (i + 1) false))
      else if inside then
        if S.outcome ph c = 0 then
          some (some (.finish c ph), s.goto c (.run (i + 1) false))
        else some (some (.finish c ph), s.goto c (.swap (i + 1) (S.outcome ph c)))
      else some (some (.start c ph), s.goto c (.run i true))
    | some (.dec k) => some (none, (s.decr k).goto c (.run (i + 1) false))
    | some (.wait k) =>
      if s.counter k = 0 then some (none, s.goto c (.run (i + 1) false)) else none
    | some (.abort ks) =>
      if s.error = 0 then some (none, s.goto c (.run (i + 1) false))
      else some (none, s.goto c (.leave i s.error ks))
  | .swap i e =>
    some (none, { s with error := if s.error = 0 then e else s.error }.goto c (.run i false))
  | .leave _ _ [] => none
  | .leave i e (k :: ks) => some (none, (s.decr k).goto c (.leave i e ks))

/-- A step of the system is a step of one of its processes. -/
def next (S : System ι κ φ) (s : State ι κ) (e : Option (Event ι φ)) (s' : State ι κ) :
    Prop :=
  ∃ c ∈ S.procs, step S c s = some (e, s')

/-- The value a process returned, once it has. -/
def returned (S : System ι κ φ) (s : State ι κ) (c : ι) : Option ℤ :=
  match s.pc c with
  | .run i _ => if S.prog.length ≤ i then some 0 else none
  | .swap _ _ => none
  | .leave _ e [] => some e
  | .leave _ _ (_ :: _) => none

/-- Everything one step of process `c` can do. -/
inductive Moved (S : System ι κ φ) (c : ι) (s : State ι κ) :
    Option (Event ι φ) → State ι κ → Prop
  /-- Code of the first process, passed by another one. -/
  | skip {i : ℕ} {b : Bool} {ins : Instr κ φ} {ph : φ} (hpc : s.pc c = .run i b)
      (hi : S.prog[i]? = some ins) (hcode : ins.code = some (true, ph))
      (hfirst : S.first c = false) : Moved S c s none (s.goto c (.run (i + 1) false))
  | start {i : ℕ} {ins : Instr κ φ} {f : Bool} {ph : φ} (hpc : s.pc c = .run i false)
      (hi : S.prog[i]? = some ins) (hcode : ins.code = some (f, ph))
      (hfirst : f = true → S.first c = true) :
      Moved S c s (some (.start c ph)) (s.goto c (.run i true))
  | finish {i : ℕ} {ins : Instr κ φ} {f : Bool} {ph : φ} (hpc : s.pc c = .run i true)
      (hi : S.prog[i]? = some ins) (hcode : ins.code = some (f, ph))
      (hfirst : f = true → S.first c = true)
      (hok : ins = .check f ph → S.outcome ph c = 0) :
      Moved S c s (some (.finish c ph)) (s.goto c (.run (i + 1) false))
  | fail {i : ℕ} {f : Bool} {ph : φ} (hpc : s.pc c = .run i true)
      (hi : S.prog[i]? = some (.check f ph)) (hfirst : f = true → S.first c = true)
      (hfail : S.outcome ph c ≠ 0) :
      Moved S c s (some (.finish c ph)) (s.goto c (.swap (i + 1) (S.outcome ph c)))
  | swap {i : ℕ} {e : ℤ} (hpc : s.pc c = .swap i e) :
      Moved S c s none
        ({ s with error := if s.error = 0 then e else s.error }.goto c (.run i false))
  | dec {i : ℕ} {b : Bool} {k : κ} (hpc : s.pc c = .run i b)
      (hi : S.prog[i]? = some (.dec k)) :
      Moved S c s none ((s.decr k).goto c (.run (i + 1) false))
  | pass {i : ℕ} {b : Bool} {k : κ} (hpc : s.pc c = .run i b)
      (hi : S.prog[i]? = some (.wait k)) (hk : s.counter k = 0) :
      Moved S c s none (s.goto c (.run (i + 1) false))
  | go {i : ℕ} {b : Bool} {ks : List κ} (hpc : s.pc c = .run i b)
      (hi : S.prog[i]? = some (.abort ks)) (he : s.error = 0) :
      Moved S c s none (s.goto c (.run (i + 1) false))
  | abort {i : ℕ} {b : Bool} {ks : List κ} (hpc : s.pc c = .run i b)
      (hi : S.prog[i]? = some (.abort ks)) (he : s.error ≠ 0) :
      Moved S c s none (s.goto c (.leave i s.error ks))
  | drain {i : ℕ} {e : ℤ} {k : κ} {ks : List κ} (hpc : s.pc c = .leave i e (k :: ks)) :
      Moved S c s none ((s.decr k).goto c (.leave i e ks))

theorem step_moved {S : System ι κ φ} {c : ι} {s s' : State ι κ} {e : Option (Event ι φ)}
    (h : step S c s = some (e, s')) : Moved S c s e s' := by
  unfold step at h
  split at h
  · rename_i i inside hpc
    split at h
    · cases h
    · rename_i f ph hi
      split at h
      · rename_i hf
        cases h
        simp only [Bool.and_eq_true, Bool.not_eq_true'] at hf
        obtain ⟨rfl, hfirst⟩ := hf
        exact .skip hpc hi rfl hfirst
      · rename_i hf
        have hfirst : f = true → S.first c = true := by
          intro hft
          simpa [hft] using hf
        split at h
        · rename_i hin
          cases h
          subst hin
          exact .finish hpc hi rfl hfirst (by simp)
        · rename_i hin
          cases h
          rw [Bool.not_eq_true] at hin
          subst hin
          exact .start hpc hi rfl hfirst
    · rename_i f ph hi
      split at h
      · rename_i hf
        cases h
        simp only [Bool.and_eq_true, Bool.not_eq_true'] at hf
        obtain ⟨rfl, hfirst⟩ := hf
        exact .skip hpc hi rfl hfirst
      · rename_i hf
        have hfirst : f = true → S.first c = true := by
          intro hft
          simpa [hft] using hf
        split at h
        · rename_i hin
          subst hin
          split at h
          · rename_i hout
            cases h
            exact .finish hpc hi rfl hfirst (fun _ => hout)
          · rename_i hout
            cases h
            exact .fail hpc hi hfirst hout
        · rename_i hin
          cases h
          rw [Bool.not_eq_true] at hin
          subst hin
          exact .start hpc hi rfl hfirst
    · rename_i k hi
      cases h
      exact .dec hpc hi
    · rename_i k hi
      split at h
      · rename_i hk
        cases h
        exact .pass hpc hi hk
      · cases h
    · rename_i ks hi
      split at h
      · rename_i he
        cases h
        exact .go hpc hi he
      · rename_i he
        cases h
        exact .abort hpc hi he
  · rename_i i e' hpc
    cases h
    exact .swap hpc
  · cases h
  · rename_i i e' k ks hpc
    cases h
    exact .drain hpc

/-- Run the processes in the order of a schedule, from the initial state.  A
process that cannot step loses its turn. -/
def exec (S : System ι κ φ) :
    List ι → List (Event ι φ) × State ι κ → List (Event ι φ) × State ι κ :=
  execSchedule (step S)

theorem exec_run {S : System ι κ φ} {s₀ : State ι κ} {cs : List ι} {tr : List (Event ι φ)}
    {s : State ι κ} (hcs : ∀ c ∈ cs, c ∈ S.procs) (h : Run (next S) s₀ tr s) :
    Run (next S) s₀ (exec S cs (tr, s)).1 (exec S cs (tr, s)).2 :=
  execSchedule_run (fun c hc _ _ _ hstep => ⟨c, hcs c hc, hstep⟩) h

end Semantics

end BarrierProgram
