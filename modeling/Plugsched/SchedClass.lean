/-
The five `sched_class` tables of the kernel and their replacement in place.

`switch_sched_class(true)` saves the contents of each table and overwrites it
with those of the module, `switch_sched_class(false)` writes the saved contents
back.  Write protection is left out.

* `switchSchedClass_true`, `switchSchedClass_false` — what the loops do;
* `switchSchedClass_restore` — the second undoes the first.
-/
import Mathlib.Algebra.GroupWithZero.Nat
import Mathlib.Data.Fintype.Fin
import Mathlib.Tactic.FinCases

namespace Plugsched

/-- `NR_SCHED_CLASS`, in the order of `orig_class`: stop, deadline, rt, fair, idle. -/
abbrev NR_SCHED_CLASS : ℕ := 5

instance : NeZero NR_SCHED_CLASS := ⟨by decide⟩

/-- The contents behind `orig_class` and in `bak_class`. -/
@[ext]
structure ClassTables (T : Type*) where
  orig : Fin NR_SCHED_CLASS → T
  bak : Fin NR_SCHED_CLASS → T

variable {T : Type*}

/-- The loop body of `switch_sched_class`. -/
def switchOne (modClass : Fin NR_SCHED_CLASS → T) (mod : Bool) (t : ClassTables T)
    (i : Fin NR_SCHED_CLASS) : ClassTables T :=
  if mod then
    { orig := Function.update t.orig i (modClass i)
      bak := Function.update t.bak i (t.orig i) }
  else { t with orig := Function.update t.orig i (t.bak i) }

/-- `switch_sched_class`. -/
def switchSchedClass (modClass : Fin NR_SCHED_CLASS → T) (mod : Bool) (t : ClassTables T) :
    ClassTables T :=
  (List.finRange NR_SCHED_CLASS).foldl (switchOne modClass mod) t

theorem switchSchedClass_true (modClass : Fin NR_SCHED_CLASS → T) (t : ClassTables T) :
    switchSchedClass modClass true t = { orig := modClass, bak := t.orig } := by
  refine ClassTables.ext (funext fun i => ?_) (funext fun i => ?_)
  · fin_cases i <;> rfl
  · fin_cases i <;> rfl

theorem switchSchedClass_false (modClass : Fin NR_SCHED_CLASS → T) (t : ClassTables T) :
    switchSchedClass modClass false t = { orig := t.bak, bak := t.bak } := by
  refine ClassTables.ext (funext fun i => ?_) rfl
  fin_cases i <;> rfl

/-- Switching back gives the old contents, whatever `bak_class` held before. -/
theorem switchSchedClass_restore (modClass : Fin NR_SCHED_CLASS → T) (t : ClassTables T) :
    (switchSchedClass modClass false (switchSchedClass modClass true t)).orig = t.orig := by
  rw [switchSchedClass_true, switchSchedClass_false]

end Plugsched
