/-
`find_in_vmlinux`: what the symbol table of vmlinux says about the functions.

`readelf` prints one line per symbol; a line is given by its fields.  A `FILE`
row opens the section of a compilation unit, the local symbols of the unit
follow it, the global symbols come last.  The scan keeps the name of the last
unit and counts the local functions of each name.

* `Scan.Stepped` — what a row can do;
* `findInVmlinux_valid` — only collected functions are found, and only found
  functions have a symbol position;
* `findInVmlinux_numbered` — no two functions of a name have the same position.
-/
import Plugsched.ExceptRules
import Plugsched.Metadata

open ExceptRules

namespace Plugsched

/-- The ways in which `analyze.py` stops. -/
inductive Failure where
  | unboundLocal (variable_ : String)
  | keyError (key : String)
  | assertion (message : String)
  | recursion
  deriving DecidableEq

/-- The local variables of the loop over the symbol table. -/
structure Scan where
  filename : Option String := none
  localSympos : Signature → Option ℕ := fun _ => none
  exportFunc : Finset Signature := ∅
  mangled : Finset Signature := ∅
  inVmlinux : Finset Signature := ∅
  fnPos : String → ℕ := fun _ => 0

/-- The dictionary that `find_in_vmlinux` returns. -/
structure VmlinuxInfo where
  inVmlinux : Finset Signature
  mangled : Finset Signature
  localSympos : Signature → Option ℕ
  exportFunc : Finset Signature

/-- `get_in_any`: the first of the files that defines `fn`. -/
def getInAny (fns : Finset Signature) (fn : String) (files : List String) : Option String :=
  files.find? fun file => (fn, file) ∈ fns

/-- `key[:key.index('.')]`. -/
def beforeDot (key : String) : String := String.ofList (key.toList.takeWhile (· ≠ '.'))

/-- `key[len('__ksymtab_'):]`. -/
def afterKsymtab (key : String) : String :=
  String.ofList (key.toList.drop "__ksymtab_".length)

namespace Scan

/-- A `NOTYPE` row: `__ksymtab_` entries of module files export a function. -/
def notype (config : Config) (fns : Finset Signature) (st : Scan) (key : String) :
    Except Failure Scan :=
  if startsWith key "__ksymtab_" then
    match st.filename with
    | none => .error (.unboundLocal "filename")
    | some filename =>
      if filename ∈ config.modFiles then
        match getInAny fns (afterKsymtab key) config.modFiles with
        | some file =>
          if file = "" then .ok st
          else .ok { st with exportFunc := insert (afterKsymtab key, file) st.exportFunc }
        | none => .ok st
      else .ok st
  else .ok st

/-- `in_vmlinux.add((key, file))`. -/
def found (st : Scan) (key file : String) : Scan :=
  { st with inVmlinux := insert (key, file) st.inVmlinux }

/-- A `LOCAL` function of the unit `filename`. -/
def localFunc (config : Config) (fns : Finset Signature) (st : Scan) (filename key : String) :
    Scan :=
  let st := { st with fnPos := Function.update st.fnPos key (st.fnPos key + 1) }
  if filename ∉ config.allFiles then st
  else
    let file := if (key, filename) ∈ fns then some filename
      else getInAny fns key config.modHdrs
    match file with
    | none => st
    | some file =>
      { st.found key file with
        localSympos := Function.update st.localSympos (key, file) (some (st.fnPos key)) }

/-- A global or weak function. -/
def globalFunc (config : Config) (fns : Finset Signature) (st : Scan) (key : String) : Scan :=
  match getInAny fns key config.allFiles with
  | none => st
  | some file => st.found key file

/-- A `FUNC` row.  A name with a dot is a clone; `.cold` parts do not count. -/
def func (config : Config) (fns : Finset Signature) (st : Scan) (scope key : String) :
    Except Failure Scan :=
  match st.filename with
  | none => .error (.unboundLocal "filename")
  | some filename =>
    if '.' ∈ key.toList then
      if ".cold".toList <:+: key.toList then .ok st
      else .ok { st with mangled := insert (beforeDot key, filename) st.mangled }
    else if scope = "LOCAL" then .ok (st.localFunc config fns filename key)
    else .ok (st.globalFunc config fns key)

/-- One round of the loop. -/
def row (config : Config) (fns : Finset Signature) (st : Scan) (fields : List String) :
    Except Failure Scan :=
  match fields with
  | [_, _, _, symtype, scope, _, _, key] =>
    if symtype = "FILE" then
      .ok { st with filename := some ((config.fullname key).getD key) }
    else if symtype = "NOTYPE" then st.notype config fns key
    else if symtype = "FUNC" then st.func config fns scope key
    else .ok st
  | _ => .ok st

end Scan

/-- `find_in_vmlinux`, on the split lines of `readelf`. -/
def findInVmlinux (config : Config) (fns : Finset Signature) (lines : List (List String)) :
    Except Failure VmlinuxInfo := do
  let st ← (lines.drop 3).foldlM (Scan.row config fns) {}
  return { inVmlinux := st.inVmlinux
           mangled := st.mangled
           localSympos := st.localSympos
           exportFunc := st.exportFunc }

/-! ### What a row can do -/

theorem mem_of_getInAny {fns : Finset Signature} {fn : String} {files : List String}
    {file : String} (h : getInAny fns fn files = some file) : file ∈ files ∧ (fn, file) ∈ fns :=
  ⟨List.mem_of_find?_eq_some h, by simpa using List.find?_some h⟩

/-- A `NOTYPE` row exports a function at most. -/
theorem Scan.notype_cases {config : Config} {fns : Finset Signature} {st st' : Scan}
    {key : String} (hst : st.notype config fns key = .ok st') :
    st' = st ∨ ∃ sig ∈ fns, st' = { st with exportFunc := insert sig st.exportFunc } := by
  unfold Scan.notype at hst
  split at hst
  · split at hst
    · cases hst
    · split at hst
      · split at hst
        · next file hget =>
          split at hst <;> cases hst
          · exact .inl rfl
          · exact .inr ⟨_, (mem_of_getInAny hget).2, rfl⟩
        · cases hst
          exact .inl rfl
      · cases hst
        exact .inl rfl
  · cases hst
    exact .inl rfl

/-- A row opens a unit, records an export or a clone, counts a local function or finds
a global one, or does nothing. -/
inductive Scan.Stepped (config : Config) (fns : Finset Signature) (st : Scan) : Scan → Prop
  | same : Stepped config fns st st
  | file (filename : Option String) : Stepped config fns st { st with filename := filename }
  | exported (sig : Signature) (hsig : sig ∈ fns) :
    Stepped config fns st { st with exportFunc := insert sig st.exportFunc }
  | clone (sig : Signature) : Stepped config fns st { st with mangled := insert sig st.mangled }
  | localFunc (filename key : String) :
    Stepped config fns st (st.localFunc config fns filename key)
  | globalFunc (key : String) : Stepped config fns st (st.globalFunc config fns key)

namespace Scan.Stepped

variable {config : Config} {fns : Finset Signature} {st st' : Scan}

theorem func {scope key : String} (hst : st.func config fns scope key = .ok st') :
    Stepped config fns st st' := by
  unfold Scan.func at hst
  split at hst
  · cases hst
  · split at hst
    · split at hst <;> cases hst
      · exact .same
      · exact .clone _
    · split at hst <;> cases hst
      · exact .localFunc _ _
      · exact .globalFunc _

theorem row {fields : List String} (hst : Scan.row config fns st fields = .ok st') :
    Stepped config fns st st' := by
  unfold Scan.row at hst
  split at hst
  · split at hst
    · cases hst
      exact .file _
    · split at hst
      · rcases notype_cases hst with rfl | ⟨sig, hsig, rfl⟩
        · exact .same
        · exact .exported sig hsig
      · split at hst
        · exact .func hst
        · cases hst
          exact .same
  · cases hst
    exact .same

end Scan.Stepped

/-! ### Only collected functions are found -/

/-- What the loop keeps true of its variables. -/
structure Scan.Valid (fns : Finset Signature) (st : Scan) : Prop where
  found : st.inVmlinux ⊆ fns
  exported : st.exportFunc ⊆ fns
  sympos : ∀ sig, (st.localSympos sig).isSome → sig ∈ st.inVmlinux

namespace Scan.Valid

variable {config : Config} {fns : Finset Signature} {st st' : Scan}

theorem found_mem (h : st.Valid fns) {key file : String} (hmem : (key, file) ∈ fns) :
    (st.found key file).Valid fns :=
  ⟨Finset.insert_subset hmem h.found, h.exported, fun sig hsig =>
    Finset.mem_insert_of_mem (h.sympos sig hsig)⟩

theorem localFunc (h : st.Valid fns) (filename key : String) :
    (st.localFunc config fns filename key).Valid fns := by
  unfold Scan.localFunc
  dsimp only
  split
  · exact ⟨h.found, h.exported, h.sympos⟩
  · split
    · exact ⟨h.found, h.exported, h.sympos⟩
    · next file hfile =>
      have hmem : (key, file) ∈ fns := by
        split at hfile
        · next hin =>
          cases hfile
          exact hin
        · exact (mem_of_getInAny hfile).2
      have hfound := h.found_mem hmem
      refine ⟨hfound.found, hfound.exported, fun sig hsig => ?_⟩
      by_cases heq : sig = (key, file)
      · rw [heq]
        exact Finset.mem_insert_self _ _
      · simp only [Function.update_of_ne heq] at hsig
        exact hfound.sympos sig hsig

theorem globalFunc (h : st.Valid fns) (key : String) :
    (st.globalFunc config fns key).Valid fns := by
  unfold Scan.globalFunc
  split
  · exact h
  · next hget => exact h.found_mem (mem_of_getInAny hget).2

theorem row (h : st.Valid fns) {fields : List String}
    (hst : Scan.row config fns st fields = .ok st') : st'.Valid fns := by
  cases Scan.Stepped.row hst with
  | same => exact h
  | file filename => exact ⟨h.found, h.exported, h.sympos⟩
  | exported sig hsig => exact ⟨h.found, Finset.insert_subset hsig h.exported, h.sympos⟩
  | clone sig => exact ⟨h.found, h.exported, h.sympos⟩
  | localFunc filename key => exact h.localFunc filename key
  | globalFunc key => exact h.globalFunc key

theorem rows (h : st.Valid fns) {lines : List (List String)}
    (hst : lines.foldlM (Scan.row config fns) st = .ok st') : st'.Valid fns := by
  exact foldlM_invariant hst h fun fields _ st₁ st₂ hrow hvalid => hvalid.row hrow

end Scan.Valid

/-- Whatever the symbol table holds, only collected functions are found in
vmlinux or exported, and only found functions have a symbol position. -/
theorem findInVmlinux_valid {config : Config} {fns : Finset Signature}
    {lines : List (List String)} {info : VmlinuxInfo}
    (h : findInVmlinux config fns lines = .ok info) :
    info.inVmlinux ⊆ fns ∧ info.exportFunc ⊆ fns ∧
      ∀ sig, (info.localSympos sig).isSome → sig ∈ info.inVmlinux := by
  obtain ⟨st, hrows, hinfo⟩ := bind_eq_ok h
  cases hinfo
  have hinit : ({} : Scan).Valid fns :=
    ⟨Finset.empty_subset _, Finset.empty_subset _, fun _ hsig => by simp at hsig⟩
  have hst := hinit.rows hrows
  exact ⟨hst.found, hst.exported, hst.sympos⟩

/-! ### Positions are given out once -/

/-- Positions count from one, those given out are below the counter of their name,
and no two functions of a name share one. -/
structure Scan.Numbered (st : Scan) : Prop where
  pos : ∀ sig k, st.localSympos sig = some k → 0 < k
  le : ∀ sig k, st.localSympos sig = some k → k ≤ st.fnPos sig.1
  inj : ∀ sig sig' k, sig.1 = sig'.1 → st.localSympos sig = some k →
    st.localSympos sig' = some k → sig = sig'

namespace Scan

variable {config : Config} {fns : Finset Signature} {st st' : Scan}

/-- The counter of a name goes up. -/
theorem Numbered.count (h : st.Numbered) (key : String) :
    { st with fnPos := Function.update st.fnPos key (st.fnPos key + 1) }.Numbered where
  pos := h.pos
  le sig k hk := by
    have hle := h.le sig k hk
    dsimp only
    by_cases hname : sig.1 = key
    · subst hname
      rw [Function.update_self]
      exact Nat.le_succ_of_le hle
    · rwa [Function.update_of_ne hname]
  inj := h.inj

/-- The new value of the counter is given to a function of the name. -/
theorem Numbered.give (h : st.Numbered) (key file : String) :
    { st with
      fnPos := Function.update st.fnPos key (st.fnPos key + 1)
      localSympos := Function.update st.localSympos (key, file)
        (some (st.fnPos key + 1)) }.Numbered := by
  have hcases : ∀ sig k, Function.update st.localSympos (key, file)
      (some (st.fnPos key + 1)) sig = some k →
        sig = (key, file) ∧ k = st.fnPos key + 1 ∨ st.localSympos sig = some k := by
    intro sig k hk
    rw [Function.update_apply] at hk
    split at hk
    · next heq => exact .inl ⟨heq, (Option.some.inj hk).symm⟩
    · exact .inr hk
  constructor
  · intro sig k hk
    rcases hcases sig k hk with ⟨-, rfl⟩ | hold
    · exact Nat.succ_pos _
    · exact h.pos sig k hold
  · intro sig k hk
    rcases hcases sig k hk with ⟨rfl, rfl⟩ | hold
    · dsimp only
      rw [Function.update_self]
    · exact (h.count key).le sig k hold
  · intro sig sig' k hname hk hk'
    rcases hcases sig k hk with ⟨rfl, hnew⟩ | hold <;>
      rcases hcases sig' k hk' with ⟨rfl, hnew'⟩ | hold'
    · rfl
    · -- the positions given out so far are smaller
      have hle := h.le sig' k hold'
      rw [← hname] at hle
      dsimp only at hle
      omega
    · have hle := h.le sig k hold
      rw [hname] at hle
      dsimp only at hle
      omega
    · exact h.inj sig sig' k hname hold hold'

theorem Numbered.localFunc (h : st.Numbered) (filename key : String) :
    (st.localFunc config fns filename key).Numbered := by
  unfold Scan.localFunc
  dsimp only
  split
  · exact h.count key
  · split
    · exact h.count key
    · next file _ =>
      rw [Function.update_self]
      exact ⟨(h.give key file).pos, (h.give key file).le, (h.give key file).inj⟩

theorem Numbered.globalFunc (h : st.Numbered) (key : String) :
    (st.globalFunc config fns key).Numbered := by
  unfold Scan.globalFunc
  split <;> exact ⟨h.pos, h.le, h.inj⟩

theorem Numbered.row (h : st.Numbered) {fields : List String}
    (hst : Scan.row config fns st fields = .ok st') : st'.Numbered := by
  cases Stepped.row hst with
  | same => exact h
  | file filename => exact ⟨h.pos, h.le, h.inj⟩
  | exported sig _ => exact ⟨h.pos, h.le, h.inj⟩
  | clone sig => exact ⟨h.pos, h.le, h.inj⟩
  | localFunc filename key => exact h.localFunc filename key
  | globalFunc key => exact h.globalFunc key

end Scan

/-- A symbol position is at least one, and no two functions of a name have the same. -/
theorem findInVmlinux_numbered {config : Config} {fns : Finset Signature}
    {lines : List (List String)} {info : VmlinuxInfo}
    (h : findInVmlinux config fns lines = .ok info) :
    (∀ sig k, info.localSympos sig = some k → 0 < k) ∧
      ∀ sig sig' k, sig.1 = sig'.1 → info.localSympos sig = some k →
        info.localSympos sig' = some k → sig = sig' := by
  obtain ⟨st, hrows, hinfo⟩ := bind_eq_ok h
  cases hinfo
  have hinit : ({} : Scan).Numbered := by constructor <;> simp
  have hst : st.Numbered :=
    foldlM_invariant hrows hinit fun fields _ st₁ st₂ hrow hnumbered => hnumbered.row hrow
  exact ⟨hst.pos, hst.inj⟩

end Plugsched
