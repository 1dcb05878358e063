/-
The symbol table of vmlinux symbol by symbol, and what `find_in_vmlinux` makes
of it.

The rows of `readelf` are printed from symbols.  A local function belongs to
the unit whose `FILE` symbol stands last before it; the scan maps this name to
a file of the configuration.

* `row_step` — what the scan of one symbol does to a signature `(n, f)`;
* `rows_step` — the same for a table;
* `localSympos_eq`, `mem_inVmlinux_iff` — so the position of `(n, f)` is that of
  the last local function `n` in a unit taken for `f`, among all of this name.
-/
import Plugsched.ListRank
import Plugsched.Vmlinux

open ExceptRules ListRank

namespace Plugsched

/-! ### Symbols -/

inductive SymType where
  | file | func | object | notype | sect
  deriving DecidableEq

inductive Scope where
  | loc | global | weak
  deriving DecidableEq

/-- The column `Type` of `readelf`. -/
def SymType.text : SymType → String
  | .file => "FILE"
  | .func => "FUNC"
  | .object => "OBJECT"
  | .notype => "NOTYPE"
  | .sect => "SECTION"

/-- The column `Bind`. -/
def Scope.text : Scope → String
  | .loc => "LOCAL"
  | .global => "GLOBAL"
  | .weak => "WEAK"

/-- A symbol with the columns of `readelf`; `origin` is the file of the definition that
a function is compiled from, which no table shows. -/
structure Sym where
  num : String
  addr : ℕ
  size : String
  symtype : SymType
  scope : Scope
  vis : String
  ndx : String
  name : String
  origin : String
  deriving DecidableEq

namespace Sym

/-- The fields of the row. -/
def row (s : Sym) : List String :=
  [s.num, String.ofList (Nat.toDigits 16 s.addr), s.size, s.symtype.text, s.scope.text, s.vis,
    s.ndx,
    s.name]

/-- A function of this name; clones, which have a dot in their name, do not count. -/
def isFunc (n : String) (s : Sym) : Bool :=
  s.symtype = .func ∧ '.' ∉ n.toList ∧ s.name = n

def isLocalFunc (n : String) (s : Sym) : Bool := s.isFunc n && s.scope = .loc

def isGlobalFunc (n : String) (s : Sym) : Bool := s.isFunc n && s.scope ≠ .loc

end Sym

/-- The `FILE` symbol of a unit. -/
def fileSym (path : String) : Sym where
  num := "1:"
  addr := 0
  size := "0"
  symtype := .file
  scope := .loc
  vis := "DEFAULT"
  ndx := "ABS"
  name := basename path
  origin := ""

/-- The symbol of a function. -/
def funcSym (scope : Scope) (name origin : String) (addr : ℕ) : Sym where
  num := "2:"
  addr := addr
  size := "16"
  symtype := .func
  scope := scope
  vis := "DEFAULT"
  ndx := "1"
  name := name
  origin := origin

/-- The lines of `readelf`, of which the first three are the heading. -/
def elfLines (table : List Sym) : List (List String) := [[], [], []] ++ table.map Sym.row

/-! ### Units -/

/-- The file that the scan takes for a unit with this base name. -/
def unitName (config : Config) (key : String) : String := (config.fullname key).getD key

/-- The unit in force after a symbol. -/
def nextUnit (config : Config) (unit : Option String) (s : Sym) : Option String :=
  if s.symtype = .file then some (unitName config s.name) else unit

/-- The local functions `n`, with the file taken for their unit. -/
def localFuncs (config : Config) (n : String) : Option String → List Sym →
    List (Option String × Sym)
  | _, [] => []
  | unit, s :: table =>
    let rest := localFuncs config n (nextUnit config unit s) table
    if s.isLocalFunc n then (unit, s) :: rest else rest

/-- The file under which a local function `n` of a unit is found. -/
def attributed (config : Config) (fns : Finset Signature) (n : String) (unit : Option String) :
    Option String :=
  unit.bind fun filename =>
    if filename ∉ config.allFiles then none
    else if (n, filename) ∈ fns then some filename
    else getInAny fns n config.modHdrs

/-- The local function is found under `sig`. -/
def hits (config : Config) (fns : Finset Signature) (sig : Signature)
    (x : Option String × Sym) : Bool :=
  attributed config fns sig.1 x.1 = some sig.2

theorem localFuncs_snd (config : Config) (n : String) (unit : Option String) (table : List Sym) :
    (localFuncs config n unit table).map Prod.snd = table.filter (Sym.isLocalFunc n) := by
  induction table generalizing unit with
  | nil => rfl
  | cons s table ih =>
    rw [localFuncs, List.filter_cons]
    split
    · rw [List.map_cons, ih]
    · exact ih _

theorem localFuncs_append (config : Config) (n : String) (unit : Option String)
    (table table' : List Sym) : localFuncs config n unit (table ++ table') =
      localFuncs config n unit table ++
        localFuncs config n (table.foldl (nextUnit config) unit) table' := by
  induction table generalizing unit with
  | nil => rfl
  | cons s table ih =>
    rw [List.cons_append, localFuncs, localFuncs, List.foldl_cons, ih]
    split
    · rfl
    · rfl

/-! ### The scan -/

/-- What a part of the table does to the variables of the scan, as far as `sig` is
concerned: `funcs` are the local functions with its name, `found` says that one of
the global functions is found under it. -/
structure Scan.Effect (config : Config) (fns : Finset Signature) (sig : Signature)
    (funcs : List (Option String × Sym)) (found : Prop) (st st' : Scan) : Prop where
  fnPos : st'.fnPos sig.1 = st.fnPos sig.1 + funcs.length
  sympos : st'.localSympos sig =
    ((lastPos (hits config fns sig) funcs).map (st.fnPos sig.1 + ·)).or (st.localSympos sig)
  inVmlinux : sig ∈ st'.inVmlinux ↔
    sig ∈ st.inVmlinux ∨ (∃ x ∈ funcs, hits config fns sig x = true) ∨ found

section Scan

variable {config : Config} {fns : Finset Signature} {sig : Signature} {st st' : Scan}

theorem Scan.Effect.refl (config : Config) (fns : Finset Signature) (sig : Signature) (st : Scan)
    {found : Prop} (h : ¬ found) : Scan.Effect config fns sig [] found st st where
  fnPos := rfl
  sympos := rfl
  inVmlinux := by simp [h]

/-- Variables that `sig` does not depend on. -/
theorem Scan.Effect.of_eq {found : Prop} (h : ¬ found) (hpos : st'.fnPos = st.fnPos)
    (hsympos : st'.localSympos = st.localSympos) (hin : st'.inVmlinux = st.inVmlinux) :
    Scan.Effect config fns sig [] found st st' where
  fnPos := by rw [hpos]; rfl
  sympos := by rw [hsympos]; rfl
  inVmlinux := by simp [hin, h]

theorem Scan.Effect.trans {funcs funcs' : List (Option String × Sym)} {found found' : Prop}
    {st'' : Scan} (h : Scan.Effect config fns sig funcs found st st')
    (h' : Scan.Effect config fns sig funcs' found' st' st'') :
    Scan.Effect config fns sig (funcs ++ funcs') (found ∨ found') st st'' where
  fnPos := by rw [h'.fnPos, h.fnPos, List.length_append, Nat.add_assoc]
  sympos := by
    rw [h'.sympos, h.sympos, h.fnPos, lastPos_append]
    cases lastPos (hits config fns sig) funcs' with
    | some k => simp [Nat.add_assoc]
    | none => simp
  inVmlinux := by
    rw [h'.inVmlinux, h.inVmlinux]
    simp only [List.mem_append, or_and_right, exists_or]
    rw [or_assoc, or_or_or_comm]

theorem Scan.Effect.notype {key : String} (hst : st.notype config fns key = .ok st') :
    Scan.Effect config fns sig [] False st st' ∧ st'.filename = st.filename := by
  rcases Scan.notype_cases hst with rfl | ⟨e, -, rfl⟩
  · exact ⟨.refl config fns sig _ not_false, rfl⟩
  · exact ⟨.of_eq not_false rfl rfl rfl, rfl⟩

theorem localFunc_eq (st : Scan) (filename key : String) :
    st.localFunc config fns filename key =
      match attributed config fns key (some filename) with
      | none => { st with fnPos := Function.update st.fnPos key (st.fnPos key + 1) }
      | some file =>
        { st.found key file with
          fnPos := Function.update st.fnPos key (st.fnPos key + 1)
          localSympos :=
            Function.update st.localSympos (key, file) (some (st.fnPos key + 1)) } := by
  simp only [Scan.localFunc, attributed, Option.bind_some, Function.update_self]
  split
  · rfl
  · cases (if (key, filename) ∈ fns then some filename else getInAny fns key config.modHdrs) <;> rfl

/-- The scan of a local function. -/
theorem Scan.Effect.localFunc (st : Scan) {filename : String} (s : Sym)
    (hunit : st.filename = some filename) :
    Scan.Effect config fns sig (if s.name = sig.1 then [(st.filename, s)] else []) False st
      (st.localFunc config fns filename s.name) := by
  obtain ⟨n, f⟩ := sig
  rw [localFunc_eq, ← hunit]
  by_cases hn : s.name = n
  · subst hn
    cases hattr : attributed config fns s.name st.filename with
    | none => constructor <;> simp [lastPos, hits, hattr]
    | some file =>
      by_cases hf : file = f
      · subst hf
        constructor <;> simp [lastPos, hits, hattr, Scan.found]
      · constructor <;> simp [lastPos, hits, hattr, Scan.found, hf, Ne.symm hf]
  · cases attributed config fns s.name st.filename with
    | none => constructor <;> simp [lastPos, hn, Ne.symm hn]
    | some file => constructor <;> simp [lastPos, Scan.found, hn, Ne.symm hn]

/-- The scan of a global function. -/
theorem Scan.Effect.globalFunc (st : Scan) (key : String) :
    Scan.Effect config fns sig []
      (key = sig.1 ∧ getInAny fns sig.1 config.allFiles = some sig.2) st
      (st.globalFunc config fns key) := by
  obtain ⟨n, f⟩ := sig
  cases hget : getInAny fns key config.allFiles with
  | none =>
    rw [Scan.globalFunc, hget]
    refine .refl config fns (n, f) st ?_
    rintro ⟨rfl, hsome⟩
    rw [hget] at hsome
    cases hsome
  | some file =>
    rw [Scan.globalFunc, hget]
    refine ⟨rfl, rfl, ?_⟩
    simp only [Scan.found, Finset.mem_insert, Prod.mk.injEq, List.not_mem_nil, false_and,
      exists_false, false_or]
    rw [or_comm]
    refine or_congr_right ⟨?_, ?_⟩
    · rintro ⟨rfl, rfl⟩
      exact ⟨rfl, hget⟩
    · rintro ⟨rfl, hsome⟩
      rw [hget] at hsome
      cases hsome
      exact ⟨rfl, rfl⟩

/-- `sig` is found through the global function. -/
def Sym.FoundAs (config : Config) (fns : Finset Signature) (sig : Signature) (s : Sym) : Prop :=
  s.isGlobalFunc sig.1 = true ∧ getInAny fns sig.1 config.allFiles = some sig.2

theorem Scan.Effect.func {s : Sym} (htype : s.symtype = .func)
    (hst : st.func config fns s.scope.text s.name = .ok st') :
    Scan.Effect config fns sig (if s.isLocalFunc sig.1 then [(st.filename, s)] else [])
      (s.FoundAs config fns sig) st st' ∧ st'.filename = st.filename := by
  unfold Scan.func at hst
  split at hst
  · cases hst
  · next filename hunit =>
    split at hst
    · next hdot =>
      -- a clone is no function of this name
      have hno : s.isFunc sig.1 = false := by
        rw [Sym.isFunc, decide_eq_false_iff_not]
        rintro ⟨-, hnodot, hname⟩
        rw [hname] at hdot
        exact hnodot hdot
      have hglobal : ¬ s.FoundAs config fns sig := by simp [Sym.FoundAs, Sym.isGlobalFunc, hno]
      rw [Sym.isLocalFunc, hno, Bool.false_and, if_neg Bool.false_ne_true]
      split at hst <;> cases hst
      · exact ⟨.refl config fns sig st hglobal, rfl⟩
      · exact ⟨.of_eq hglobal rfl rfl rfl, rfl⟩
    · next hdot =>
      have hfunc : s.isFunc sig.1 = true ↔ s.name = sig.1 := by
        rw [Sym.isFunc, decide_eq_true_iff]
        constructor
        · exact fun h => h.2.2
        · intro hname
          exact ⟨htype, hname ▸ hdot, hname⟩
      split at hst <;> cases hst
      · next hscope =>
        have hloc : s.scope = .loc := by
          revert hscope
          cases s.scope <;> decide
        have hiff : s.isLocalFunc sig.1 = true ↔ s.name = sig.1 := by
          simp [Sym.isLocalFunc, hloc, hfunc]
        have hglobal : False ↔ s.FoundAs config fns sig := by
          simp [Sym.FoundAs, Sym.isGlobalFunc, hloc]
        rw [if_congr hiff rfl rfl, ← propext hglobal]
        refine ⟨.localFunc st s hunit, ?_⟩
        rw [localFunc_eq]
        cases attributed config fns s.name (some filename) <;> rfl
      · next hscope =>
        have hnot : s.scope ≠ .loc := by
          rintro hloc
          rw [hloc] at hscope
          exact hscope rfl
        have hiff : s.FoundAs config fns sig ↔
            s.name = sig.1 ∧ getInAny fns sig.1 config.allFiles = some sig.2 := by
          simp [Sym.FoundAs, Sym.isGlobalFunc, hnot, hfunc]
        rw [Sym.isLocalFunc, decide_eq_false hnot, Bool.and_false, if_neg Bool.false_ne_true,
          propext hiff]
        refine ⟨.globalFunc st s.name, ?_⟩
        unfold Scan.globalFunc
        split <;> rfl

theorem row_eq (st : Scan) (s : Sym) : Scan.row config fns st s.row =
    match s.symtype with
    | .file => .ok { st with filename := some (unitName config s.name) }
    | .notype => st.notype config fns s.name
    | .func => st.func config fns s.scope.text s.name
    | _ => .ok st := by
  rw [Sym.row, Scan.row]
  cases s.symtype <;> rfl

/-- The scan of one symbol. -/
theorem row_step (sig : Signature) {s : Sym} (hst : Scan.row config fns st s.row = .ok st') :
    Scan.Effect config fns sig (if s.isLocalFunc sig.1 then [(st.filename, s)] else [])
      (s.FoundAs config fns sig) st st' ∧ st'.filename = nextUnit config st.filename s := by
  rw [row_eq] at hst
  by_cases hfunc : s.symtype = .func
  · rw [hfunc] at hst
    have hunit : nextUnit config st.filename s = st.filename := by simp [nextUnit, hfunc]
    rw [hunit]
    exact Scan.Effect.func hfunc hst
  · -- only functions count
    have hno : s.isFunc sig.1 = false := by simp [Sym.isFunc, hfunc]
    have hglobal : False ↔ s.FoundAs config fns sig := by
      simp [Sym.FoundAs, Sym.isGlobalFunc, hno]
    rw [Sym.isLocalFunc, hno, Bool.false_and, if_neg Bool.false_ne_true, ← propext hglobal,
      nextUnit]
    cases htype : s.symtype <;> rw [htype] at hst <;> dsimp only at hst
    case func => exact absurd htype hfunc
    case notype => exact Scan.Effect.notype hst
    case file =>
      cases hst
      exact ⟨.of_eq not_false rfl rfl rfl, rfl⟩
    all_goals
      cases hst
      exact ⟨.refl config fns sig st not_false, rfl⟩

/-- The scan of a table. -/
theorem rows_step {table : List Sym}
    (hst : (table.map Sym.row).foldlM (Scan.row config fns) st = .ok st') :
    Scan.Effect config fns sig (localFuncs config sig.1 st.filename table)
      (∃ s ∈ table, s.FoundAs config fns sig) st st' := by
  induction table generalizing st with
  | nil =>
    cases hst
    exact .refl config fns sig _ (by simp)
  | cons s table ih =>
    obtain ⟨st₁, hrow, hrest⟩ := foldlM_cons_ok hst
    obtain ⟨hstep, hunit⟩ := row_step sig hrow
    have heffect := hstep.trans (ih hrest)
    have hfuncs : localFuncs config sig.1 st.filename (s :: table) =
        (if s.isLocalFunc sig.1 then [(st.filename, s)] else []) ++
          localFuncs config sig.1 st₁.filename table := by
      rw [localFuncs, hunit]
      split <;> rfl
    have hfound : (∃ s' ∈ s :: table, s'.FoundAs config fns sig) ↔
        s.FoundAs config fns sig ∨ ∃ s' ∈ table, s'.FoundAs config fns sig := by
      simp [or_and_right, exists_or]
    rw [hfuncs, propext hfound]
    exact heffect

/-- Inside a unit no symbol stops the scan. -/
theorem row_ok (config : Config) (fns : Finset Signature) (s : Sym)
    (hunit : st.filename.isSome = true) :
    ∃ st', Scan.row config fns st s.row = .ok st' := by
  obtain ⟨filename, hfilename⟩ := Option.isSome_iff_exists.mp hunit
  rw [row_eq]
  cases s.symtype with
  | file => exact ⟨_, rfl⟩
  | notype =>
    simp only [Scan.notype, hfilename]
    repeat' split
    all_goals exact ⟨_, rfl⟩
  | func =>
    simp only [Scan.func, hfilename]
    repeat' split
    all_goals exact ⟨_, rfl⟩
  | object => exact ⟨st, rfl⟩
  | sect => exact ⟨st, rfl⟩

theorem rows_ok (config : Config) (fns : Finset Signature) (table : List Sym)
    (hunit : st.filename.isSome = true) :
    ∃ st', (table.map Sym.row).foldlM (Scan.row config fns) st = .ok st' := by
  induction table generalizing st with
  | nil => exact ⟨st, rfl⟩
  | cons s table ih =>
    obtain ⟨st₁, hrow⟩ := row_ok config fns s hunit
    have hunit₁ : st₁.filename.isSome = true := by
      rw [(row_step ("", "") hrow).2, nextUnit]
      split
      · rfl
      · exact hunit
    obtain ⟨st', hrows⟩ := ih hunit₁
    refine ⟨st', ?_⟩
    rw [List.map_cons, List.foldlM_cons, hrow]
    exact hrows

end Scan

/-! ### The result -/

section Result

variable {config : Config} {fns : Finset Signature} {sig : Signature} {table : List Sym}
  {info : VmlinuxInfo}

theorem findInVmlinux_effect (sig : Signature)
    (h : findInVmlinux config fns (elfLines table) = .ok info) :
    ∃ st, Scan.Effect config fns sig (localFuncs config sig.1 none table)
        (∃ s ∈ table, s.FoundAs config fns sig) {} st ∧
      st.inVmlinux = info.inVmlinux ∧ st.localSympos = info.localSympos := by
  have hdrop : (elfLines table).drop 3 = table.map Sym.row := rfl
  rw [findInVmlinux, hdrop] at h
  obtain ⟨st, hrows, hinfo⟩ := bind_eq_ok h
  cases hinfo
  exact ⟨st, rows_step hrows, rfl, rfl⟩

/-- **The symbol position.**  It is the place of the last local function that is found
under `sig` among all local functions of this name. -/
theorem localSympos_eq (h : findInVmlinux config fns (elfLines table) = .ok info) :
    info.localSympos sig =
      lastPos (hits config fns sig) (localFuncs config sig.1 none table) := by
  obtain ⟨st, heffect, -, hsympos⟩ := findInVmlinux_effect sig h
  rw [← hsympos, heffect.sympos]
  simp

theorem mem_inVmlinux_iff (h : findInVmlinux config fns (elfLines table) = .ok info) :
    sig ∈ info.inVmlinux ↔
      (∃ x ∈ localFuncs config sig.1 none table, hits config fns sig x = true) ∨
        ∃ s ∈ table, s.FoundAs config fns sig := by
  obtain ⟨st, heffect, hin, -⟩ := findInVmlinux_effect sig h
  rw [← hin, heffect.inVmlinux]
  simp

/-- The scan succeeds on a table that starts with a unit. -/
theorem findInVmlinux_ok (config : Config) (fns : Finset Signature) (s : Sym) (table : List Sym)
    (hfile : s.symtype = .file) :
    ∃ info, findInVmlinux config fns (elfLines (s :: table)) = .ok info := by
  have hunit : ({ filename := some (unitName config s.name) } : Scan).filename.isSome = true := rfl
  obtain ⟨st, hrest⟩ := rows_ok config fns table hunit
  have hrows : ((s :: table).map Sym.row).foldlM (Scan.row config fns) {} = .ok st := by
    rw [List.map_cons, List.foldlM_cons, row_eq, hfile]
    exact hrest
  have hdrop : (elfLines (s :: table)).drop 3 = (s :: table).map Sym.row := rfl
  rw [findInVmlinux, hdrop, hrows]
  exact ⟨_, rfl⟩

end Result

end Plugsched
