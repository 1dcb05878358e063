/-
The rows of a symbol table with the `FILE` symbols in front of them.

What `find_in_vmlinux` makes of a table is put together from such rows: `unitKeys p` lists
for the symbols with `p` the name of the `FILE` symbol that stands last before them, which
does not depend on the configuration.

* `findInVmlinux_tableOf` — the lines of `readelf` as a table;
* `findInVmlinux_of_headless`, `findInVmlinux_ok_of_units` — the scan needs a unit in front of
  functions and exports;
* `localSympos_unitKeys`, `mem_inVmlinux_unitKeys`, `mem_mangled_iff`, `mem_exportFunc_iff` —
  the results, from the rows.
-/
import Plugsched.SymbolTable

open ExceptRules ListRank

namespace Plugsched

/-! ### Lines as symbols -/

/-- The symbol of a row; types that the scan passes over are all one, as are scopes that
are not local. -/
def symOf : List String → Option Sym
  | [num, _, size, symtype, scope, vis, ndx, key] => some
      { num, size, vis, ndx
        addr := 0
        symtype := if symtype = "FILE" then .file else if symtype = "NOTYPE" then .notype
          else if symtype = "FUNC" then .func else .object
        scope := if scope = "LOCAL" then .loc else .global
        name := key
        origin := "" }
  | _ => none

/-- The symbols of the lines after the heading. -/
def tableOf (lines : List (List String)) : List Sym := (lines.drop 3).filterMap symOf

section Lines

variable {config : Config} {fns : Finset Signature}

/-- A row of eight fields. -/
theorem row_fields (st : Scan) (num addr size symtype scope vis ndx key : String) :
    ∃ s, symOf [num, addr, size, symtype, scope, vis, ndx, key] = some s ∧
      Scan.row config fns st [num, addr, size, symtype, scope, vis, ndx, key] =
        Scan.row config fns st s.row := by
  refine ⟨_, rfl, ?_⟩
  rw [row_eq, Scan.row]
  by_cases hfile : symtype = "FILE"
  · simp only [hfile, if_true]
    rfl
  by_cases hnotype : symtype = "NOTYPE"
  · simp only [hnotype, if_true]
    rfl
  by_cases hfunc : symtype = "FUNC"
  · simp only [hfunc, if_true]
    by_cases hscope : scope = "LOCAL"
    · simp only [hscope, if_true]
      rfl
    · have hglobal : Scope.global.text ≠ "LOCAL" := by decide
      simp only [hscope, if_false, Scan.func, if_neg hglobal]
      rfl
  · simp only [hfile, hnotype, hfunc, if_false]

theorem row_symOf (st : Scan) (fields : List String) : Scan.row config fns st fields =
    match symOf fields with
    | some s => Scan.row config fns st s.row
    | none => .ok st := by
  match fields with
  | [num, addr, size, symtype, scope, vis, ndx, key] =>
    obtain ⟨s, hs, hrow⟩ := row_fields st num addr size symtype scope vis ndx key
    rw [hs, hrow]
  | [] | [_] | [_, _] | [_, _, _] | [_, _, _, _] | [_, _, _, _, _] | [_, _, _, _, _, _]
  | [_, _, _, _, _, _, _] | _ :: _ :: _ :: _ :: _ :: _ :: _ :: _ :: _ :: _ => rfl

theorem rows_filterMap (st : Scan) (lines : List (List String)) :
    lines.foldlM (Scan.row config fns) st =
      ((lines.filterMap symOf).map Sym.row).foldlM (Scan.row config fns) st := by
  induction lines generalizing st with
  | nil => rfl
  | cons fields lines ih =>
    rw [List.foldlM_cons, row_symOf]
    cases hsym : symOf fields with
    | none =>
      rw [List.filterMap_cons_none hsym]
      exact ih st
    | some s =>
      rw [List.filterMap_cons_some hsym, List.map_cons, List.foldlM_cons]
      exact bind_congr fun st' => ih st'

theorem findInVmlinux_tableOf (lines : List (List String)) :
    findInVmlinux config fns lines = findInVmlinux config fns (elfLines (tableOf lines)) := by
  rw [findInVmlinux, findInVmlinux, rows_filterMap]
  rfl

end Lines

/-! ### Rows of a kind -/

/-- The `FILE` symbol in force after a symbol. -/
def nextKey (key : Option String) (s : Sym) : Option String :=
  if s.symtype = .file then some s.name else key

/-- The `FILE` symbols in force at the symbols with `p`. -/
def unitKeys (p : Sym → Bool) : Option String → List Sym → List (Option String)
  | _, [] => []
  | key, s :: table =>
    let rest := unitKeys p (nextKey key s) table
    if p s then key :: rest else rest

namespace Sym

/-- A clone of `n`, `.cold` parts apart. -/
def isClone (n : String) (s : Sym) : Bool :=
  s.symtype = .func ∧ '.' ∈ s.name.toList ∧ ¬ ".cold".toList <:+: s.name.toList ∧
    beforeDot s.name = n

/-- The `__ksymtab_` entry of `n`. -/
def isKsymtab (n : String) (s : Sym) : Bool :=
  s.symtype = .notype ∧ startsWith s.name "__ksymtab_" ∧ afterKsymtab s.name = n

/-- The scan of the symbol reads `filename`. -/
def needsUnit (s : Sym) : Bool :=
  s.symtype = .func ∨ s.symtype = .notype ∧ startsWith s.name "__ksymtab_"

end Sym

section Rows

variable {config : Config} {fns : Finset Signature} {n f : String} {st st' : Scan}

theorem nextUnit_map (key : Option String) (s : Sym) :
    nextUnit config (key.map (unitName config)) s = (nextKey key s).map (unitName config) := by
  rw [nextUnit, nextKey]
  split <;> rfl

theorem localFuncs_fst (config : Config) (n : String) (key : Option String) (table : List Sym) :
    (localFuncs config n (key.map (unitName config)) table).map Prod.fst =
      (unitKeys (Sym.isLocalFunc n) key table).map (Option.map (unitName config)) := by
  induction table generalizing key with
  | nil => rfl
  | cons s table ih =>
    rw [localFuncs, unitKeys, nextUnit_map]
    split
    · rw [List.map_cons, List.map_cons, ih]
    · exact ih (nextKey key s)

/-- The unit of a row exports the function. -/
def Exports (config : Config) (fns : Finset Signature) (sig : Signature)
    (units : List (Option String)) : Prop :=
  (∃ u ∈ config.modFiles, some u ∈ units) ∧
    getInAny fns sig.1 config.modFiles = some sig.2 ∧ sig.2 ≠ ""

/-- What a part of the table does to `mangled` and `export_func`, by the units of clones and
of `__ksymtab_` entries. -/
structure Scan.Marks (config : Config) (fns : Finset Signature) (sig : Signature)
    (clones exports : List (Option String)) (st st' : Scan) : Prop where
  mangled : sig ∈ st'.mangled ↔ sig ∈ st.mangled ∨ some sig.2 ∈ clones
  exportFunc : sig ∈ st'.exportFunc ↔ sig ∈ st.exportFunc ∨ Exports config fns sig exports

theorem Scan.Marks.of_eq {sig : Signature} (hmangled : st'.mangled = st.mangled)
    (hexport : st'.exportFunc = st.exportFunc) : Scan.Marks config fns sig [] [] st st' := by
  constructor
  · simp [hmangled]
  · simp [hexport, Exports]

theorem Scan.Marks.trans {sig : Signature} {st'' : Scan} {clones exports clones' exports' :
    List (Option String)} (h : Scan.Marks config fns sig clones exports st st')
    (h' : Scan.Marks config fns sig clones' exports' st' st'') :
    Scan.Marks config fns sig (clones ++ clones') (exports ++ exports') st st'' where
  mangled := by rw [h'.mangled, h.mangled, List.mem_append, or_assoc]
  exportFunc := by
    rw [h'.exportFunc, h.exportFunc, or_assoc]
    refine or_congr_right ?_
    simp only [Exports, List.mem_append, and_or_left, exists_or, or_and_right]

/-- The function that an entry for `key` exports. -/
def exportOf (config : Config) (fns : Finset Signature) (filename key : String) :
    Option Signature :=
  if filename ∈ config.modFiles then
    ((getInAny fns key config.modFiles).filter fun file => file ≠ "").map fun file => (key, file)
  else none

theorem exportOf_eq_some_iff {filename key : String} :
    exportOf config fns filename key = some (n, f) ↔ key = n ∧
      Exports config fns (n, f) [some filename] := by
  rw [exportOf]
  by_cases hmod : filename ∈ config.modFiles
  · rw [if_pos hmod]
    simp only [Option.map_eq_some_iff, Option.filter_eq_some_iff, Exports, Prod.mk.injEq,
      List.mem_singleton, Option.some.injEq, exists_eq_right, decide_eq_true_eq]
    constructor
    · rintro ⟨file, hfile, rfl, rfl⟩
      exact ⟨rfl, hmod, hfile⟩
    · rintro ⟨rfl, -, hfile⟩
      exact ⟨f, hfile, rfl, rfl⟩
  · rw [if_neg hmod]
    simp [Exports, hmod]

theorem notype_eq {filename key : String} (hunit : st.filename = some filename)
    (hstarts : startsWith key "__ksymtab_" = true) : st.notype config fns key =
      .ok (match exportOf config fns filename (afterKsymtab key) with
        | some sig => { st with exportFunc := insert sig st.exportFunc }
        | none => st) := by
  rw [Scan.notype, if_pos hstarts, hunit, exportOf]
  dsimp only
  by_cases hmod : filename ∈ config.modFiles
  · rw [if_pos hmod, if_pos hmod]
    cases getInAny fns (afterKsymtab key) config.modFiles with
    | none => rfl
    | some file => by_cases hempty : file = "" <;> simp [hempty, Option.filter]
  · rw [if_neg hmod, if_neg hmod]

theorem Scan.Marks.notype {sig : Signature} {s : Sym} (htype : s.symtype = .notype)
    (hst : st.notype config fns s.name = .ok st') :
    Scan.Marks config fns sig [] (if s.isKsymtab sig.1 then [st.filename] else []) st st' := by
  obtain ⟨n, f⟩ := sig
  by_cases hstarts : startsWith s.name "__ksymtab_" = true
  · have hiff : s.isKsymtab n = true ↔ afterKsymtab s.name = n := by
      rw [Sym.isKsymtab, decide_eq_true_iff]
      exact ⟨fun h => h.2.2, fun h => ⟨htype, hstarts, h⟩⟩
    cases hunit : st.filename with
    | none =>
      rw [Scan.notype, if_pos hstarts, hunit] at hst
      cases hst
    | some filename =>
      rw [notype_eq hunit hstarts] at hst
      cases hst
      have hexports : Exports config fns (n, f) (if s.isKsymtab n then [some filename] else []) ↔
          exportOf config fns filename (afterKsymtab s.name) = some (n, f) := by
        rw [exportOf_eq_some_iff, if_congr hiff rfl rfl]
        by_cases hn : afterKsymtab s.name = n
        · simp [hn]
        · simp [hn, Exports]
      constructor
      · split <;> simp
      · rw [hexports]
        cases exportOf config fns filename (afterKsymtab s.name) with
        | none => simp
        | some sig => simp [or_comm, eq_comm]
  · have hno : s.isKsymtab n = false := by simp [Sym.isKsymtab, hstarts]
    rw [Scan.notype, if_neg hstarts] at hst
    cases hst
    rw [hno, if_neg Bool.false_ne_true]
    exact .of_eq rfl rfl

theorem Scan.Marks.func {sig : Signature} {s : Sym} (htype : s.symtype = .func)
    (hst : st.func config fns s.scope.text s.name = .ok st') :
    Scan.Marks config fns sig (if s.isClone sig.1 then [st.filename] else []) [] st st' := by
  obtain ⟨n, f⟩ := sig
  unfold Scan.func at hst
  split at hst
  · cases hst
  · next filename hunit =>
    split at hst
    · next hdot =>
      split at hst
      · next hcold =>
        have hno : s.isClone n = false := by
          rw [Sym.isClone, decide_eq_false_iff_not]
          rintro ⟨-, -, hnot, -⟩
          exact hnot hcold
        cases hst
        rw [hno, if_neg Bool.false_ne_true]
        exact .of_eq rfl rfl
      · next hcold =>
        have hiff : s.isClone n = true ↔ beforeDot s.name = n := by
          rw [Sym.isClone, decide_eq_true_iff]
          exact ⟨fun h => h.2.2.2, fun h => ⟨htype, hdot, hcold, h⟩⟩
        cases hst
        rw [if_congr hiff rfl rfl]
        refine ⟨?_, by simp [Exports]⟩
        rw [Finset.mem_insert, or_comm, Prod.mk.injEq]
        refine or_congr_right ?_
        by_cases hn : beforeDot s.name = n
        · simp [hn, hunit]
        · simp [hn, Ne.symm hn]
    · next hdot =>
      have hno : s.isClone n = false := by simp [Sym.isClone, hdot]
      rw [hno, if_neg Bool.false_ne_true]
      split at hst <;> cases hst
      · rw [localFunc_eq]
        cases attributed config fns s.name (some filename) <;> exact .of_eq rfl rfl
      · unfold Scan.globalFunc
        split <;> exact .of_eq rfl rfl

theorem row_marks (sig : Signature) {s : Sym} (hst : Scan.row config fns st s.row = .ok st') :
    Scan.Marks config fns sig (if s.isClone sig.1 then [st.filename] else [])
      (if s.isKsymtab sig.1 then [st.filename] else []) st st' := by
  rw [row_eq] at hst
  have hclone : s.symtype ≠ .func → s.isClone sig.1 = false := by
    intro hne
    simp [Sym.isClone, hne]
  have hksymtab : s.symtype ≠ .notype → s.isKsymtab sig.1 = false := by
    intro hne
    simp [Sym.isKsymtab, hne]
  cases htype : s.symtype <;> rw [htype] at hst hclone hksymtab <;> dsimp only at hst
  case func =>
    rw [hksymtab (by decide), if_neg Bool.false_ne_true]
    exact .func htype hst
  case notype =>
    rw [hclone (by decide), if_neg Bool.false_ne_true]
    exact .notype htype hst
  all_goals
    rw [hksymtab (by decide), hclone (by decide), if_neg Bool.false_ne_true]
    cases hst
    exact .of_eq rfl rfl

theorem map_unitKeys_cons {γ : Type} (p : Sym → Bool) (g : Option String → γ) (key : Option String)
    (s : Sym) (table : List Sym) : (unitKeys p key (s :: table)).map g =
      (if p s then [g key] else []) ++ (unitKeys p (nextKey key s) table).map g := by
  rw [unitKeys]
  cases p s <;> rfl

/-- The scan of a table marks the units of its clones and of its entries. -/
theorem rows_marks (sig : Signature) {key : Option String} {table : List Sym}
    (hkey : st.filename = key.map (unitName config))
    (hst : (table.map Sym.row).foldlM (Scan.row config fns) st = .ok st') :
    Scan.Marks config fns sig
      ((unitKeys (Sym.isClone sig.1) key table).map (Option.map (unitName config)))
      ((unitKeys (Sym.isKsymtab sig.1) key table).map (Option.map (unitName config))) st st' := by
  induction table generalizing st key with
  | nil =>
    cases hst
    exact .of_eq rfl rfl
  | cons s table ih =>
    obtain ⟨st₁, hrow, hrest⟩ := foldlM_cons_ok hst
    have hnext : st₁.filename = (nextKey key s).map (unitName config) := by
      rw [(row_step sig hrow).2, hkey, nextUnit_map]
    have hmarks := (row_marks sig hrow).trans (ih hnext hrest)
    rw [hkey] at hmarks
    rw [map_unitKeys_cons, map_unitKeys_cons]
    exact hmarks

/-! ### The unit that the scan needs -/

theorem row_error {s : Sym} (hunit : st.filename = none) (hs : s.needsUnit = true) :
    Scan.row config fns st s.row = .error (.unboundLocal "filename") := by
  rw [row_eq]
  rcases of_decide_eq_true hs with hfunc | ⟨hnotype, hstarts⟩
  · rw [hfunc]
    show st.func config fns s.scope.text s.name = _
    rw [Scan.func, hunit]
  · rw [hnotype]
    show st.notype config fns s.name = _
    rw [Scan.notype, if_pos hstarts, hunit]

theorem row_ok_of_unit (config : Config) (fns : Finset Signature) {s : Sym}
    (h : st.filename.isSome = true ∨ s.needsUnit = false) :
    ∃ st', Scan.row config fns st s.row = .ok st' := by
  rcases h with hunit | hs
  · exact row_ok config fns s hunit
  · rw [row_eq]
    have hno := of_decide_eq_false hs
    cases htype : s.symtype with
    | file => exact ⟨_, rfl⟩
    | func => exact absurd (.inl htype) hno
    | object => exact ⟨_, rfl⟩
    | notype =>
      refine ⟨st, ?_⟩
      show st.notype config fns s.name = _
      rw [Scan.notype, if_neg fun hstarts => hno (.inr ⟨htype, hstarts⟩)]
    | sect => exact ⟨_, rfl⟩

theorem rows_unit (fns : Finset Signature) {key : Option String} (table : List Sym)
    (hkey : st.filename = key.map (unitName config)) :
    if none ∈ unitKeys Sym.needsUnit key table then
      (table.map Sym.row).foldlM (Scan.row config fns) st = .error (.unboundLocal "filename")
    else ∃ st', (table.map Sym.row).foldlM (Scan.row config fns) st = .ok st' := by
  induction table generalizing st key with
  | nil =>
    rw [if_neg (by simp [unitKeys])]
    exact ⟨st, rfl⟩
  | cons s table ih =>
    rw [List.map_cons, List.foldlM_cons, unitKeys]
    by_cases hstop : key = none ∧ s.needsUnit = true
    · obtain ⟨rfl, hs⟩ := hstop
      rw [if_pos hs, if_pos List.mem_cons_self, row_error hkey hs]
      rfl
    · have hgoes : st.filename.isSome = true ∨ s.needsUnit = false := by
        rw [hkey, Option.isSome_map]
        cases key with
        | none => exact .inr (Bool.eq_false_iff.mpr fun hs => hstop ⟨rfl, hs⟩)
        | some key => exact .inl rfl
      obtain ⟨st₁, hrow⟩ := row_ok_of_unit config fns hgoes
      have hnext : st₁.filename = (nextKey key s).map (unitName config) := by
        rw [(row_step ("", "") hrow).2, hkey, nextUnit_map]
      have hmem : (none ∈ if s.needsUnit = true then
          key :: unitKeys Sym.needsUnit (nextKey key s) table
          else unitKeys Sym.needsUnit (nextKey key s) table) ↔
          none ∈ unitKeys Sym.needsUnit (nextKey key s) table := by
        by_cases hs : s.needsUnit = true
        · have hne : key ≠ none := fun hnone => hstop ⟨hnone, hs⟩
          rw [if_pos hs, List.mem_cons, or_iff_right (Ne.symm hne)]
        · rw [if_neg hs]
      rw [hrow, if_congr hmem rfl rfl]
      exact ih hnext

end Rows

/-! ### The results from the rows -/

section Results

variable {config : Config} {fns : Finset Signature} {n f : String} {table : List Sym}
  {info : VmlinuxInfo}

/-- Some function or export stands in front of all units. -/
def Headless (table : List Sym) : Prop := none ∈ unitKeys Sym.needsUnit none table

theorem findInVmlinux_of_headless (h : Headless table) :
    findInVmlinux config fns (elfLines table) = .error (.unboundLocal "filename") := by
  rw [Headless] at h
  have hunit : ({} : Scan).filename = (none : Option String).map (unitName config) := rfl
  have hrows := rows_unit fns table hunit
  rw [if_pos h] at hrows
  have hdrop : (elfLines table).drop 3 = table.map Sym.row := rfl
  rw [findInVmlinux, hdrop, hrows]
  rfl

theorem findInVmlinux_ok_of_units (config : Config) (fns : Finset Signature)
    (h : ¬ Headless table) : ∃ info, findInVmlinux config fns (elfLines table) = .ok info := by
  rw [Headless] at h
  have hunit : ({} : Scan).filename = (none : Option String).map (unitName config) := rfl
  have hrows := rows_unit fns table hunit
  rw [if_neg h] at hrows
  obtain ⟨st, hst⟩ := hrows
  have hdrop : (elfLines table).drop 3 = table.map Sym.row := rfl
  rw [findInVmlinux, hdrop, hst]
  exact ⟨_, rfl⟩

variable (h : findInVmlinux config fns (elfLines table) = .ok info)

include h

theorem localSympos_unitKeys : info.localSympos (n, f) =
    lastPos (fun key => decide (attributed config fns n (key.map (unitName config)) = some f))
      (unitKeys (Sym.isLocalFunc n) none table) := by
  rw [localSympos_eq h]
  have hfst := localFuncs_fst config n none table
  have hhits : hits config fns (n, f) =
      (fun unit => decide (attributed config fns n unit = some f)) ∘ Prod.fst := rfl
  rw [hhits, ← lastPos_map, show localFuncs config (n, f).1 none table =
    localFuncs config n (none.map (unitName config)) table from rfl, hfst, lastPos_map]
  rfl

theorem mem_inVmlinux_unitKeys : (n, f) ∈ info.inVmlinux ↔
    (∃ key ∈ unitKeys (Sym.isLocalFunc n) none table,
      attributed config fns n (key.map (unitName config)) = some f) ∨
    (∃ s ∈ table, s.isGlobalFunc n = true) ∧ getInAny fns n config.allFiles = some f := by
  rw [mem_inVmlinux_iff h]
  have hfst := localFuncs_fst config n none table
  have hlocal : (∃ x ∈ localFuncs config n none table, hits config fns (n, f) x = true) ↔
      ∃ key ∈ unitKeys (Sym.isLocalFunc n) none table,
        attributed config fns n (key.map (unitName config)) = some f := by
    constructor
    · rintro ⟨x, hx, hhit⟩
      have hmem : x.1 ∈ (unitKeys (Sym.isLocalFunc n) none table).map
          (Option.map (unitName config)) := hfst ▸ List.mem_map_of_mem hx
      obtain ⟨key, hkey, heq⟩ := List.mem_map.mp hmem
      refine ⟨key, hkey, ?_⟩
      rw [heq]
      exact of_decide_eq_true hhit
    · rintro ⟨key, hkey, hattr⟩
      have hmem : key.map (unitName config) ∈ (localFuncs config n none table).map Prod.fst :=
        hfst ▸ List.mem_map_of_mem hkey
      obtain ⟨x, hx, heq⟩ := List.mem_map.mp hmem
      refine ⟨x, hx, ?_⟩
      rw [hits, heq]
      exact decide_eq_true hattr
  refine or_congr hlocal ?_
  simp only [Sym.FoundAs]
  constructor
  · rintro ⟨s, hs, hglobal, hget⟩
    exact ⟨⟨s, hs, hglobal⟩, hget⟩
  · rintro ⟨⟨s, hs, hglobal⟩, hget⟩
    exact ⟨s, hs, hglobal, hget⟩

theorem findInVmlinux_marks (sig : Signature) : (sig ∈ info.mangled ↔
    some sig.2 ∈ (unitKeys (Sym.isClone sig.1) none table).map (Option.map (unitName config))) ∧
    (sig ∈ info.exportFunc ↔ Exports config fns sig
      ((unitKeys (Sym.isKsymtab sig.1) none table).map (Option.map (unitName config)))) := by
  have hdrop : (elfLines table).drop 3 = table.map Sym.row := rfl
  rw [findInVmlinux, hdrop] at h
  obtain ⟨st, hrows, hinfo⟩ := bind_eq_ok h
  cases hinfo
  have hunit : ({} : Scan).filename = (none : Option String).map (unitName config) := rfl
  have hmarks := rows_marks sig hunit hrows
  rw [hmarks.mangled, hmarks.exportFunc]
  simp

theorem mem_mangled_iff : (n, f) ∈ info.mangled ↔ ∃ key ∈ unitKeys (Sym.isClone n) none table,
    key.map (unitName config) = some f := by
  rw [(findInVmlinux_marks h (n, f)).1, List.mem_map]

theorem mem_exportFunc_iff : (n, f) ∈ info.exportFunc ↔
    (∃ key ∈ unitKeys (Sym.isKsymtab n) none table,
      ∃ u ∈ config.modFiles, key.map (unitName config) = some u) ∧
    getInAny fns n config.modFiles = some f ∧ f ≠ "" := by
  rw [(findInVmlinux_marks h (n, f)).2, Exports]
  simp only [List.mem_map]
  refine and_congr_left fun _ => ⟨?_, ?_⟩
  · rintro ⟨u, hu, key, hkey, heq⟩
    exact ⟨key, hkey, u, hu, heq⟩
  · rintro ⟨key, hkey, u, hu, heq⟩
    exact ⟨u, hu, key, hkey, heq⟩

end Results

end Plugsched
