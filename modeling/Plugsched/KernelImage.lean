/-
The symbol table of an image linked from compilation units, and where
`find_in_vmlinux` finds the static functions of the module's source files.

The table shows of each unit only the base name, then its local symbols.  The
scan takes a unit for the last file of the configuration with this base name.

* `localFuncs_table` — the local functions of a name, unit by unit;
* `attributed_iff` — a unit is taken for a `.c` file exactly if that file is the last
  of the configuration with the base name of the unit;
* `located_iff` — so a static function is located correctly exactly if base
  names lead to no other unit.
-/
import Mathlib.Data.List.TakeWhile
import Plugsched.FuncClass
import Plugsched.SymbolTable

open ListRank

namespace Plugsched

/-! ### Images -/

/-- A compilation unit with its local symbols.  No two of its functions have the same
name. -/
structure CompUnit where
  path : String
  locals : List Sym
  loc : ∀ s ∈ locals, s.scope = .loc ∧ s.symtype ≠ .file
  nodup : ((locals.filter fun s => s.symtype = .func ∧ '.' ∉ s.name.toList).map Sym.name).Nodup

/-- vmlinux: the units in the order of the link, and the other symbols. -/
structure KernelImage where
  units : List CompUnit
  globals : List Sym
  ne_nil : units ≠ []
  nodup : (units.map CompUnit.path).Nodup
  global : ∀ s ∈ globals, s.scope ≠ .loc ∧ s.symtype ≠ .file

namespace CompUnit

/-- The local function `n`. -/
def funcs (n : String) (u : CompUnit) : List Sym := u.locals.filter (Sym.isLocalFunc n)

/-- The unit has a local function `n`. -/
def emits (n : String) (u : CompUnit) : Bool := u.locals.any (Sym.isLocalFunc n)

def table (u : CompUnit) : List Sym := fileSym u.path :: u.locals

theorem emits_iff {n : String} {u : CompUnit} : u.emits n = true ↔ ∃ s, s ∈ u.funcs n := by
  simp [emits, funcs, List.any_eq_true]

/-- A unit has one local function of a name at most. -/
theorem funcs_eq_singleton {n : String} {u : CompUnit} (h : u.emits n = true) :
    ∃ s, u.funcs n = [s] := by
  have hsub : (u.funcs n).Sublist
      (u.locals.filter fun s => s.symtype = .func ∧ '.' ∉ s.name.toList) := by
    refine List.monotone_filter_right _ fun s hs => ?_
    simp only [Sym.isLocalFunc, Sym.isFunc, Bool.and_eq_true, decide_eq_true_eq] at hs ⊢
    obtain ⟨⟨htype, hdot, rfl⟩, -⟩ := hs
    exact ⟨htype, hdot⟩
  have hnames : (u.funcs n).map Sym.name = List.replicate (u.funcs n).length n := by
    refine List.eq_replicate_iff.mpr ⟨List.length_map _, fun name hname => ?_⟩
    obtain ⟨s, hs, rfl⟩ := List.mem_map.mp hname
    have hfunc := (List.mem_filter.mp hs).2
    simp only [Sym.isLocalFunc, Sym.isFunc, Bool.and_eq_true, decide_eq_true_eq] at hfunc
    exact hfunc.1.2.2
  have hnodup := u.nodup.sublist (hsub.map Sym.name)
  rw [hnames, List.nodup_replicate] at hnodup
  obtain ⟨s, hs⟩ := emits_iff.mp h
  exact List.length_eq_one_iff.mp (le_antisymm hnodup (List.length_pos_of_mem hs))

/-- The local functions `n` with the file taken for the unit. -/
def entries (config : Config) (n : String) (u : CompUnit) : List (Option String × Sym) :=
  (u.funcs n).map (some (unitName config (basename u.path)), ·)

end CompUnit

namespace KernelImage

/-- The symbol table. -/
def table (image : KernelImage) : List Sym :=
  image.units.flatMap CompUnit.table ++ image.globals

/-- The unit `f` has a local function `n`. -/
def Emits (image : KernelImage) (f n : String) : Prop :=
  ∃ u ∈ image.units, u.path = f ∧ u.emits n = true

/-- The number of local functions `n` of the units before `f`. -/
def earlier (image : KernelImage) (f n : String) : ℕ :=
  ((image.units.takeWhile (·.path ≠ f)).flatMap (CompUnit.funcs n)).length

/-- The units after `f`. -/
def later (image : KernelImage) (f : String) : List CompUnit :=
  (image.units.dropWhile (·.path ≠ f)).tail

end KernelImage

/-! ### The local functions of a name -/

section LocalFuncs

variable {config : Config} {n : String}

/-- Inside a unit the file does not change. -/
theorem localFuncs_of_not_file {unit : Option String} {table : List Sym}
    (h : ∀ s ∈ table, s.symtype ≠ .file) :
    localFuncs config n unit table = (table.filter (Sym.isLocalFunc n)).map (unit, ·) := by
  induction table with
  | nil => rfl
  | cons s table ih =>
    obtain ⟨hs, hrest⟩ := List.forall_mem_cons.mp h
    rw [localFuncs, nextUnit, if_neg hs, ih hrest, List.filter_cons]
    split <;> rfl

theorem localFuncs_unit (config : Config) (n : String) (unit : Option String) (u : CompUnit) :
    localFuncs config n unit u.table = u.entries config n := by
  have hfile : (fileSym u.path).isLocalFunc n = false := by
    simp [Sym.isLocalFunc, Sym.isFunc, fileSym]
  rw [CompUnit.table, localFuncs, hfile, if_neg Bool.false_ne_true,
    localFuncs_of_not_file fun s hs => (u.loc s hs).2]
  rfl

theorem localFuncs_units (config : Config) (n : String) (unit : Option String)
    (units : List CompUnit) : localFuncs config n unit (units.flatMap CompUnit.table) =
      units.flatMap (CompUnit.entries config n) := by
  induction units generalizing unit with
  | nil => rfl
  | cons u units ih => rw [List.flatMap_cons, List.flatMap_cons, localFuncs_append,
      localFuncs_unit, ih]

/-- The local functions of a name, unit by unit. -/
theorem localFuncs_table (config : Config) (n : String) (image : KernelImage) :
    localFuncs config n none image.table = image.units.flatMap (CompUnit.entries config n) := by
  have hglobals : image.globals.filter (Sym.isLocalFunc n) = [] := by
    refine List.filter_eq_nil_iff.mpr fun s hs => ?_
    simp [Sym.isLocalFunc, (image.global s hs).1]
  rw [KernelImage.table, localFuncs_append, localFuncs_units,
    localFuncs_of_not_file fun s hs => (image.global s hs).2, hglobals]
  exact List.append_nil _

end LocalFuncs

/-! ### Units and files -/

theorem basename_idem (path : String) : basename (basename path) = basename path := by
  rw [basename, basename, String.toList_ofList, List.reverse_reverse, List.takeWhile_idem]

section Files

variable {config : Config} {fns : Finset Signature} {n f : String}

theorem fullname_eq_some {key : String} (h : config.fullname key = some f) :
    f ∈ config.allFiles ∧ basename f = key :=
  ⟨List.mem_reverse.mp (List.mem_of_find?_eq_some h), by simpa using List.find?_some h⟩

/-- A base name that the configuration does not know is none of its files. -/
theorem basename_notMem {path : String} (h : config.fullname (basename path) = none) :
    basename path ∉ config.allFiles := by
  intro hmem
  have hnot := List.find?_eq_none.mp h (basename path) (List.mem_reverse.mpr hmem)
  rw [basename_idem] at hnot
  simp at hnot

/-- No file is a header and a source file. -/
theorem not_header_of_source (hc : endsWith f ".c" = true) : endsWith f ".h" = false := by
  by_contra hh
  have hsource := List.isSuffixOf_iff_suffix.mp hc
  have hheader := List.isSuffixOf_iff_suffix.mp (Bool.eq_true_of_not_eq_false hh)
  exact absurd (List.suffix_of_suffix_length_le hheader hsource (by decide)) (by decide)

/-- A local function is found under a static function of a source file exactly if
this is the last file with the base name of the unit. -/
theorem attributed_iff {path : String} (hmem : (n, f) ∈ fns) (hc : endsWith f ".c" = true) :
    attributed config fns n (some (unitName config (basename path))) = some f ↔
      config.fullname (basename path) = some f := by
  rw [attributed, Option.bind_some, unitName]
  cases hname : config.fullname (basename path) with
  | none =>
    rw [Option.getD_none, if_pos (basename_notMem hname)]
  | some file =>
    have hfile := (fullname_eq_some hname).1
    rw [Option.getD_some, if_neg (not_not_intro hfile)]
    by_cases hin : (n, file) ∈ fns
    · rw [if_pos hin]
    · rw [if_neg hin, Option.some.injEq]
      constructor
      · intro hget
        -- headers only are searched
        have hheader := (List.mem_filter.mp (mem_of_getInAny hget).1).2
        rw [not_header_of_source hc] at hheader
        cases hheader
      · rintro rfl
        exact absurd hmem hin

theorem hits_entries_iff {u : CompUnit} (hmem : (n, f) ∈ fns) (hc : endsWith f ".c" = true) :
    (∃ x ∈ u.entries config n, hits config fns (n, f) x = true) ↔
      u.emits n = true ∧ config.fullname (basename u.path) = some f := by
  simp only [CompUnit.entries, List.mem_map, hits, decide_eq_true_eq, CompUnit.emits_iff]
  constructor
  · rintro ⟨_, ⟨s, hs, rfl⟩, hattr⟩
    exact ⟨⟨s, hs⟩, (attributed_iff hmem hc).mp hattr⟩
  · rintro ⟨⟨s, hs⟩, hname⟩
    exact ⟨_, ⟨s, hs, rfl⟩, (attributed_iff hmem hc).mpr hname⟩

end Files

/-! ### Static functions -/

/-- `n` is a static function of `f`. -/
def StaticFn (metas : List Meta) (n f : String) : Prop :=
  ∃ fn ∈ metas.flatMap Meta.fn, fn.isPublic = false ∧ fn.signature = (n, f)

/-- What is to be found out about a static function: whether its unit has a symbol for
it, and which of those with its name it is. -/
structure Located (image : KernelImage) (info : VmlinuxInfo) (n f : String) : Prop where
  inVmlinux : (n, f) ∈ info.inVmlinux ↔ image.Emits f n
  sympos : image.Emits f n → info.localSympos (n, f) = some (1 + image.earlier f n)

/-- Nothing else is taken for the function `n` of the unit `f`.  If the unit has a
symbol for it, `f` is the last file of the configuration with its base name, and no
later unit of this base name has such a symbol; otherwise no unit taken for `f` has one,
and no global function `n` is found under `f`. -/
structure Unambiguous (config : Config) (fns : Finset Signature) (image : KernelImage)
    (n f : String) : Prop where
  emitted : image.Emits f n → config.fullname (basename f) = some f ∧
    ∀ u ∈ image.later f, basename u.path = basename f → u.emits n = false
  absent : ¬ image.Emits f n →
    (config.fullname (basename f) = some f →
      ∀ u ∈ image.units, basename u.path = basename f → u.emits n = false) ∧
    ∀ s ∈ image.globals, s.isGlobalFunc n = true → getInAny fns n config.allFiles ≠ some f

section Static

variable {config : Config} {image : KernelImage} {n f : String}

/-- The units around the unit `f`. -/
theorem units_eq (h : image.Emits f n) : ∃ u, u.path = f ∧ u.emits n = true ∧
    image.units = image.units.takeWhile (·.path ≠ f) ++ u :: image.later f := by
  obtain ⟨u, hu, hpath, hemits⟩ := h
  refine ⟨u, hpath, hemits, ?_⟩
  rw [KernelImage.later]
  cases hdrop : image.units.dropWhile (·.path ≠ f) with
  | nil =>
    have hall := List.dropWhile_eq_nil_iff.mp hdrop u hu
    simp [hpath] at hall
  | cons v rest =>
    have hsplit := List.takeWhile_append_dropWhile (p := (·.path ≠ f)) (l := image.units)
    rw [hdrop] at hsplit
    have hv : v.path = f := by
      have hnot := List.head?_dropWhile_not (fun w : CompUnit => decide (w.path ≠ f)) image.units
      rw [hdrop] at hnot
      simpa using hnot
    -- paths are unique
    have hmem : v ∈ image.units := by
      rw [← hsplit]
      simp
    obtain rfl := List.inj_on_of_nodup_map image.nodup hu hmem (hpath.trans hv.symm)
    exact hsplit.symm

/-- When a static function is found in the image. -/
theorem mem_inVmlinux_iff_units {fns : Finset Signature} {info : VmlinuxInfo}
    (h : findInVmlinux config fns (elfLines image.table) = .ok info)
    (hmem : (n, f) ∈ fns) (hc : endsWith f ".c" = true) :
    (n, f) ∈ info.inVmlinux ↔
      (∃ u ∈ image.units, u.emits n = true ∧ config.fullname (basename u.path) = some f) ∨
        ∃ s ∈ image.globals, s.isGlobalFunc n = true ∧
          getInAny fns n config.allFiles = some f := by
  rw [mem_inVmlinux_iff h, localFuncs_table]
  refine or_congr ?_ ?_
  · simp only [List.mem_flatMap]
    constructor
    · rintro ⟨x, ⟨u, hu, hx⟩, hhit⟩
      exact ⟨u, hu, (hits_entries_iff hmem hc).mp ⟨x, hx, hhit⟩⟩
    · rintro ⟨u, hu, hhits⟩
      obtain ⟨x, hx, hhit⟩ := (hits_entries_iff hmem hc).mpr hhits
      exact ⟨x, ⟨u, hu, hx⟩, hhit⟩
  · constructor
    · rintro ⟨s, hs, hfound⟩
      rcases List.mem_append.mp hs with hs | hs
      · -- the symbols of the units are local
        obtain ⟨u, -, hs⟩ := List.mem_flatMap.mp hs
        have hloc : s.scope = .loc := by
          rcases List.mem_cons.mp hs with rfl | hs
          · rfl
          · exact (u.loc s hs).1
        have hglobal := hfound.1
        simp [Sym.isGlobalFunc, hloc] at hglobal
      · exact ⟨s, hs, hfound⟩
    · rintro ⟨s, hs, hfound⟩
      exact ⟨s, List.mem_append_right _ hs, hfound⟩

/-- The position of a static function that has a symbol. -/
theorem localSympos_iff_units {fns : Finset Signature} {info : VmlinuxInfo}
    (h : findInVmlinux config fns (elfLines image.table) = .ok info)
    (hmem : (n, f) ∈ fns) (hc : endsWith f ".c" = true) (hemits : image.Emits f n) :
    info.localSympos (n, f) = some (1 + image.earlier f n) ↔
      config.fullname (basename f) = some f ∧
        ∀ u ∈ image.later f, basename u.path = basename f → u.emits n = false := by
  obtain ⟨u, hpath, hu, hunits⟩ := units_eq hemits
  obtain ⟨s, hs⟩ := CompUnit.funcs_eq_singleton hu
  -- the entries before, of and after the unit
  have hentry : u.entries config n = [(some (unitName config (basename f)), s)] := by
    rw [CompUnit.entries, hs, hpath]
    rfl
  have hlist : localFuncs config n none image.table =
      (image.units.takeWhile (·.path ≠ f)).flatMap (CompUnit.entries config n) ++
        (some (unitName config (basename f)), s) ::
          (image.later f).flatMap (CompUnit.entries config n) := by
    rw [localFuncs_table]
    calc image.units.flatMap (CompUnit.entries config n)
        = (image.units.takeWhile (·.path ≠ f) ++ u :: image.later f).flatMap
            (CompUnit.entries config n) := congrArg (List.flatMap _) hunits
      _ = _ := by
        rw [List.flatMap_append, List.flatMap_cons, hentry]
        rfl
  have hlength : ((image.units.takeWhile (·.path ≠ f)).flatMap
      (CompUnit.entries config n)).length = image.earlier f n := by
    simp [KernelImage.earlier, CompUnit.entries, List.length_flatMap]
  have hattr : attributed config fns n (some (unitName config (basename f))) = some f ↔
      config.fullname (basename f) = some f := attributed_iff hmem hc
  rw [localSympos_eq h, hlist, lastPos_eq_some_iff]
  constructor
  · rintro ⟨a, x, b, hsplit, hhit, hrest, hpos⟩
    have hlen : ((image.units.takeWhile (·.path ≠ f)).flatMap
        (CompUnit.entries config n)).length = a.length := by
      omega
    obtain ⟨-, htail⟩ := List.append_inj hsplit hlen
    obtain ⟨rfl, rfl⟩ := List.cons.inj htail
    refine ⟨hattr.mp (decide_eq_true_iff.mp hhit), fun v hv hbase => ?_⟩
    by_contra hnot
    -- a later unit of this base name would be the last one taken for `f`
    obtain ⟨y, hy, hyhit⟩ := (hits_entries_iff hmem hc).mpr
      ⟨Bool.eq_true_of_not_eq_false hnot, hbase ▸ hattr.mp (decide_eq_true_iff.mp hhit)⟩
    rw [hrest y (List.mem_flatMap.mpr ⟨v, hv, hy⟩)] at hyhit
    cases hyhit
  · rintro ⟨hname, hlater⟩
    refine ⟨_, _, _, rfl, decide_eq_true_iff.mpr (hattr.mpr hname), fun y hy => ?_, ?_⟩
    · by_contra hnot
      obtain ⟨v, hv, hy⟩ := List.mem_flatMap.mp hy
      obtain ⟨hemits, hvname⟩ := (hits_entries_iff hmem hc).mp
        ⟨y, hy, Bool.eq_true_of_not_eq_false hnot⟩
      rw [hlater v hv (fullname_eq_some hvname).2.symm] at hemits
      cases hemits
    · omega

/-- **Static functions in vmlinux.**  The scan succeeds, and a static function of a
source file is located exactly if the base names of the units are unambiguous for it. -/
theorem located_iff (config : Config) (metas : List Meta) (image : KernelImage) :
    ∃ info, findInVmlinux config (collected config metas).fn (elfLines image.table) = .ok info ∧
      ∀ n f, f ∈ config.modSrcs ++ config.sdcrSrcs → endsWith f ".c" = true →
        StaticFn metas n f → (Located image info n f ↔
          Unambiguous config (collected config metas).fn image n f) := by
  obtain ⟨u, units, hunits⟩ := List.exists_cons_of_ne_nil image.ne_nil
  have htable : image.table =
      fileSym u.path :: (u.locals ++ (units.flatMap CompUnit.table ++ image.globals)) := by
    simp [KernelImage.table, hunits, CompUnit.table]
  obtain ⟨info, hinfo⟩ := findInVmlinux_ok config (collected config metas).fn (fileSym u.path)
    (u.locals ++ (units.flatMap CompUnit.table ++ image.globals)) rfl
  rw [← htable] at hinfo
  refine ⟨info, hinfo, fun n f _ hc hstatic => ?_⟩
  have hmem : (n, f) ∈ (collected config metas).fn := by
    obtain ⟨fn, hfn, -, hsig⟩ := hstatic
    exact List.mem_toFinset.mpr (List.mem_map.mpr ⟨fn, List.mem_filter.mpr ⟨hfn, rfl⟩, hsig⟩)
  have hin := mem_inVmlinux_iff_units hinfo hmem hc
  by_cases hemits : image.Emits f n
  · have hpos := localSympos_iff_units hinfo hmem hc hemits
    constructor
    · intro hlocated
      exact ⟨fun _ => hpos.mp (hlocated.sympos hemits), fun hnot => absurd hemits hnot⟩
    · intro hclear
      obtain ⟨hname, hlater⟩ := hclear.emitted hemits
      refine ⟨iff_of_true (hin.mpr (.inl ?_)) hemits, fun _ => hpos.mpr ⟨hname, hlater⟩⟩
      obtain ⟨v, hv, rfl, hvemits⟩ := hemits
      exact ⟨v, hv, hvemits, hname⟩
  · constructor
    · intro hlocated
      have hnot := (not_congr hin).mp fun hmem' => hemits (hlocated.inVmlinux.mp hmem')
      obtain ⟨hunit, hglobal⟩ := not_or.mp hnot
      refine ⟨fun h => absurd h hemits, fun _ => ⟨fun hname v hv hbase => ?_, fun s hs hfunc hget =>
        hglobal ⟨s, hs, hfunc, hget⟩⟩⟩
      by_contra hvemits
      exact hunit ⟨v, hv, Bool.eq_true_of_not_eq_false hvemits, hbase ▸ hname⟩
    · intro hclear
      obtain ⟨hunit, hglobal⟩ := hclear.absent hemits
      refine ⟨iff_of_false ?_ hemits, fun h => absurd h hemits⟩
      rw [hin]
      rintro (⟨v, hv, hvemits, hname⟩ | ⟨s, hs, hfunc, hget⟩)
      · have hbase := (fullname_eq_some hname).2
        rw [hunit (hbase ▸ hname) v hv hbase.symm] at hvemits
        cases hvemits
      · exact hglobal s hs hfunc hget

end Static

/-- A unit whose only symbol is the static function `update_load`. -/
def loadUnit (path : String) (addr : ℕ) : CompUnit where
  path := path
  locals := [funcSym .loc "update_load" path addr]
  loc := by simp [funcSym]
  nodup := by simp [funcSym]

def loadMetas : List Meta :=
  [ { path := "kernel/sched/core.c.boundary"
      fn := [plainFn "schedule" "kernel/sched/core.c",
        { plainFn "update_load" "kernel/sched/core.c" with isPublic := false }]
      edge := []
      callback := []
      interface := [("schedule", "kernel/sched/core.c")] } ]

theorem static_updateLoad : StaticFn loadMetas "update_load" "kernel/sched/core.c" := by
  refine ⟨{ plainFn "update_load" "kernel/sched/core.c" with isPublic := false }, ?_, rfl, rfl⟩
  simp [loadMetas]

/-- Two units with an `update_load`, then that of the scheduler. -/
def loadImage : KernelImage where
  units := [loadUnit "mm/vmscan.c" 0x1000, loadUnit "drivers/base/core.c" 0x2000,
    loadUnit "kernel/sched/core.c" 0x3000]
  globals := [funcSym .global "schedule" "kernel/sched/core.c" 0x4000]
  ne_nil := List.cons_ne_nil _ _
  nodup := by decide
  global := by simp [funcSym]

/-- The same with the scheduler linked before `drivers/base/core.c`. -/
def swappedImage : KernelImage where
  units := [loadUnit "mm/vmscan.c" 0x1000, loadUnit "kernel/sched/core.c" 0x2000,
    loadUnit "drivers/base/core.c" 0x3000]
  globals := [funcSym .global "schedule" "kernel/sched/core.c" 0x4000]
  ne_nil := List.cons_ne_nil _ _
  nodup := by decide
  global := by simp [funcSym]

/-- The last unit of the base name is the right one: position 3. -/
theorem located_iff_last :
    ∃ info, findInVmlinux smallConfig (collected smallConfig loadMetas).fn
        (elfLines loadImage.table) = .ok info ∧
      Located loadImage info "update_load" "kernel/sched/core.c" := by
  obtain ⟨info, hinfo, hiff⟩ := located_iff smallConfig loadMetas loadImage
  have hemits : loadImage.Emits "kernel/sched/core.c" "update_load" := by
    unfold KernelImage.Emits
    decide
  exact ⟨info, hinfo, (hiff "update_load" "kernel/sched/core.c" (by decide) (by decide)
    static_updateLoad).mpr ⟨fun _ => by decide, fun hnot => absurd hemits hnot⟩⟩

/-- The position of `update_load` of the scheduler is 2, but the scan says 3. -/
theorem baseName_collision :
    StaticFn loadMetas "update_load" "kernel/sched/core.c" ∧
      ∃ info, findInVmlinux smallConfig (collected smallConfig loadMetas).fn
          (elfLines swappedImage.table) = .ok info ∧
        info.localSympos ("update_load", "kernel/sched/core.c") = some 3 ∧
        swappedImage.earlier "kernel/sched/core.c" "update_load" = 1 ∧
        ¬ Located swappedImage info "update_load" "kernel/sched/core.c" := by
  have hemits : swappedImage.Emits "kernel/sched/core.c" "update_load" := by
    unfold KernelImage.Emits
    decide
  refine ⟨static_updateLoad, _, rfl, by decide, by decide, fun hlocated => ?_⟩
  exact absurd (hlocated.sympos hemits) (by decide)

end Plugsched
