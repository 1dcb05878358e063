/-
`symbol_resolve`: from a name and a symbol position to an address.

`load_kallsyms` keeps for each name the addresses of all symbols of the kernel,
in the order of `/proc/kallsyms`; `resolve_ref` takes the one at the symbol
position.  The position itself was counted among the local functions in the
order of the symbol table.

* `loadKallsyms_eq` — the addresses that are kept for a name;
* `resolveRef_getElem?` — the address that is written into a symbol of the module;
* `positionsAgree_iff` — when it is that of the function that was counted.
-/
import Plugsched.FuncClass
import Plugsched.SymbolTable

open ExceptRules ListRank

namespace Plugsched

/-! ### The resolver -/

/-- A line of `/proc/kallsyms`; those of modules have a fourth field. -/
structure KallsymLine where
  addr : ℕ
  type : Char
  name : String
  module : Option String

/-- `load_kallsyms`, with the addresses found so far. -/
def loadKallsyms : List KallsymLine → (String → List ℕ) → String → List ℕ
  | [], kallsyms => kallsyms
  | line :: lines, kallsyms =>
    if line.name = "kern_path" ∧ line.type ≠ 'T' then loadKallsyms lines kallsyms
    else if '.' ∈ line.name.toList then loadKallsyms lines kallsyms
    else if line.module.isSome then kallsyms
    else loadKallsyms lines
      (Function.update kallsyms line.name (kallsyms line.name ++ [line.addr]))

/-- The reasons why `resolve_ref` gives up. -/
inductive ResolveError where
  | ambiguous (name : String)
  | missing (name : String)
  deriving DecidableEq

/-- A symbol of the module. -/
structure ModSym where
  name : String
  undef : Bool
  value : ℕ
  deriving DecidableEq

/-- `__orig_` anywhere in a name removes as many letters at its head. -/
def stripOrig (name : String) : String :=
  if "__orig_".toList <:+: name.toList then
    String.ofList (name.toList.drop "__orig_".length)
  else name

/-- The address for a reference, if it is one to the kernel. -/
def resolveSym (kallsyms : String → List ℕ) (symposes : String → Option ℕ) (ref : String) :
    Except ResolveError (Option ℕ) :=
  let name := stripOrig ref
  let kallsym := kallsyms name
  let sympos := (symposes name).getD 0
  if kallsym = [] then .ok none
  else if sympos = 0 ∧ 1 < kallsym.length then .error (.ambiguous name)
  else if 0 < sympos ∧ kallsym.length < sympos then .error (.missing name)
  else .ok kallsym[sympos - 1]?

/-- The loop body of `resolve_ref`. -/
def resolveOne (kallsyms : String → List ℕ) (symposes : String → Option ℕ) (sym : ModSym) :
    Except ResolveError ModSym := do
  if !sym.undef then return sym
  match ← resolveSym kallsyms symposes sym.name with
  | none => return sym
  | some value => return { sym with undef := false, value }

/-- `resolve_ref`, on the symbols of the module. -/
def resolveRef (kallsyms : String → List ℕ) (symposes : String → Option ℕ)
    (syms : List ModSym) : Except ResolveError (List ModSym) :=
  syms.mapM (resolveOne kallsyms symposes)

/-- A reference is bound to the address at its position. -/
theorem resolveSym_of_getElem? {kallsyms : String → List ℕ} {symposes : String → Option ℕ}
    {ref : String} {k addr : ℕ} (hpos : symposes (stripOrig ref) = some k) (hk : k ≠ 0)
    (haddr : (kallsyms (stripOrig ref))[k - 1]? = some addr) :
    resolveSym kallsyms symposes ref = .ok (some addr) := by
  have hlt := (List.getElem?_eq_some_iff.mp haddr).1
  have hne : kallsyms (stripOrig ref) ≠ [] := List.ne_nil_of_length_pos (by omega)
  rw [resolveSym, hpos, Option.getD_some, if_neg hne, if_neg (by omega), if_neg (by omega), haddr]

/-- After a successful run the symbol holds this address. -/
theorem resolveRef_getElem? {kallsyms : String → List ℕ} {symposes : String → Option ℕ}
    {syms syms' : List ModSym} {i k addr : ℕ} {sym : ModSym}
    (h : resolveRef kallsyms symposes syms = .ok syms') (hi : syms[i]? = some sym)
    (hundef : sym.undef = true) (hpos : symposes (stripOrig sym.name) = some k) (hk : k ≠ 0)
    (haddr : (kallsyms (stripOrig sym.name))[k - 1]? = some addr) :
    syms'[i]? = some { sym with undef := false, value := addr } := by
  obtain ⟨sym', hsym', hone⟩ := mapM_ok_getElem? h hi
  rw [resolveOne, resolveSym_of_getElem? hpos hk haddr, hundef] at hone
  cases hone
  exact hsym'

/-! ### The addresses of a name -/

/-- The line is kept for the name `n`. -/
def KallsymLine.keptFor (n : String) (line : KallsymLine) : Bool :=
  line.name = n ∧ (n = "kern_path" → line.type = 'T')

theorem loadKallsyms_modules {modules : List KallsymLine}
    (h : ∀ line ∈ modules, line.module.isSome = true) (kallsyms : String → List ℕ) :
    loadKallsyms modules kallsyms = kallsyms := by
  induction modules with
  | nil => rfl
  | cons line modules ih =>
    obtain ⟨hline, hrest⟩ := List.forall_mem_cons.mp h
    rw [loadKallsyms, ih hrest, if_pos hline, ite_self, ite_self]

/-- The addresses that are kept for a name are those of its lines before the modules. -/
theorem loadKallsyms_eq {kernel modules : List KallsymLine} {n : String}
    (hn : '.' ∉ n.toList) (hkernel : ∀ line ∈ kernel, line.module = none)
    (hmodules : ∀ line ∈ modules, line.module.isSome = true) (kallsyms : String → List ℕ) :
    loadKallsyms (kernel ++ modules) kallsyms n =
      kallsyms n ++ (kernel.filter (KallsymLine.keptFor n)).map KallsymLine.addr := by
  induction kernel generalizing kallsyms with
  | nil => simp [loadKallsyms_modules hmodules]
  | cons line kernel ih =>
    obtain ⟨hline, hrest⟩ := List.forall_mem_cons.mp hkernel
    rw [List.cons_append, loadKallsyms, hline]
    by_cases hskip : line.name = "kern_path" ∧ line.type ≠ 'T'
    · have hkept : line.keptFor n = false := by
        simp only [KallsymLine.keptFor, decide_eq_false_iff_not]
        rintro ⟨rfl, htype⟩
        exact hskip.2 (htype hskip.1)
      rw [if_pos hskip, ih hrest, List.filter_cons, hkept, if_neg Bool.false_ne_true]
    rw [if_neg hskip]
    by_cases hdot : '.' ∈ line.name.toList
    · have hkept : line.keptFor n = false := by
        simp only [KallsymLine.keptFor, decide_eq_false_iff_not]
        rintro ⟨rfl, -⟩
        exact hn hdot
      rw [if_pos hdot, ih hrest, List.filter_cons, hkept, if_neg Bool.false_ne_true]
    rw [if_neg hdot, if_neg (by simp), ih hrest]
    by_cases hname : line.name = n
    · subst hname
      have hkept : line.keptFor line.name = true := by
        rw [KallsymLine.keptFor, decide_eq_true_iff]
        exact ⟨rfl, fun hkern => by_contra fun htype => hskip ⟨hkern, htype⟩⟩
      rw [Function.update_self, List.filter_cons, hkept, if_pos rfl, List.map_cons,
        List.append_assoc, List.singleton_append]
    · have hkept : line.keptFor n = false := by
        simp only [KallsymLine.keptFor, decide_eq_false_iff_not]
        exact fun h => hname h.1
      rw [Function.update_of_ne (Ne.symm hname), List.filter_cons, hkept,
        if_neg Bool.false_ne_true]

/-! ### Both numberings -/

/-- `/proc/kallsyms` lists the symbol; `FILE` and `SECTION` are none of the kernel's. -/
def Sym.listed (s : Sym) : Bool := s.symtype ≠ .file ∧ s.symtype ≠ .sect

/-- The line of a symbol, with its letter. -/
def kallsymLine (letter : Sym → Char) (s : Sym) : KallsymLine where
  addr := s.addr
  type := letter s
  name := s.name
  module := none

/-- The symbols of the kernel in ascending order, then those of modules. -/
def KallsymsOf (letter : Sym → Char) (table : List Sym) (lines : List KallsymLine) : Prop :=
  ∃ kernel modules, lines = kernel ++ modules ∧
    kernel.Perm ((table.filter Sym.listed).map (kallsymLine letter)) ∧
    kernel.Pairwise (fun a b => a.addr ≤ b.addr) ∧ ∀ line ∈ modules, line.module.isSome = true

/-- Local functions of one name are listed in ascending order. -/
def LocalsAscend (table : List Sym) : Prop :=
  ∀ n, (table.filter (Sym.isLocalFunc n)).Pairwise fun s t => s.addr < t.addr

/-- The symbol is kept for the name `n`. -/
def Sym.keptFor (letter : Sym → Char) (n : String) (s : Sym) : Bool :=
  s.listed && (kallsymLine letter s).keptFor n

/-- The address stored at the position is that of the function, and `resolve_ref` writes
it into the undefined symbols of this name. -/
structure BoundTo (lines : List KallsymLine) (n : String) (k : ℕ) (s : Sym) : Prop where
  stored : (loadKallsyms lines (fun _ => []) n)[k - 1]? = some s.addr
  written : ∀ (symposes : String → Option ℕ) (syms syms' : List ModSym), symposes n = some k →
    resolveRef (loadKallsyms lines fun _ => []) symposes syms = .ok syms' →
    ∀ (i : ℕ) (sym : ModSym), syms[i]? = some sym → sym.undef = true → stripOrig sym.name = n →
      syms'[i]? = some { sym with undef := false, value := s.addr }

/-- Only local functions of this name are at lower addresses.  For the one name of which
most symbols are skipped, the number of those that are kept has to fit instead. -/
def PositionsAgree (letter : Sym → Char) (table : List Sym) (n : String) (k : ℕ) (s : Sym) :
    Prop :=
  if n = "kern_path" then
    table.countP (fun t => t.keptFor letter n && t.addr < s.addr) < k ∧
      k ≤ table.countP (fun t => t.keptFor letter n && t.addr ≤ s.addr)
  else ∀ t ∈ table, t.listed = true → t.name = n → t.addr < s.addr → t.isLocalFunc n = true

section Positions

variable {letter : Sym → Char} {table : List Sym} {lines : List KallsymLine} {n : String}
  {k : ℕ} {s : Sym}

/-- The place of an address among those that are kept. -/
theorem stored_iff_countP (hlines : KallsymsOf letter table lines) (hn : '.' ∉ n.toList)
    (addr : ℕ) : (loadKallsyms lines (fun _ => []) n)[k]? = some addr ↔
      table.countP (fun t => t.keptFor letter n && t.addr < addr) ≤ k ∧
        k < table.countP (fun t => t.keptFor letter n && t.addr ≤ addr) := by
  obtain ⟨kernel, modules, rfl, hperm, hsorted, hmodules⟩ := hlines
  have hkernel : ∀ line ∈ kernel, line.module = none := by
    intro line hline
    obtain ⟨t, -, rfl⟩ := List.mem_map.mp (hperm.mem_iff.mp hline)
    rfl
  have hcount : ∀ p : ℕ → Bool,
      ((kernel.filter (KallsymLine.keptFor n)).map KallsymLine.addr).countP p =
        table.countP fun t => t.keptFor letter n && p t.addr := by
    intro p
    rw [List.countP_map, List.countP_filter, hperm.countP_eq, List.countP_map, List.countP_filter]
    refine List.countP_congr fun t _ => ?_
    simp only [Sym.keptFor, kallsymLine, Function.comp_apply, Bool.and_eq_true]
    tauto
  have hsorted' : ((kernel.filter (KallsymLine.keptFor n)).map KallsymLine.addr).Pairwise
      (· ≤ ·) := List.pairwise_map.mpr (hsorted.filter _)
  rw [loadKallsyms_eq hn hkernel hmodules, List.nil_append,
    getElem?_eq_some_iff_countP hsorted', hcount, hcount]

/-- For most names local functions are kept, so the place is right if nothing else is kept
below. -/
theorem place_iff (hasc : LocalsAscend table) (hn : n ≠ "kern_path") {i : ℕ}
    (hs : (table.filter (Sym.isLocalFunc n))[i]? = some s) :
    (table.countP (fun t => t.keptFor letter n && t.addr < s.addr) ≤ i ∧
        i < table.countP (fun t => t.keptFor letter n && t.addr ≤ s.addr)) ↔
      ∀ t ∈ table, t.listed = true → t.name = n → t.addr < s.addr → t.isLocalFunc n = true := by
  have hkept : ∀ t : Sym, t.keptFor letter n = true ↔ t.listed = true ∧ t.name = n := by
    intro t
    simp [Sym.keptFor, KallsymLine.keptFor, kallsymLine, hn]
  have hlocal : ∀ t : Sym, t.isLocalFunc n = true → t.keptFor letter n = true := by
    intro t ht
    simp only [Sym.isLocalFunc, Sym.isFunc, Bool.and_eq_true, decide_eq_true_eq] at ht
    exact (hkept t).mpr ⟨by simp [Sym.listed, ht.1.1], ht.1.2.2⟩
  -- the function has `i` local functions of its name below it
  have hstrict : ((table.filter (Sym.isLocalFunc n)).map Sym.addr).Pairwise (· < ·) :=
    List.pairwise_map.mpr (hasc n)
  have hget : ((table.filter (Sym.isLocalFunc n)).map Sym.addr)[i]? = some s.addr := by
    rw [List.getElem?_map, hs]
    rfl
  have hlt : table.countP (fun t => decide (t.addr < s.addr) && t.isLocalFunc n) = i := by
    rw [← countP_lt_of_getElem? hstrict hget, List.countP_map, List.countP_filter]
    rfl
  have hle : i < table.countP (fun t => decide (t.addr ≤ s.addr) && t.isLocalFunc n) := by
    have hplace := ((getElem?_eq_some_iff_countP (hstrict.imp le_of_lt)).mp hget).2
    rwa [List.countP_map, List.countP_filter] at hplace
  have habove : i < table.countP (fun t => t.keptFor letter n && t.addr ≤ s.addr) := by
    refine hle.trans_le (List.countP_mono_left fun t _ ht => ?_)
    rw [Bool.and_eq_true] at ht ⊢
    exact ⟨hlocal t ht.2, ht.1⟩
  rw [and_iff_left habove]
  nth_rewrite 1 [← hlt]
  rw [countP_le_countP_iff]
  · simp only [Bool.and_eq_true, decide_eq_true_eq, hkept]
    exact forall₂_congr fun t _ =>
      ⟨fun h hl hname hbelow => (h ⟨⟨hl, hname⟩, hbelow⟩).2,
        fun h hall => ⟨hall.2, h hall.1.1 hall.1.2 hall.2⟩⟩
  · intro t _ ht
    rw [Bool.and_eq_true] at ht ⊢
    exact ⟨hlocal t ht.2, ht.1⟩

end Positions

/-- **The two numberings.**  A symbol position that was counted to `k` at a local function
leads to its address exactly if only local functions of its name lie below it. -/
theorem positionsAgree_iff (config : Config) (fns : Finset Signature) (table : List Sym)
    (info : VmlinuxInfo) (letter : Sym → Char) (lines : List KallsymLine)
    (hinfo : findInVmlinux config fns (elfLines table) = .ok info)
    (hlines : KallsymsOf letter table lines) (hasc : LocalsAscend table) :
    ∀ sig k, info.localSympos sig = some k →
      ∃ s, (table.filter (Sym.isLocalFunc sig.1))[k - 1]? = some s ∧
        (BoundTo lines sig.1 k s ↔ PositionsAgree letter table sig.1 k s) := by
  intro sig k hpos
  rw [localSympos_eq hinfo] at hpos
  obtain ⟨x, hget, -, hk⟩ := getElem?_lastPos hpos
  have hs : (table.filter (Sym.isLocalFunc sig.1))[k - 1]? = some x.2 := by
    rw [← localFuncs_snd config sig.1 none table, List.getElem?_map, hget]
    rfl
  have hn : '.' ∉ sig.1.toList := by
    have hfunc := (List.mem_filter.mp (List.mem_of_getElem? hs)).2
    simp only [Sym.isLocalFunc, Sym.isFunc, Bool.and_eq_true, decide_eq_true_eq] at hfunc
    exact hfunc.1.2.1
  refine ⟨x.2, hs, ?_⟩
  have hbound : BoundTo lines sig.1 k x.2 ↔
      (loadKallsyms lines (fun _ => []) sig.1)[k - 1]? = some x.2.addr := by
    constructor
    · exact BoundTo.stored
    · intro hstored
      refine ⟨hstored, fun symposes syms syms' hsym hresolve i sym hi hundef hname => ?_⟩
      rw [← hname] at hsym hstored
      exact resolveRef_getElem? hresolve hi hundef hsym hk hstored
  rw [hbound, stored_iff_countP hlines hn, PositionsAgree]
  by_cases hkern : sig.1 = "kern_path"
  · rw [if_pos hkern]
    omega
  · rw [if_neg hkern]
    exact place_iff hasc hkern hs

/-- A table with its lines of `/proc/kallsyms`. -/
def kallsymsOfTable (table : List Sym) : List KallsymLine :=
  (table.filter Sym.listed).map (kallsymLine fun s => if s.scope = .loc then 't' else 'T')

theorem kallsymsOf_table {table : List Sym}
    (h : (kallsymsOfTable table).Pairwise fun a b => a.addr ≤ b.addr) :
    KallsymsOf (fun s => if s.scope = .loc then 't' else 'T') table (kallsymsOfTable table) :=
  ⟨_, [], (List.append_nil _).symm, List.Perm.refl _, h, by simp⟩

theorem localsAscend_of_pairwise {table : List Sym}
    (h : (table.filter fun s => s.symtype = .func ∧ s.scope = .loc).Pairwise
      fun s t => s.addr < t.addr) : LocalsAscend table := by
  intro n
  refine h.sublist (List.monotone_filter_right _ fun s hs => ?_)
  simp only [Sym.isLocalFunc, Sym.isFunc, Bool.and_eq_true, decide_eq_true_eq] at hs ⊢
  exact ⟨hs.1.1, hs.2⟩

/-- `update_load` of another file is local. -/
def localTable : List Sym :=
  [fileSym "mm/vmscan.c", funcSym .loc "update_load" "mm/vmscan.c" 0x1000,
    fileSym "kernel/sched/core.c", funcSym .loc "update_load" "kernel/sched/core.c" 0x2000,
    funcSym .global "schedule" "kernel/sched/core.c" 0x3000]

/-- Here it is global, and so it stands at the end of the table. -/
def globalTable : List Sym :=
  [fileSym "kernel/sched/core.c", funcSym .loc "update_load" "kernel/sched/core.c" 0x2000,
    funcSym .global "update_load" "mm/vmscan.c" 0x1000]

/-- The lines of `globalTable`, in ascending order. -/
def globalLines : List KallsymLine :=
  [⟨0x1000, 'T', "update_load", none⟩, ⟨0x2000, 't', "update_load", none⟩]

/-- Both ways of counting lead to the second `update_load`. -/
theorem positionsAgree_iff_local :
    ∃ info, findInVmlinux smallConfig {("update_load", "kernel/sched/core.c")}
        (elfLines localTable) = .ok info ∧
      info.localSympos ("update_load", "kernel/sched/core.c") = some 2 ∧
      BoundTo (kallsymsOfTable localTable) "update_load" 2
        (funcSym .loc "update_load" "kernel/sched/core.c" 0x2000) := by
  refine ⟨_, rfl, by decide, ?_⟩
  obtain ⟨s, hs, hiff⟩ := positionsAgree_iff smallConfig {("update_load", "kernel/sched/core.c")}
    localTable _ _ (kallsymsOfTable localTable) rfl (kallsymsOf_table (by decide))
    (localsAscend_of_pairwise (by decide)) ("update_load", "kernel/sched/core.c") 2 (by decide)
  obtain rfl : s = funcSym .loc "update_load" "kernel/sched/core.c" 0x2000 :=
    Option.some.inj (hs.symm.trans (by decide))
  exact hiff.mpr (by unfold PositionsAgree; decide)

/-- The position of `update_load` of the scheduler is 1, but the first address of the name
is that of the global function. -/
theorem global_namesake_bound :
    ∃ info, findInVmlinux smallConfig {("update_load", "kernel/sched/core.c")}
        (elfLines globalTable) = .ok info ∧
      KallsymsOf (fun s => if s.scope = .loc then 't' else 'T') globalTable globalLines ∧
      LocalsAscend globalTable ∧
      info.localSympos ("update_load", "kernel/sched/core.c") = some 1 ∧
      (globalTable.filter (Sym.isLocalFunc "update_load"))[0]? =
        some (funcSym .loc "update_load" "kernel/sched/core.c" 0x2000) ∧
      resolveRef (loadKallsyms globalLines fun _ => [])
        (fun name => if name = "update_load" then some 1 else none)
        [⟨"update_load", true, 0⟩] = .ok [⟨"update_load", false, 0x1000⟩] ∧
      ¬ BoundTo globalLines "update_load" 1
        (funcSym .loc "update_load" "kernel/sched/core.c" 0x2000) := by
  refine ⟨_, rfl, ⟨globalLines, [], rfl, ?_, by decide, by simp⟩,
    localsAscend_of_pairwise (by decide), by decide, by decide, by decide, fun hbound => ?_⟩
  · exact List.Perm.swap _ _ []
  · exact absurd hbound.stored (by decide)

end Plugsched
