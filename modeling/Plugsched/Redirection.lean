/-
From the analysis of vmlinux to the installed jumps.

`analyze.py` writes the functions to redirect into `export_jump.h` and their symbol
positions into `undefined_functions.h`.  The macros of `head_jump.h` make of a line an
undefined symbol `__orig_fn` and a reference to the function of the module,
`symbol_resolve` gives the first an address, and the jump is written there.

* `readEntry_entryOf`, `mem_header` — the lines as the macros read them;
* `reading_iff` — when the address that is found for a name is that of the function;
* `LoadedFn.orig_iff` — the address behind `__orig_fn` once the module is loaded;
* `redirection_iff` — when the jumps are written where the functions are.
-/
import Plugsched.ExportEntries
import Plugsched.ResolveRef
import Plugsched.UndefinedFunctions

open ByteMem ExceptRules ListRank

namespace Plugsched

/-! ### The lines of the header -/

/-- A line of `export_jump.h` as the macros see it: which of the two it is, and the first
argument. -/
structure ExportEntry where
  callback : Bool
  fn : String
  deriving DecidableEq

/-- What the preprocessor finds in a line, for the definitions of `EXPORT_CALLBACK` and
`EXPORT_PLUGSCHED` that are in force in `jump_init_all`. -/
def readEntry (line : String) : Option ExportEntry :=
  let kind := line.toList.takeWhile (· ≠ '(')
  let args := (line.toList.dropWhile (· ≠ '(')).drop 1
  let fn := String.ofList (args.takeWhile (· ≠ ','))
  if kind = "EXPORT_CALLBACK".toList then some ⟨true, fn⟩
  else if kind = "EXPORT_PLUGSCHED".toList then some ⟨false, fn⟩
  else none

/-- `__orig_##func`. -/
def ExportEntry.origName (e : ExportEntry) : String := "__orig_" ++ e.fn

/-- `prefix##func`. -/
def ExportEntry.modName (e : ExportEntry) : String := if e.callback then "__cb_" ++ e.fn else e.fn

/-! ### The module -/

/-- Where a symbol of the module is, with its sections at these addresses. -/
def symAddr (sections : ℕ → ℕ) (sym : ElfSym) : ℕ :=
  if sym.stShndx = SHN_ABS then sym.stValue else sections sym.stShndx + sym.stValue

/-- The module declares the kernel's functions and defines its own. -/
structure Compiles (entries : List ExportEntry) (file : ElfFile) : Prop where
  named : file.Named
  origs : ∀ e ∈ entries, ∀ sym ∈ file.symtab, file.strtab sym.stName = some e.origName →
    sym.stShndx = SHN_UNDEF
  mods : ∀ e ∈ entries, ∀ sym ∈ file.symtab, file.strtab sym.stName = some e.modName →
    sym.stShndx ≠ SHN_UNDEF

/-- The addresses of `__orig_##func` and `prefix##func` in the loaded module.  A module that
has undefined symbols left is not loaded. -/
structure LoadedFn (sections : ℕ → ℕ) (file : ElfFile) (e : ExportEntry) (f : ExportFn) :
    Prop where
  name : f.name = e.fn
  orig : ∃ sym ∈ file.symtab, file.strtab sym.stName = some e.origName ∧
    sym.stShndx ≠ SHN_UNDEF ∧ f.orig = symAddr sections sym
  mod : ∃ sym ∈ file.symtab, file.strtab sym.stName = some e.modName ∧
    sym.stShndx ≠ SHN_UNDEF ∧ f.mod = symAddr sections sym

/-! ### The way of a function -/

/-- What the tools make of a vmlinux with this symbol table: the classes, the two headers,
and the module before and after its references are resolved.  The table in
`undefined_functions.h` is taken as complete, which not every accepted analysis makes it. -/
structure Built (config : Config) (limit : ℕ) (metas : List Meta) (table : List Sym)
    (fc : FuncClass) (lines : List KallsymLine) (header : List String) (file file' : ElfFile) :
    Prop where
  accepts : Accepts config limit metas (elfLines table) fc
  generates : ∃ fns entries, Generates fc config metas fns entries ∧
    ∀ line, line ∈ header ↔ line ∈ entries
  complete : CompleteTable config metas fc
  compiles : Compiles (header.filterMap readEntry) file
  resolves : ∃ und : List (String × ℕ), (∀ e, e ∈ und ↔ e ∈ fc.undefinedFunctions) ∧
    resolveElf (loadKallsyms lines fun _ => []) (symposes und) file = (.ok (), file')

/-- The position leads to this symbol: a global function has no namesake at all, a local
one none but local functions at lower addresses. -/
def Placed (letter : Sym → Char) (table : List Sym) (n : String) (pos : ℕ) (s : Sym) : Prop :=
  if pos = 0 then (table.filter (Sym.keptFor letter n)).map Sym.addr = [s.addr]
  else PositionsAgree letter table n pos s

/-- The code at this address begins with the jump to the module's own definition of the
function. -/
def Reaches {A : Arch} (fc : FuncClass) (file : ElfFile) (sections : ℕ → ℕ)
    (jumps : List (Jump A)) (text : Mem Byte) (sig : Signature) (addr : ℕ) : Prop :=
  ∃ j ∈ jumps, ∃ sym ∈ file.symtab,
    file.strtab sym.stName = some (ExportEntry.modName ⟨decide (sig ∈ fc.callback), sig.1⟩) ∧
    sym.stShndx ≠ SHN_UNDEF ∧ j.fn = ⟨sig.1, addr, symAddr sections sym⟩ ∧
    jumpInitFunc A text j.fn = .ok j ∧
    readBytes (jumpInstall jumps text) addr A.headLen = j.storeJump

section Header

variable {fc : FuncClass} {decls : Signature → Option FnDecl} {sig : Signature}

/-- Up to the parenthesis and from there to the comma. -/
theorem readEntry_formatEntry {kind : String} {d : DeclStr} (hkind : '(' ∉ kind.toList)
    (hd : ',' ∉ d.fn.toList) : readEntry (formatEntry kind d) =
      if kind.toList = "EXPORT_CALLBACK".toList then some ⟨true, d.fn⟩
      else if kind.toList = "EXPORT_PLUGSCHED".toList then some ⟨false, d.fn⟩
      else none := by
  obtain ⟨rest, hrest⟩ := toList_formatEntry kind d
  have hne : ∀ c ∈ kind.toList, decide (c ≠ '(') = true := by
    intro c hc
    rw [decide_eq_true_eq]
    rintro rfl
    exact hkind hc
  have hsplit : (formatEntry kind d).toList =
      kind.toList ++ '(' :: (d.fn.toList ++ ',' :: rest) := by
    rw [hrest, String.toList_append, List.append_assoc]
    rfl
  have hfn : (d.fn.toList ++ ',' :: rest).takeWhile (· ≠ ',') = d.fn.toList := by
    have hnil : ',' ∉ ([] : List Char) := List.not_mem_nil
    exact takeWhile_entry rest hnil hd
  have hkindTake : (kind.toList ++ '(' :: (d.fn.toList ++ ',' :: rest)).takeWhile (· ≠ '(') =
      kind.toList := by
    rw [List.takeWhile_append_of_pos hne, List.takeWhile_cons_of_neg (by decide), List.append_nil]
  have hkindDrop : (kind.toList ++ '(' :: (d.fn.toList ++ ',' :: rest)).dropWhile (· ≠ '(') =
      '(' :: (d.fn.toList ++ ',' :: rest) := by
    rw [List.dropWhile_append_of_pos hne, List.dropWhile_cons_of_neg (by decide)]
  rw [readEntry, hsplit]
  simp only [hkindTake, hkindDrop, List.drop_succ_cons, List.drop_zero, hfn, String.ofList_toList]

/-- The line of a function says what it is and its name. -/
theorem readEntry_entryOf (hkey : Keyed decls) (hsig : HasDecl decls sig) :
    readEntry (entryOf fc decls sig) = some ⟨decide (sig ∈ fc.callback), sig.1⟩ := by
  obtain ⟨decl, d, hdecl, hd⟩ := hsig
  have hname := decl.named d hd
  have hcomma := decl.ident
  rw [hkey sig decl hdecl] at hname hcomma
  rw [← hname] at hcomma
  rw [entryOf_eq hdecl hd]
  by_cases hcb : sig ∈ fc.callback
  · rw [if_pos hcb, cbFmt, readEntry_formatEntry (by decide) hcomma, if_pos rfl, hname,
      decide_eq_true hcb]
  · rw [if_neg hcb, exportFmt, readEntry_formatEntry (by decide) hcomma, if_neg (by decide),
      if_pos rfl, hname, decide_eq_false hcb]

/-- The entries are those of the redirected functions. -/
theorem mem_header {entries : Finset String} {header : List String}
    (hw : Written fc decls entries) (hkey : Keyed decls)
    (hheader : ∀ line, line ∈ header ↔ line ∈ entries) (e : ExportEntry) :
    e ∈ header.filterMap readEntry ↔
      ∃ sig ∈ fc.redirected, e = ⟨decide (sig ∈ fc.callback), sig.1⟩ := by
  rw [List.mem_filterMap]
  constructor
  · rintro ⟨line, hline, hread⟩
    obtain ⟨sig, hsig, rfl⟩ := (hw.mem line).mp ((hheader line).mp hline)
    rw [readEntry_entryOf hkey (hw.hasDecl sig hsig)] at hread
    exact ⟨sig, hsig, (Option.some.inj hread).symm⟩
  · rintro ⟨sig, hsig, rfl⟩
    exact ⟨entryOf fc decls sig, (hheader _).mpr ((hw.mem _).mpr ⟨sig, hsig, rfl⟩),
      readEntry_entryOf hkey (hw.hasDecl sig hsig)⟩

end Header

/-! ### The address that is found -/

section Address

variable {letter : Sym → Char} {table : List Sym} {lines : List KallsymLine} {n : String}
  {s : Sym} {symposes : String → Option ℕ}

/-- The kept addresses of a name are those of its symbols. -/
theorem loadKallsyms_perm (hlines : KallsymsOf letter table lines) (hn : '.' ∉ n.toList) :
    (loadKallsyms lines (fun _ => []) n).Perm
      ((table.filter (Sym.keptFor letter n)).map Sym.addr) := by
  obtain ⟨kernel, modules, rfl, hperm, -, hmodules⟩ := hlines
  have hkernel : ∀ line ∈ kernel, line.module = none := by
    intro line hline
    obtain ⟨t, -, rfl⟩ := List.mem_map.mp (hperm.mem_iff.mp hline)
    rfl
  have hsame : (((table.filter Sym.listed).map (kallsymLine letter)).filter
      (KallsymLine.keptFor n)).map KallsymLine.addr =
        (table.filter (Sym.keptFor letter n)).map Sym.addr := by
    rw [List.filter_map, List.map_map, List.filter_filter]
    refine congrArg₂ List.map rfl (List.filter_congr fun t _ => ?_)
    exact Bool.and_comm _ _
  rw [loadKallsyms_eq hn hkernel hmodules, List.nil_append, ← hsame]
  exact (hperm.filter _).map _

/-- Without a position there has to be a single address. -/
theorem reading_zero_iff {kallsyms : String → List ℕ} (hpos : symposes n = some 0) {addr : ℕ} :
    reading kallsyms symposes n = .address addr ↔ kallsyms n = [addr] := by
  rcases haddrs : kallsyms n with _ | ⟨addr', _ | ⟨addr'', addrs⟩⟩
  · simp [reading, hpos, haddrs]
  · simp [reading, hpos, haddrs]
  · simp [reading, hpos, haddrs]

theorem reading_succ_iff {kallsyms : String → List ℕ} {k : ℕ} (hpos : symposes n = some (k + 1))
    {addr : ℕ} :
    reading kallsyms symposes n = .address addr ↔ (kallsyms n)[k]? = some addr := by
  by_cases hnil : kallsyms n = []
  · simp [reading, hpos, hnil]
  · cases haddr : (kallsyms n)[k]? with
    | none => simp [reading, hpos, hnil, haddr]
    | some addr' => simp [reading, hpos, hnil, haddr]

/-- The name stands for the address of the function that its position designates, exactly
if the symbol is placed accordingly. -/
theorem reading_iff (hlines : KallsymsOf letter table lines) (hasc : LocalsAscend table) {pos : ℕ}
    (hpos : symposes n = some pos) (hs : designated table n pos = some s) :
    reading (loadKallsyms lines fun _ => []) symposes n = .address s.addr ↔
      Placed letter table n pos s := by
  obtain ⟨-, hfunc⟩ := mem_of_designated hs
  have hn : '.' ∉ n.toList := by
    simp only [Sym.isFunc, decide_eq_true_eq] at hfunc
    exact hfunc.2.1
  rw [Placed]
  cases pos with
  | zero =>
    rw [if_pos rfl, reading_zero_iff hpos, ← List.perm_singleton,
      (loadKallsyms_perm hlines hn).congr_left, List.perm_singleton]
  | succ k =>
    have hlocal : (table.filter (Sym.isLocalFunc n))[k]? = some s := by
      rw [designated, if_neg (Nat.succ_ne_zero k)] at hs
      exact hs
    rw [if_neg (Nat.succ_ne_zero k), reading_succ_iff hpos, stored_iff_countP hlines hn,
      PositionsAgree]
    by_cases hkern : n = "kern_path"
    · rw [if_pos hkern, Nat.lt_succ_iff, Nat.succ_le_iff]
    · rw [if_neg hkern]
      exact place_iff hasc hkern hlocal

end Address

/-! ### The loaded module -/

section Loaded

variable {kallsyms : String → List ℕ} {symposes : String → Option ℕ} {entries : List ExportEntry}
  {file file' : ElfFile} {sections : ℕ → ℕ} {e : ExportEntry} {f : ExportFn}

theorem stripOrig_origName (e : ExportEntry) : stripOrig e.origName = e.fn := by
  have hname : e.origName.toList = "__orig_".toList ++ e.fn.toList := String.toList_append
  have hin : "__orig_".toList <:+: e.origName.toList := by
    rw [hname]
    exact (List.prefix_append _ _).isInfix
  have hcode : stripOrig e.origName =
      String.ofList (e.origName.toList.drop "__orig_".length) := if_pos hin
  have hlen : "__orig_".length = "__orig_".toList.length := String.length_toList.symm
  rw [hcode, hname, hlen, List.drop_left]
  exact String.ofList_toList

/-- A run that does not abort rewrites the symbols one by one. -/
theorem symtab_of_resolveElf (hnamed : file.Named)
    (h : resolveElf kallsyms symposes file = (.ok (), file')) :
    file' =
      { file with
        symtab := file.symtab.map (resolved kallsyms symposes stripOrig file.strtab) } := by
  have hfits := resolveElf_fits kallsyms symposes hnamed
  rw [h] at hfits
  by_cases hun : Unresolvable kallsyms symposes stripOrig file
  · obtain ⟨⟨err, herr⟩, -⟩ := hfits.aborts hun
    cases herr
  · exact (hfits.rewrites hun).2

/-- Behind `__orig_fn` is the address that the name stands for. -/
theorem LoadedFn.orig_iff (hc : Compiles entries file) (he : e ∈ entries)
    (h : resolveElf kallsyms symposes file = (.ok (), file'))
    (hf : LoadedFn sections file' e f) (addr : ℕ) :
    f.orig = addr ↔ reading kallsyms symposes e.fn = .address addr := by
  obtain ⟨sym', hsym', hname, hdef, horig⟩ := hf.orig
  rw [symtab_of_resolveElf hc.named h] at hsym' hname
  obtain ⟨sym, hsym, rfl⟩ := List.mem_map.mp hsym'
  have hname' : file.strtab sym.stName = some e.origName := by
    rw [← hname]
    show _ = file.strtab (resolved kallsyms symposes stripOrig file.strtab sym).stName
    rw [resolved]
    split
    · split <;> rfl
    · rfl
  have hundef := hc.origs e he sym hsym hname'
  rw [resolved, if_pos hundef, hname', Option.map_some, stripOrig_origName] at hdef horig
  cases hread : reading kallsyms symposes e.fn with
  | absent =>
    rw [hread] at hdef
    exact absurd hundef hdef
  | unresolvable =>
    rw [hread] at hdef
    exact absurd hundef hdef
  | address addr' =>
    rw [hread] at horig
    have hvalue : f.orig = addr' := horig
    rw [hvalue, Reading.address.injEq]

/-- `prefix##func` is the module's own definition. -/
theorem LoadedFn.mod_defined (hc : Compiles entries file) (he : e ∈ entries)
    (h : resolveElf kallsyms symposes file = (.ok (), file'))
    (hf : LoadedFn sections file' e f) : ∃ sym ∈ file.symtab,
      file.strtab sym.stName = some e.modName ∧ sym.stShndx ≠ SHN_UNDEF ∧
        f.mod = symAddr sections sym := by
  obtain ⟨sym', hsym', hname, -, hmod⟩ := hf.mod
  rw [symtab_of_resolveElf hc.named h] at hsym' hname
  obtain ⟨sym, hsym, rfl⟩ := List.mem_map.mp hsym'
  have hname' : file.strtab sym.stName = some e.modName := by
    rw [← hname]
    show _ = file.strtab (resolved kallsyms symposes stripOrig file.strtab sym).stName
    rw [resolved]
    split
    · split <;> rfl
    · rfl
  have hdef := hc.mods e he sym hsym hname'
  rw [resolved, if_neg hdef] at hmod
  exact ⟨sym, hsym, hname', hdef, hmod⟩

end Loaded

/-! ### The jumps -/

section Jumps

variable {config : Config} {limit : ℕ} {metas : List Meta} {letter : Sym → Char}
  {table : List Sym} {fc : FuncClass} {lines : List KallsymLine} {header : List String}
  {file file' : ElfFile} {sections : ℕ → ℕ} {exports : List ExportFn} {sig : Signature}

theorem Built.mem_entries (h : Built config limit metas table fc lines header file file')
    (e : ExportEntry) : e ∈ header.filterMap readEntry ↔
      ∃ sig ∈ fc.redirected, e = ⟨decide (sig ∈ fc.callback), sig.1⟩ := by
  obtain ⟨fns, entries, hgen, hheader⟩ := h.generates
  exact mem_header (written_of_generates h.accepts.analyzed hgen) (keyed_declsOf config fns)
    hheader e

/-- Where the macros find a redirected function. -/
theorem Built.orig_iff (h : Built config limit metas table fc lines header file file')
    (hlines : KallsymsOf letter table lines) (hasc : LocalsAscend table)
    (hsig : sig ∈ fc.redirected) {s : Sym}
    (hs : designated table sig.1 (fc.sympos sig) = some s) {e : ExportEntry}
    (he : e ∈ header.filterMap readEntry) (hname : e.fn = sig.1) {f : ExportFn}
    (hf : LoadedFn sections file' e f) :
    f.orig = s.addr ↔ Placed letter table sig.1 (fc.sympos sig) s := by
  obtain ⟨und, hund, hres⟩ := h.resolves
  have hpos : symposes und sig.1 = some (fc.sympos sig) :=
    symposes_eq h.complete hund (Finset.mem_union_right _ hsig)
  rw [hf.orig_iff h.compiles he hres, hname]
  exact reading_iff hlines hasc hpos hs

/-- **Every jump is where its function is.**  For each function to redirect of which
vmlinux has one copy, this copy begins with the jump to the module's own definition after
an install, exactly if its position leads to it. -/
theorem redirection_iff (A : Arch) (hA : A.Documented) (config : Config) (limit : ℕ)
    (metas : List Meta) (letter : Sym → Char) (table : List Sym) (fc : FuncClass)
    (lines : List KallsymLine) (header : List String) (file file' : ElfFile)
    (h : Built config limit metas table fc lines header file file')
    (hlines : KallsymsOf letter table lines) (hasc : LocalsAscend table)
    (sections : ℕ → ℕ) (exports : List ExportFn)
    (hload : List.Forall₂ (LoadedFn sections file') (header.filterMap readEntry) exports)
    (hheads : SeparateHeads A exports) (text : Mem Byte) (jumps : List (Jump A))
    (hinit : jumpInitAll A exports text = .ok jumps) :
    ∀ sig ∈ fc.redirected, OneCopy config (collected config metas).fn table sig →
      ((∀ s ∈ copies table sig, Reaches fc file sections jumps text sig s.addr) ↔
        ∀ s ∈ copies table sig, Placed letter table sig.1 (fc.sympos sig) s) := by
  intro sig hsig hone
  obtain ⟨hsingle, s, hs, horigin⟩ := (oneCopy_iff h.accepts).mp hone
  obtain ⟨hmem, hfunc⟩ := mem_of_designated hs
  have hcopies : copies table sig = [s] := by
    obtain ⟨s', hs'⟩ := List.length_eq_one_iff.mp hsingle
    have hcopy := mem_copies.mpr ⟨hmem, hfunc, horigin⟩
    rw [hs', List.mem_singleton] at hcopy
    rw [hs', hcopy]
  have hjumps := (jumpInitAll_ok hinit).1
  simp only [hcopies, List.forall_mem_singleton]
  constructor
  · rintro ⟨j, hj, sym, -, -, -, hfn, -, -⟩
    -- the line that the jump was made from has the name of the function
    have hjf : j.fn ∈ exports := hjumps ▸ List.mem_map_of_mem hj
    obtain ⟨e, he, hf⟩ := exists_of_forall₂_right hload hjf
    have hname : e.fn = sig.1 := by rw [← hf.name, hfn]
    exact (h.orig_iff hlines hasc hsig hs he hname hf).mp (by rw [hfn])
  · intro hplaced
    have he := (h.mem_entries ⟨decide (sig ∈ fc.callback), sig.1⟩).mpr ⟨sig, hsig, rfl⟩
    obtain ⟨f, hf, hloaded⟩ := exists_of_forall₂_left hload he
    obtain ⟨und, -, hres⟩ := h.resolves
    obtain ⟨sym, hsym, hsymname, hdef, hmod⟩ := hloaded.mod_defined h.compiles he hres
    have horig := (h.orig_iff hlines hasc hsig hs he rfl hloaded).mpr hplaced
    obtain ⟨j, hj, hjf⟩ := exists_of_forall₂_left (mapM_ok_forall₂ hinit) hf
    have hfn : j.fn = f := (jumpInitFunc_ok hjf).1
    have hname : f.name = sig.1 := hloaded.name
    refine ⟨j, hj, sym, hsym, hsymname, hdef, ?_, ?_, ?_⟩
    · rw [hfn, ← hmod, ← horig, ← hname]
    · rw [hfn]
      exact hjf
    · rw [← horig, ← hfn]
      exact readBytes_jumpInstall_self hA (hjumps ▸ hheads) hj text

end Jumps

/-- The declarations of `headerMetas`. -/
def headerDecls : List FnDecl :=
  [showDecl "schedule" "kernel/sched/core.c" (by decide),
    showDecl "tick_cb" "kernel/sched/sched.h" (by decide),
    showDecl "tick_cb" "kernel/sched/sched.h" (by decide)].map fun decl =>
      { decl with isPublic := decl.signature.1 = "schedule" }

/-- A symbol in the section `shndx`. -/
def modSym (stName shndx stValue : ℕ) : ElfSym where
  stName := stName
  stInfo := 0
  stOther := 0
  stShndx := shndx
  stValue := stValue
  stSize := 0

/-- A module with a callback and an interface. -/
def headerFile : ElfFile where
  symtab := [modSym 0 SHN_UNDEF 0, modSym 1 1 0x10, modSym 2 SHN_UNDEF 0, modSym 3 1 0x40]
  strtab i := ["__orig_tick_cb", "__cb_tick_cb", "__orig_schedule", "schedule"][i]?

/-- The same after its references are resolved. -/
def headerResolved : ElfFile :=
  { headerFile with
    symtab := [modSym 0 SHN_ABS 0x1000, modSym 1 1 0x10, modSym 2 SHN_ABS 0x3000,
      modSym 3 1 0x40] }

def headerLines : List String :=
  [cbFmt ⟨"tick_cb", "int", "struct seq_file *"⟩,
    exportFmt ⟨"schedule", "int", "struct seq_file *"⟩]

/-- With the module's text at `0x5000`. -/
def headerExports : List ExportFn := [⟨"tick_cb", 0x1000, 0x5010⟩, ⟨"schedule", 0x3000, 0x5040⟩]

theorem built_header : Built headerConfig 1000 headerMetas oneCopyTable
    (headerClass oneCopyTable) (kallsymsOfTable oneCopyTable) headerLines headerFile
    headerResolved := by
  have hread : headerLines.filterMap readEntry = [⟨true, "tick_cb"⟩, ⟨false, "schedule"⟩] := by
    decide
  refine ⟨⟨rfl, by decide, ⟨[("tick_cb", "kernel/sched/sched.h")], by decide, by decide, _, rfl⟩,
      ⟨[("schedule", "kernel/sched/core.c")], by decide, by decide, _, rfl⟩,
      ⟨[], by decide, by decide, _, rfl⟩⟩, ⟨headerDecls, headerLines.toFinset, ⟨rfl,
      [("tick_cb", "kernel/sched/sched.h")], [("schedule", "kernel/sched/core.c")], [], by decide,
      by decide, by decide, rfl⟩, fun line => List.mem_toFinset.symm⟩, ?_, ?_,
    ⟨[("tick_cb", 1), ("schedule", 0)], ?_, rfl⟩⟩
  · have hright : ∀ sig ∈ required headerConfig headerMetas (headerClass oneCopyTable),
        ∀ e ∈ (headerClass oneCopyTable).undefinedFunctions, e.1 = sig.1 →
          (headerClass oneCopyTable).localSympos sig = some e.2 ∨
            (headerClass oneCopyTable).localSympos sig = none ∧
              (∃ fn ∈ headerMetas.flatMap Meta.fn, fn.signature = sig ∧ fn.isPublic = true) ∧
                e.2 = 0 := by
      decide
    have hentry : ∀ sig ∈ required headerConfig headerMetas (headerClass oneCopyTable),
        (sig.1, (headerClass oneCopyTable).sympos sig) ∈
          (headerClass oneCopyTable).undefinedFunctions := by
      decide
    exact ⟨fun sig hsig => ⟨_, hentry sig hsig⟩, fun sig hsig pos hpos =>
      hright sig hsig (sig.1, pos) hpos rfl⟩
  · rw [hread]
    refine ⟨?_, by decide, by decide⟩
    intro sym hsym
    simp only [headerFile, List.mem_cons, List.not_mem_nil, or_false] at hsym
    rcases hsym with rfl | rfl | rfl | rfl
    · exact ⟨_, rfl⟩
    · exact ⟨_, rfl⟩
    · exact ⟨_, rfl⟩
    · exact ⟨_, rfl⟩
  · have hund : (headerClass oneCopyTable).undefinedFunctions =
        {("tick_cb", 1), ("schedule", 0)} := by
      decide
    intro e
    rw [hund]
    simp

/-- The callback in the scheduler's header is redirected to the module's own copy of it. -/
theorem redirection_iff_header : ∃ jumps : List (Jump (.x86_64 0x9000)),
    jumpInitAll (.x86_64 0x9000) headerExports (fun _ => 0x55) = .ok jumps ∧
      Reaches (headerClass oneCopyTable) headerFile (fun _ => 0x5000) jumps (fun _ => 0x55)
        ("tick_cb", "kernel/sched/sched.h") 0x1000 := by
  obtain ⟨jumps, hinit⟩ := jumpInitAll_ok_iff.mpr
    (show ∀ f ∈ headerExports, hooked 0x9000 f.orig (readBytes (fun _ => 0x55) f.orig 5) = false
      from fun f _ => rfl)
  have hread : headerLines.filterMap readEntry = [⟨true, "tick_cb"⟩, ⟨false, "schedule"⟩] := by
    decide
  have hload : List.Forall₂ (LoadedFn (fun _ => 0x5000) headerResolved)
      (headerLines.filterMap readEntry) headerExports := by
    rw [hread]
    refine .cons ⟨rfl, ⟨modSym 0 SHN_ABS 0x1000, by decide, rfl, by decide, rfl⟩,
      ⟨modSym 1 1 0x10, by decide, rfl, by decide, rfl⟩⟩ (.cons ⟨rfl,
      ⟨modSym 2 SHN_ABS 0x3000, by decide, rfl, by decide, rfl⟩,
      ⟨modSym 3 1 0x40, by decide, rfl, by decide, rfl⟩⟩ .nil)
  have hheads : SeparateHeads (.x86_64 0x9000) headerExports := by
    refine ⟨fun _ _ => rfl, List.pairwise_pair.mpr (Set.disjoint_left.mpr ?_)⟩
    rintro x ⟨-, hlt⟩ ⟨hle, -⟩
    simp [Arch.headLen] at hlt hle
    omega
  have hiff := redirection_iff (.x86_64 0x9000) trivial headerConfig 1000 headerMetas _ oneCopyTable
    (headerClass oneCopyTable) (kallsymsOfTable oneCopyTable) headerLines headerFile headerResolved
    built_header (kallsymsOf_table (by decide)) (localsAscend_of_pairwise (by decide))
    (fun _ => 0x5000) headerExports hload hheads (fun _ => 0x55) jumps hinit
    ("tick_cb", "kernel/sched/sched.h") (by decide) ⟨by decide, by decide, by decide⟩
  refine ⟨jumps, hinit, hiff.mpr ?_
    (funcSym .loc "tick_cb" "kernel/sched/sched.h" 0x1000) (by decide)⟩
  unfold Placed PositionsAgree
  decide

end Plugsched
