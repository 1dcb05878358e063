/-
The copies of a redirected function in vmlinux.

A redirected function is named to the module by its name and its symbol
position; position 0 stands for the global function.  The jump is written to
this one symbol, so a second copy of the same definition stays as it is.

* `accepts_class` — what the tables that are written down stand on;
* `designated_eq` — the symbol that the entry of a function names;
* `patched_of_designated` — this symbol begins with a jump after `jump_install`;
* `everyCopy_iff` — when it is the only one that was compiled from the function.
-/
import Plugsched.HeadJump
import Plugsched.MangledCheck
import Plugsched.SymbolTable

open ByteMem ListRank

namespace Plugsched

/-! ### The output of the analysis -/

/-- `str(fn)`. -/
def strSig (sig : Signature) : String := "('" ++ sig.1 ++ "', '" ++ sig.2 ++ "')"

/-- The loop body of `get_func_decl_strs`; `localSyms` are the names so far of functions
that are not the linked global ones. -/
def declStr (fc : FuncClass) (localSyms : Finset String) (fn : Signature) :
    Except Failure (Finset String) :=
  if fn ∉ fc.modFns ∪ fc.sdcrFns then .error (.keyError (strSig fn))
  else if fc.globalFnDict fn.1 = some fn.2 then .ok localSyms
  else if fn.1 ∈ localSyms then
    .error (.assertion ("Attempt to redirect a repeating local symbol " ++ strSig fn))
  else .ok (insert fn.1 localSyms)

/-- `get_func_decl_strs`, for the functions in the order of the set: the names of those
that are declared. -/
def getFuncDeclStrs (fc : FuncClass) (signatures : List Signature) :
    Except Failure (Finset String) := do
  let _ ← signatures.foldlM (declStr fc) ∅
  return (signatures.map Prod.fst).toFinset

/-- The lines for a set of functions are written, in some order of the set. -/
def Declared (fc : FuncClass) (fns : Finset Signature) : Prop :=
  ∃ signatures : List Signature, signatures.Nodup ∧ signatures.toFinset = fns ∧
    ∃ names, getFuncDeclStrs fc signatures = .ok names

/-- `analyze.py` runs to its end. -/
structure Accepts (config : Config) (limit : ℕ) (metas : List Meta) (lines : List (List String))
    (fc : FuncClass) : Prop where
  analyzed : analyze config limit metas lines = .ok fc
  checked : ∀ sym ∈ fc.redirectedClones,
    sanityCheck limit (collected config metas) fc sym = .ok ()
  callbacks : Declared fc fc.callback
  interfaces : Declared fc fc.interface
  sidecars : Declared fc fc.sidecar

/-- `local_sympos.get(fn, 0)`. -/
def FuncClass.sympos (fc : FuncClass) (sig : Signature) : ℕ := (fc.localSympos sig).getD 0

/-- An accepted analysis has the symbol positions of the scan. -/
theorem accepts_class {config : Config} {limit : ℕ} {metas : List Meta}
    {lines : List (List String)} {fc : FuncClass} (h : Accepts config limit metas lines fc) :
    ∃ info, findInVmlinux config (collected config metas).fn lines = .ok info ∧
      fc.localSympos = info.localSympos := by
  obtain ⟨info, hinfo, hclass⟩ := analyze_ok h.analyzed
  obtain ⟨_, rfl⟩ := funcClassArithmetics_ok hclass
  exact ⟨info, hinfo, rfl⟩

/-! ### Copies -/

/-- The symbols that were compiled from the function, clones apart. -/
def copies (table : List Sym) (sig : Signature) : List Sym :=
  table.filter fun s => s.isFunc sig.1 && s.origin == sig.2

/-- The only global function of the name. -/
def globalFunc (table : List Sym) (n : String) : Option Sym :=
  match table.filter (Sym.isGlobalFunc n) with
  | [s] => some s
  | _ => none

/-- The symbol that a name and a position stand for. -/
def designated (table : List Sym) (n : String) (pos : ℕ) : Option Sym :=
  if pos = 0 then globalFunc table n else (table.filter (Sym.isLocalFunc n))[pos - 1]?

/-- The lines of `export_jump.h`, with the kernel functions that the entries name. -/
structure ExportJump (table : List Sym) (fc : FuncClass) (fns : List ExportFn) : Prop where
  line : ∀ sig ∈ fc.redirected, ∀ s, designated table sig.1 (fc.sympos sig) = some s →
    ∃ f ∈ fns, f.name = sig.1 ∧ f.orig = s.addr
  named : ∀ f ∈ fns, ∃ sig ∈ fc.redirected, f.name = sig.1 ∧
    ∃ s, designated table sig.1 (fc.sympos sig) = some s ∧ f.orig = s.addr

/-- After `jump_install` the code at this address begins with a jump to the module. -/
def Patched {A : Arch} (jumps : List (Jump A)) (text : Mem Byte) (addr : ℕ) : Prop :=
  ∃ j ∈ jumps, j.fn.orig = addr ∧
    readBytes (jumpInstall jumps text) addr A.headLen = j.storeJump

/-- The function has one copy, which its entry names, and `jump_install` leaves no copy
without a jump. -/
structure EveryCopyRedirected (table : List Sym) (fc : FuncClass) (sig : Signature) : Prop where
  only : ∃ s, copies table sig = [s] ∧ designated table sig.1 (fc.sympos sig) = some s
  patched : ∀ (A : Arch) (fns : List ExportFn) (text : Mem Byte) (jumps : List (Jump A)),
    A.Documented → ExportJump table fc fns → SeparateHeads A fns →
      jumpInitAll A fns text = .ok jumps → ∀ s ∈ copies table sig, Patched jumps text s.addr

/-- The local functions that the scan finds under `sig`. -/
def foundAs (config : Config) (fns : Finset Signature) (table : List Sym) (sig : Signature) :
    List (Option String × Sym) :=
  (localFuncs config sig.1 none table).filter (hits config fns sig)

/-- A single symbol is compiled from the definition.  It is the last local function that
the scan finds under it, or if there is none, the only global function of the name. -/
structure OneCopy (config : Config) (fns : Finset Signature) (table : List Sym)
    (sig : Signature) : Prop where
  single : (copies table sig).length = 1
  last : ∀ x ∈ (foundAs config fns table sig).getLast?, x.2.origin = sig.2
  global : foundAs config fns table sig = [] →
    ∃ s ∈ globalFunc table sig.1, s.origin = sig.2

section Copies

variable {config : Config} {limit : ℕ} {metas : List Meta} {table : List Sym} {fc : FuncClass}
  {sig : Signature}

theorem mem_copies {s : Sym} :
    s ∈ copies table sig ↔ s ∈ table ∧ s.isFunc sig.1 = true ∧ s.origin = sig.2 := by
  simp [copies]

/-- What an entry stands for is a function of this name. -/
theorem mem_of_designated {n : String} {pos : ℕ} {s : Sym}
    (h : designated table n pos = some s) : s ∈ table ∧ s.isFunc n = true := by
  rw [designated] at h
  split at h
  · rw [globalFunc] at h
    split at h
    · next s' hlist =>
      cases h
      have hmem : s ∈ table.filter (Sym.isGlobalFunc n) := by
        rw [hlist]
        exact List.mem_singleton_self s
      obtain ⟨hs, hfunc⟩ := List.mem_filter.mp hmem
      exact ⟨hs, (Bool.and_eq_true_iff.mp hfunc).1⟩
    · cases h
  · obtain ⟨hs, hfunc⟩ := List.mem_filter.mp (List.mem_of_getElem? h)
    exact ⟨hs, (Bool.and_eq_true_iff.mp hfunc).1⟩

/-- The symbol that the entry of a function names. -/
theorem designated_eq (h : Accepts config limit metas (elfLines table) fc) :
    designated table sig.1 (fc.sympos sig) =
      match (foundAs config (collected config metas).fn table sig).getLast? with
      | some x => some x.2
      | none => globalFunc table sig.1 := by
  obtain ⟨info, hinfo, hpos⟩ := accepts_class h
  rw [FuncClass.sympos, hpos, localSympos_eq hinfo, foundAs]
  cases hlast : lastPos (hits config (collected config metas).fn sig)
      (localFuncs config sig.1 none table) with
  | none =>
    rw [filter_of_lastPos_eq_none hlast]
    rfl
  | some k =>
    obtain ⟨x, hget, hfilter, hk⟩ := getElem?_lastPos hlast
    rw [hfilter, Option.getD_some, designated, if_neg hk,
      ← localFuncs_snd config sig.1 none table, List.getElem?_map, hget]
    rfl

/-- The symbol that the entry of a redirected function names begins with its jump. -/
theorem patched_of_designated (hsig : sig ∈ fc.redirected) {s : Sym}
    (hs : designated table sig.1 (fc.sympos sig) = some s) {A : Arch} (hA : A.Documented)
    {fns : List ExportFn} (hfns : ExportJump table fc fns) (hheads : SeparateHeads A fns)
    {text : Mem Byte} {jumps : List (Jump A)} (hinit : jumpInitAll A fns text = .ok jumps) :
    Patched jumps text s.addr := by
  obtain ⟨f, hf, -, horig⟩ := hfns.line sig hsig s hs
  have hjumps := (jumpInitAll_ok hinit).1
  rw [← hjumps] at hf hheads
  obtain ⟨j, hj, rfl⟩ := List.mem_map.mp hf
  refine ⟨j, hj, horig, ?_⟩
  rw [← horig]
  exact readBytes_jumpInstall_self hA hheads hj text

/-- The second half of the condition says that the entry names a copy. -/
theorem oneCopy_iff (h : Accepts config limit metas (elfLines table) fc) :
    OneCopy config (collected config metas).fn table sig ↔ (copies table sig).length = 1 ∧
      ∃ s, designated table sig.1 (fc.sympos sig) = some s ∧ s.origin = sig.2 := by
  rw [designated_eq h]
  cases hlast : (foundAs config (collected config metas).fn table sig).getLast? with
  | none =>
    have hnil := List.getLast?_eq_none_iff.mp hlast
    constructor
    · intro hone
      exact ⟨hone.single, hone.global hnil⟩
    · rintro ⟨hsingle, hglobal⟩
      exact ⟨hsingle, by simp [hlast], fun _ => hglobal⟩
  | some x =>
    constructor
    · intro hone
      exact ⟨hone.single, x.2, rfl, hone.last x hlast⟩
    · rintro ⟨hsingle, s, hs, horigin⟩
      cases hs
      refine ⟨hsingle, fun y hy => ?_, fun hnil => ?_⟩
      · rw [hlast] at hy
        cases hy
        exact horigin
      · rw [hnil] at hlast
        cases hlast

end Copies

/-- **Every copy is redirected.**  Whatever the analysis accepts, the entry of a
redirected function names its only copy, and `jump_install` puts a jump there, exactly
if one symbol is compiled from it and the scan does not find another function of this
name under its file later. -/
theorem everyCopy_iff (config : Config) (limit : ℕ) (metas : List Meta) (table : List Sym)
    (fc : FuncClass) (h : Accepts config limit metas (elfLines table) fc) :
    ∀ sig ∈ fc.redirected, EveryCopyRedirected table fc sig ↔
      OneCopy config (collected config metas).fn table sig := by
  intro sig hsig
  rw [oneCopy_iff h]
  constructor
  · rintro ⟨⟨s, hcopies, hs⟩, -⟩
    have hmem : s ∈ copies table sig := by
      rw [hcopies]
      exact List.mem_singleton_self s
    exact ⟨by rw [hcopies]; rfl, s, hs, (mem_copies.mp hmem).2.2⟩
  · rintro ⟨hsingle, s, hs, horigin⟩
    obtain ⟨hmem, hfunc⟩ := mem_of_designated hs
    have hcopy := mem_copies.mpr ⟨hmem, hfunc, horigin⟩
    obtain ⟨s', hcopies⟩ := List.length_eq_one_iff.mp hsingle
    rw [hcopies, List.mem_singleton] at hcopy
    subst hcopy
    refine ⟨⟨s, hcopies, hs⟩, fun A fns text jumps hA hfns hheads hinit t ht => ?_⟩
    rw [hcopies, List.mem_singleton] at ht
    rw [ht]
    exact patched_of_designated hsig hs hA hfns hheads hinit

/-- The header of the scheduler defines the callback `tick_cb`. -/
def headerConfig : Config where
  modFiles := ["kernel/sched/sched.h", "kernel/sched/core.c", "kernel/sched/fair.c"]
  sidecar := []

def headerMetas : List Meta :=
  [ { path := "kernel/sched/core.c.boundary"
      fn := [plainFn "schedule" "kernel/sched/core.c",
        { plainFn "tick_cb" "kernel/sched/sched.h" with isPublic := false }]
      edge := []
      callback := [("tick_cb", "kernel/sched/sched.h")]
      interface := [("schedule", "kernel/sched/core.c")] },
    { path := "kernel/sched/fair.c.boundary"
      fn := [{ plainFn "tick_cb" "kernel/sched/sched.h" with isPublic := false }]
      edge := []
      callback := [("tick_cb", "kernel/sched/sched.h")]
      interface := [] } ]

/-- Only `core.c` has a symbol for `tick_cb`. -/
def oneCopyTable : List Sym :=
  [fileSym "kernel/sched/core.c", funcSym .loc "tick_cb" "kernel/sched/sched.h" 0x1000,
    fileSym "kernel/sched/fair.c", funcSym .global "schedule" "kernel/sched/core.c" 0x3000]

/-- Both files have one. -/
def twoCopiesTable : List Sym :=
  [fileSym "kernel/sched/core.c", funcSym .loc "tick_cb" "kernel/sched/sched.h" 0x1000,
    fileSym "kernel/sched/fair.c", funcSym .loc "tick_cb" "kernel/sched/sched.h" 0x2000,
    funcSym .global "schedule" "kernel/sched/core.c" 0x3000]

/-- The classes that the analysis makes of a table. -/
def headerClass (table : List Sym) : FuncClass :=
  ((analyze headerConfig 1000 headerMetas (elfLines table)).toOption).getD smallClass

/-- With one symbol the callback is redirected. -/
theorem everyCopy_iff_header : EveryCopyRedirected oneCopyTable (headerClass oneCopyTable)
    ("tick_cb", "kernel/sched/sched.h") := by
  have haccepts : Accepts headerConfig 1000 headerMetas (elfLines oneCopyTable)
      (headerClass oneCopyTable) :=
    { analyzed := rfl
      checked := by decide
      callbacks := ⟨[("tick_cb", "kernel/sched/sched.h")], by decide, by decide, _, rfl⟩
      interfaces := ⟨[("schedule", "kernel/sched/core.c")], by decide, by decide, _, rfl⟩
      sidecars := ⟨[], by decide, by decide, _, rfl⟩ }
  exact (everyCopy_iff headerConfig 1000 headerMetas oneCopyTable (headerClass oneCopyTable)
    haccepts ("tick_cb", "kernel/sched/sched.h") (by decide)).mpr
    ⟨by decide, by decide, by decide⟩

/-- The jumps of `twoCopiesTable` are written at the second copy and at `schedule`. -/
theorem exportJump_twoCopies {fns : List ExportFn}
    (h : ExportJump twoCopiesTable (headerClass twoCopiesTable) fns) :
    ∀ f ∈ fns, f.orig = 0x2000 ∨ f.orig = 0x3000 := by
  intro f hf
  obtain ⟨sig, hsig, -, s, hs, horig⟩ := h.named f hf
  have haddr : ∀ sig ∈ (headerClass twoCopiesTable).redirected,
      (designated twoCopiesTable sig.1 ((headerClass twoCopiesTable).sympos sig)).map Sym.addr ∈
        [some 0x2000, some 0x3000] := by decide
  have hmem := haddr sig hsig
  rw [hs, ← Option.map_some] at hmem
  simpa [horig] using hmem

/-- With two the entry names the second, and the code of the first stays as it is. -/
theorem header_copy_not_redirected :
    Accepts headerConfig 1000 headerMetas (elfLines twoCopiesTable)
        (headerClass twoCopiesTable) ∧
      ("tick_cb", "kernel/sched/sched.h") ∈ (headerClass twoCopiesTable).redirected ∧
      funcSym .loc "tick_cb" "kernel/sched/sched.h" 0x1000 ∈
        copies twoCopiesTable ("tick_cb", "kernel/sched/sched.h") ∧
      (∀ (A : Arch) (fns : List ExportFn) (text : Mem Byte) (jumps : List (Jump A)),
        A.Documented → ExportJump twoCopiesTable (headerClass twoCopiesTable) fns →
          jumpInitAll A fns text = .ok jumps →
            readBytes (jumpInstall jumps text) 0x1000 A.headLen =
              readBytes text 0x1000 A.headLen) ∧
      ¬ EveryCopyRedirected twoCopiesTable (headerClass twoCopiesTable)
        ("tick_cb", "kernel/sched/sched.h") := by
  refine ⟨?_, by decide, by decide, fun A fns text jumps hA hfns hinit => ?_, fun hevery => ?_⟩
  · exact
      { analyzed := rfl
        checked := by decide
        callbacks := ⟨[("tick_cb", "kernel/sched/sched.h")], by decide, by decide, _, rfl⟩
        interfaces := ⟨[("schedule", "kernel/sched/core.c")], by decide, by decide, _, rfl⟩
        sidecars := ⟨[], by decide, by decide, _, rfl⟩ }
  · -- no head reaches the first copy
    have hlen : A.headLen ≤ 5 := by
      cases A with
      | x86_64 => exact le_rfl
      | arm64 => exact Nat.le_succ 4
    refine readBytes_jumpInstall_of_not_inHead hA (fun x hx => ?_) text
    rw [(jumpInitAll_ok hinit).1]
    rintro ⟨f, hf, -, hin⟩
    have hlt := hx.2
    have hle := hin.1
    rcases exportJump_twoCopies hfns f hf with horig | horig <;> omega
  · obtain ⟨s, hcopies, -⟩ := hevery.only
    have htwo : (copies twoCopiesTable ("tick_cb", "kernel/sched/sched.h")).length = 2 := by decide
    rw [hcopies] at htwo
    cases htwo

end Plugsched
