/-
What the compiler plugin collects, and the two passes of `analyze.py` over it.

A metadata file lists the functions, call edges, callbacks and interfaces of
one compilation.  The first pass sorts the functions into sets and decides
which of several definitions of a public name is linked; the second replaces
the unknown file of a callback or callee by the linked one.  Declaration
strings, header symbols, struct fields and the warning about two strong
definitions are left out, as is the set `weak`, which nothing reads.

* `mem_edges_iff` — the collected edges are those with a linked callee, each
  recorded by one of the metadata files.
-/
import Mathlib.Data.Finset.Card
import Mathlib.Data.List.Sort

namespace Plugsched

/-! ### Strings -/

/-- `s.endswith(suffix)`. -/
def endsWith (s suffix : String) : Bool := suffix.toList.isSuffixOf s.toList

/-- `s.startswith(prefix)`. -/
def startsWith (s pre : String) : Bool := pre.toList.isPrefixOf s.toList

/-- `os.path.basename`: what follows the last slash. -/
def basename (path : String) : String :=
  String.ofList (path.toList.reverse.takeWhile (· ≠ '/')).reverse

/-! ### Metadata and configuration -/

/-- A signature `(name, file)`. -/
abbrev Signature := String × String

/-- The properties of a function that `collect_fn` records and the passes read. -/
structure FnProp where
  name : String
  file : String
  init : Bool
  isPublic : Bool
  weak : Bool
  signature : Signature

/-- A collected call; the file of the callee may be `?`. -/
structure Edge where
  fromSym : Signature
  toSym : Signature

/-- The contents of the metadata file `path`. -/
structure Meta where
  path : String
  fn : List FnProp
  edge : List Edge
  callback : List Signature
  interface : List Signature

/-- `boundary.yaml`.  `modFiles` is a set, listed in the order in which it is
iterated. -/
structure Config where
  modFiles : List String
  sidecar : List Signature

namespace Config

variable (config : Config)

def modHdrs : List String := config.modFiles.filter (endsWith · ".h")

def modSrcs : List String := config.modFiles.filter (endsWith · ".c")

def sdcrSrcs : List String := config.sidecar.map Prod.snd

def allFiles : List String := config.modHdrs ++ config.modSrcs ++ config.sdcrSrcs

/-- `config.fullname.get(key)`: the last file with this base name. -/
def fullname (key : String) : Option String :=
  config.allFiles.reverse.find? (basename · == key)

end Config

/-! ### First pass -/

def STRONG : ℕ := 1
def WEAK_ARCH : ℕ := 2
def WEAK_NORM : ℕ := 3

/-- The priority under which a public function enters `global_fn_dict`. -/
def globalPrio (fn : FnProp) : Option ℕ :=
  if fn.isPublic then
    if fn.weak && startsWith fn.file "arch/" then some WEAK_ARCH
    else if fn.weak then some WEAK_NORM
    else if endsWith fn.file ".c" then some STRONG
    else none
  else none

/-- `global_fn_dict[name]` after the loop over the functions. -/
def globalFns (fns : List FnProp) (name : String) : List (ℕ × String) :=
  (fns.filterMap fun fn =>
    if fn.name = name then (globalPrio fn).map (·, fn.file) else none).dedup

/-- The order of the tuples `(prio, file)`. -/
def PrioLe (a b : ℕ × String) : Prop := a.1 < b.1 ∨ a.1 = b.1 ∧ ¬ b.2 < a.2

instance : DecidableRel PrioLe := fun _ _ => inferInstanceAs (Decidable (_ ∨ _))

/-- `sorted(fn_list)`. -/
def sortedFns (fns : List FnProp) (name : String) : List (ℕ × String) :=
  (globalFns fns name).insertionSort PrioLe

/-- `global_fn_dict.get(name, None)` after the first pass: the file whose
definition of `name` is linked. -/
def globalFnDict (fns : List FnProp) (name : String) : Option String :=
  (sortedFns fns name).head?.map Prod.snd

/-- The weak definitions of `name` that another definition overrides. -/
def fakeGlobalsOf (fns : List FnProp) (name : String) : List Signature :=
  (sortedFns fns name).tail.filterMap fun (prio, file) =>
    if prio ∈ [WEAK_ARCH, WEAK_NORM] then some (name, file) else none

/-- The sets of `func_class` after the first pass. -/
structure FirstPass where
  fn : Finset Signature
  init : Finset Signature
  modFns : Finset Signature
  sdcrFns : Finset Signature
  interface : Finset Signature
  fakeGlobal : Finset Signature
  globalFnDict : String → Option String

/-- The signatures of the functions that satisfy a test. -/
def signatures (fns : List FnProp) (p : FnProp → Bool) : Finset Signature :=
  ((fns.filter p).map FnProp.signature).toFinset

def firstPass (config : Config) (metas : List Meta) : FirstPass :=
  let fns := metas.flatMap Meta.fn
  { fn := signatures fns fun _ => true
    init := signatures fns FnProp.init
    modFns := signatures fns fun fn => fn.file ∈ config.modFiles
    sdcrFns := signatures fns fun fn => fn.file ∈ config.sdcrSrcs
    interface := (metas.flatMap Meta.interface).toFinset
    fakeGlobal := (fns.flatMap fun fn => fakeGlobalsOf fns fn.name).toFinset
    globalFnDict := globalFnDict fns }

/-! ### Second pass -/

/-- `lookup_if_global`.  An empty file counts as no file. -/
def lookupIfGlobal (dict : String → Option String) (signature : Signature) :
    Option Signature :=
  match if signature.2 = "?" then dict signature.1 else some signature.2 with
  | some file => if file = "" then none else some (signature.1, file)
  | none => none

/-- An edge after `edge['to'] = lookup_if_global(edge['to'])`. -/
structure LinkedEdge where
  fromSym : Signature
  toSym : Option Signature

/-- The state of `analyze.py` after the second pass. -/
structure Collected extends FirstPass where
  callback : Finset Signature
  edges : List (Signature × Signature)
  metas : List (String × List LinkedEdge)

def linkEdge (dict : String → Option String) (edge : Edge) : LinkedEdge where
  fromSym := edge.fromSym
  toSym := lookupIfGlobal dict edge.toSym

def secondPass (config : Config) (metas : List Meta) (first : FirstPass) : Collected :=
  let linked := metas.map fun m => (m.path, m.edge.map (linkEdge first.globalFnDict))
  { first with
    callback := ((metas.flatMap Meta.callback).filterMap fun sig =>
      (lookupIfGlobal first.globalFnDict sig).filter (·.2 ∈ config.modFiles)).toFinset
    edges := (linked.flatMap Prod.snd).filterMap fun edge =>
      edge.toSym.map (edge.fromSym, ·)
    metas := linked }

/-- Both passes. -/
def collected (config : Config) (metas : List Meta) : Collected :=
  secondPass config metas (firstPass config metas)

/-- `metas_by_name[path]`, a later file of the same name replacing an earlier. -/
def Collected.metasByName (col : Collected) (path : String) : Option (List LinkedEdge) :=
  (col.metas.reverse.find? (·.1 == path)).map Prod.snd

/-- `collect_edge` passes over the functions in `.init.text`. -/
def Collected.NoInitCalls (col : Collected) : Prop :=
  ∀ e ∈ col.edges, e.1 ∉ col.init

/-- The collected edges are the linked ones of all metadata files. -/
theorem mem_edges_iff {config : Config} {metas : List Meta} {a b : Signature} :
    (a, b) ∈ (collected config metas).edges ↔
      ∃ p ∈ (collected config metas).metas, ∃ edge ∈ p.2,
        edge.fromSym = a ∧ edge.toSym = some b := by
  simp only [collected, secondPass, List.mem_filterMap, List.mem_flatMap, Option.map_eq_some_iff,
    Prod.mk.injEq]
  constructor
  · rintro ⟨edge, ⟨p, hp, hedge⟩, _, hto, rfl, rfl⟩
    exact ⟨p, hp, edge, hedge, rfl, hto⟩
  · rintro ⟨p, hp, edge, hedge, rfl, hto⟩
    exact ⟨edge, ⟨p, hp, hedge⟩, b, hto, rfl, rfl⟩

end Plugsched
