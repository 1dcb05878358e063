/-
The compiler plugin: what `collect.py` writes down about a translation unit,
and which definition the passes of `analyze.py` take a call to mean.

A call refers to a declaration.  If the body is in the same unit, the plugin
records its file, otherwise `?`, which `lookup_if_global` replaces by the file
of the best definition.  The link chooses among the public definitions of a
name whatever unit the call is in.

* `globalFnDict_strongest` — the dictionary names the first path among the
  definitions that no other one overrides;
* `recordedCallee_own`, `recordedCallee_other` — the callee of a call to a
  function of the same unit and of another;
* `recordsLinked_iff` — the calls for which this is the choice of the link.
-/
import Mathlib.Data.String.Basic
import Plugsched.FuncClass

namespace Plugsched

/-! ### Translation units -/

/-- What GCC says about a function declaration. -/
structure FunctionDecl where
  name : String
  /-- `os.path.relpath(decl.location.file)`. -/
  file : String
  /-- `isinstance(decl.context, gcc.TranslationUnitDecl)`. -/
  fileScope : Bool
  /-- `decl.function is not None`: the unit holds the body. -/
  function : Bool
  /-- The attribute `section`. -/
  textSection : Option String
  isPublic : Bool
  weak : Bool
  deriving DecidableEq

/-- A statement with the function declarations among its operands; of a call
those among its arguments. -/
inductive Stmt where
  | call (fndecl : Option FunctionDecl) (args : List FunctionDecl)
  | other (operands : List FunctionDecl)

/-- A node of the call graph.  A node without a body is an alias; `realName` is the
name in the attribute. -/
structure CallGraphNode where
  decl : FunctionDecl
  realName : String
  stmts : List Stmt

/-- A global variable with the function declarations in its initial value. -/
structure Variable where
  typeName : String
  dataSection : Option String
  initial : List FunctionDecl

/-- The callee of a direct call. -/
def Stmt.callee : Stmt → Option FunctionDecl
  | .call fndecl _ => fndecl
  | .other _ => none

/-- One run of the compiler.  A function that is called and has its body in the
unit is a node of the call graph, and public functions are at file scope. -/
structure TranslationUnit where
  mainInput : String
  nodes : List CallGraphNode
  vars : List Variable
  defined : ∀ node ∈ nodes, ∀ stmt ∈ node.stmts, ∀ fndecl ∈ stmt.callee,
    fndecl.function = true → ∃ node' ∈ nodes, node'.decl = fndecl
  scope : ∀ node ∈ nodes, node.decl.isPublic = true → node.decl.fileScope = true

/-- The part of `boundary.yaml` that only `collect.py` reads. -/
structure CollectConfig extends Config where
  interface : List String
  interfacePrefix : List String

/-! ### The metadata -/

/-- `decl_sig`. -/
def declSig (decl : FunctionDecl) : Signature :=
  if decl.function then (decl.name, decl.file) else (decl.name, "?")

/-- `decl_in_section(decl, '.init.text')`. -/
def FunctionDecl.inInit (decl : FunctionDecl) : Bool := decl.textSection == some ".init.text"

/-- The properties that `collect_fn` records. -/
def fnProp (decl : FunctionDecl) : FnProp where
  name := decl.name
  file := decl.file
  init := decl.inInit
  isPublic := decl.isPublic
  weak := decl.weak
  signature := declSig decl

namespace TranslationUnit

/-- The nodes that `collect_fn` does not pass over. -/
def functions (unit : TranslationUnit) : List FunctionDecl :=
  (unit.nodes.map CallGraphNode.decl).filter fun decl => decl.fileScope && decl.function

/-- `self.fn_prop` after `collect_fn`. -/
def collectFn (unit : TranslationUnit) : List FnProp := unit.functions.map fnProp

/-- `self.intf_prop` after `collect_fn`. -/
def collectInterface (config : CollectConfig) (unit : TranslationUnit) : List Signature :=
  if unit.mainInput ∈ config.modSrcs then
    (unit.functions.filter fun decl =>
      decl.name ∈ config.interface || config.interfacePrefix.any (startsWith decl.name ·)).map
        declSig
  else []

/-- The declarations that `collect_callback` walks over. -/
def callbackOperands (unit : TranslationUnit) : List FunctionDecl :=
  (unit.nodes.filter (·.decl.function)).flatMap (fun node =>
      node.stmts.flatMap fun
        | .call _ args => args
        | .other operands => operands) ++
    (unit.vars.filter fun var =>
      var.typeName != "sched_class" && var.dataSection != some ".discard.addressable").flatMap
        Variable.initial

/-- `collect_callback`. -/
def collectCallback (unit : TranslationUnit) : List Signature :=
  (unit.callbackOperands.filter fun decl => !decl.inInit).map declSig

end TranslationUnit

/-- The edge of a direct call. -/
def callEdge (caller callee : FunctionDecl) : Edge where
  fromSym := declSig caller
  toSym := declSig callee

/-- The loop body of `collect_edge`. -/
def nodeEdges (node : CallGraphNode) : List Edge :=
  if node.decl.inInit then []
  else if node.decl.function then
    (node.stmts.filterMap Stmt.callee).map (callEdge node.decl)
  else [⟨declSig node.decl, (node.realName, "?")⟩]

/-- `collect_info`: the metadata file of the unit. -/
def collectInfo (config : CollectConfig) (unit : TranslationUnit) : Meta where
  path := unit.mainInput ++ ".boundary"
  fn := unit.collectFn
  edge := unit.nodes.flatMap nodeEdges
  callback := unit.collectCallback
  interface := unit.collectInterface config

/-! ### The choice of the link -/

/-- The functions of all units. -/
def functionsOf (units : List TranslationUnit) : List FnProp :=
  units.flatMap TranslationUnit.collectFn

/-- A public function whose public definitions are all in `.c` files. -/
structure DefinedInC (fns : List FnProp) (name : String) : Prop where
  exists_public : ∃ fn ∈ fns, fn.name = name ∧ fn.isPublic = true
  inC : ∀ fn ∈ fns, fn.name = name → fn.isPublic = true → endsWith fn.file ".c" = true

/-- Strong definitions come first, then the weak ones of an architecture, then the
other weak ones. -/
def linkRank (fn : FnProp) : ℕ :=
  if !fn.weak then 0 else if startsWith fn.file "arch/" then 1 else 2

/-- `file` holds a public definition of `name` that no other one overrides. -/
def Strongest (fns : List FnProp) (name file : String) : Prop :=
  ∃ fn ∈ fns, fn.name = name ∧ fn.isPublic = true ∧ fn.file = file ∧
    ∀ fn' ∈ fns, fn'.name = name → fn'.isPublic = true → linkRank fn ≤ linkRank fn'

/-- `link` tells for each name the file whose definition is in vmlinux. -/
def Links (fns : List FnProp) (link : String → String) : Prop :=
  ∀ name, DefinedInC fns name → Strongest fns name (link name)

/-! ### The dictionary of the first pass -/

section Dictionary

variable {fns : List FnProp} {name : String}

theorem ne_of_endsWith {file : String} (h : endsWith file ".c" = true) :
    file ≠ "?" ∧ file ≠ "" := by
  constructor <;> rintro rfl <;> revert h <;> decide

theorem mem_globalFns {p : ℕ} {file : String} : (p, file) ∈ globalFns fns name ↔
    ∃ fn ∈ fns, fn.name = name ∧ globalPrio fn = some p ∧ fn.file = file := by
  rw [globalFns, List.mem_dedup, List.mem_filterMap]
  refine exists_congr fun fn => and_congr_right fun _ => ?_
  by_cases hname : fn.name = name
  · simp [hname, Option.map_eq_some_iff]
  · simp [hname]

/-- The priority of a public definition in a `.c` file. -/
theorem globalPrio_eq {fn : FnProp} (hpublic : fn.isPublic = true)
    (hc : endsWith fn.file ".c" = true) : globalPrio fn = some (linkRank fn + 1) := by
  rw [globalPrio, if_pos hpublic, linkRank, hc]
  cases fn.weak <;> cases startsWith fn.file "arch/" <;> rfl

theorem prioLe_total : ∀ a b : ℕ × String, PrioLe a b ∨ PrioLe b a := by
  intro a b
  rcases lt_trichotomy a.1 b.1 with hlt | heq | hgt
  · exact .inl (.inl hlt)
  · rcases le_total a.2 b.2 with hle | hle
    · exact .inl (.inr ⟨heq, not_lt.mpr hle⟩)
    · exact .inr (.inr ⟨heq.symm, not_lt.mpr hle⟩)
  · exact .inr (.inl hgt)

theorem prioLe_trans : ∀ a b c : ℕ × String, PrioLe a b → PrioLe b c → PrioLe a c := by
  rintro a b c (hab | ⟨hab, hab'⟩) (hbc | ⟨hbc, hbc'⟩)
  · exact .inl (hab.trans hbc)
  · exact .inl (hbc ▸ hab)
  · exact .inl (hab ▸ hbc)
  · exact .inr ⟨hab.trans hbc, not_lt.mpr ((not_lt.mp hab').trans (not_lt.mp hbc'))⟩

instance : Std.Total PrioLe := ⟨prioLe_total⟩

instance : IsTrans (ℕ × String) PrioLe := ⟨prioLe_trans⟩

/-- **The dictionary.**  It names the first path among the strongest definitions. -/
theorem globalFnDict_strongest (h : DefinedInC fns name) :
    ∃ file, globalFnDict fns name = some file ∧ Strongest fns name file ∧
      ∀ file', Strongest fns name file' → ¬ file' < file := by
  have hmem : ∀ fn ∈ fns, fn.name = name → fn.isPublic = true →
      (linkRank fn + 1, fn.file) ∈ sortedFns fns name := fun fn hfn hname hpublic =>
    (List.mem_insertionSort _).mpr
      (mem_globalFns.mpr ⟨fn, hfn, hname, globalPrio_eq hpublic (h.inC fn hfn hname hpublic), rfl⟩)
  obtain ⟨fn₀, hfn₀, hname₀, hpublic₀⟩ := h.exists_public
  have hne := List.ne_nil_of_mem (hmem fn₀ hfn₀ hname₀ hpublic₀)
  have hsorted := List.pairwise_insertionSort PrioLe (globalFns fns name)
  rw [← sortedFns] at hsorted
  obtain ⟨⟨p, file⟩, rest, hlist⟩ := List.exists_cons_of_ne_nil hne
  rw [hlist, List.pairwise_cons] at hsorted
  have hleast : ∀ fn ∈ fns, fn.name = name → fn.isPublic = true →
      PrioLe (p, file) (linkRank fn + 1, fn.file) := by
    intro fn hfn hname hpublic
    have hin := hmem fn hfn hname hpublic
    rw [hlist] at hin
    rcases List.mem_cons.mp hin with heq | hin
    · rw [heq]
      exact .inr ⟨rfl, lt_irrefl _⟩
    · exact hsorted.1 _ hin
  -- the head stems from a public definition
  have hhead : (p, file) ∈ globalFns fns name := by
    rw [← List.mem_insertionSort PrioLe, ← sortedFns, hlist]
    exact List.mem_cons_self
  obtain ⟨fn, hfn, hname, hprio, hfile⟩ := mem_globalFns.mp hhead
  have hpublic : fn.isPublic = true := by
    by_contra hnot
    rw [globalPrio, if_neg hnot] at hprio
    cases hprio
  rw [globalPrio_eq hpublic (h.inC fn hfn hname hpublic), Option.some.injEq] at hprio
  refine ⟨file, by rw [globalFnDict, hlist]; rfl, ⟨fn, hfn, hname, hpublic, hfile, ?_⟩, ?_⟩
  · intro fn' hfn' hname' hpublic'
    have hle := hleast fn' hfn' hname' hpublic'
    simp only [PrioLe] at hle
    omega
  · rintro _ ⟨fn', hfn', hname', hpublic', rfl, hbest⟩
    have hle := hbest fn hfn hname hpublic
    rcases hleast fn' hfn' hname' hpublic' with hlt | ⟨-, hnot⟩
    · simp only at hlt
      omega
    · exact hnot

end Dictionary

/-! ### The recorded callees -/

/-- The direct calls that `collect_edge` records, as caller and callee: the caller has
a body in the unit and is not in the init section. -/
def collectedCalls (units : List TranslationUnit) : List (FunctionDecl × FunctionDecl) :=
  units.flatMap fun unit => unit.nodes.flatMap fun node =>
    if !node.decl.inInit && node.decl.function then
      (node.stmts.filterMap Stmt.callee).map (node.decl, ·)
    else []

theorem mem_collectedCalls {units : List TranslationUnit} {caller callee : FunctionDecl} :
    (caller, callee) ∈ collectedCalls units ↔ ∃ unit ∈ units, ∃ node ∈ unit.nodes,
      node.decl = caller ∧ caller.inInit = false ∧ caller.function = true ∧
        ∃ stmt ∈ node.stmts, stmt.callee = some callee := by
  simp only [collectedCalls, List.mem_flatMap]
  refine exists_congr fun unit => and_congr_right fun _ => exists_congr fun node =>
    and_congr_right fun _ => ?_
  split
  · next hcond =>
    rw [Bool.and_eq_true, Bool.not_eq_true'] at hcond
    simp only [List.mem_map, List.mem_filterMap, Prod.mk.injEq]
    constructor
    · rintro ⟨fndecl, ⟨stmt, hstmt, hcallee⟩, rfl, rfl⟩
      exact ⟨rfl, hcond.1, hcond.2, stmt, hstmt, hcallee⟩
    · rintro ⟨rfl, -, -, stmt, hstmt, hcallee⟩
      exact ⟨callee, ⟨stmt, hstmt, hcallee⟩, rfl, rfl⟩
  · next hcond =>
    refine iff_of_false List.not_mem_nil ?_
    rintro ⟨rfl, hinit, hfunction, -⟩
    rw [hinit, hfunction] at hcond
    exact hcond rfl

/-- A collected call to a public function defined in `.c` files. -/
structure PublicCall (units : List TranslationUnit) (caller callee : FunctionDecl) : Prop where
  call : (caller, callee) ∈ collectedCalls units
  isPublic : callee.isPublic = true
  inC : DefinedInC (functionsOf units) callee.name

section Recorded

variable {config : CollectConfig} {units : List TranslationUnit} {link : String → String}
  {caller callee : FunctionDecl}

/-- The callee that the second pass records for a call. -/
def recordedCallee (config : CollectConfig) (units : List TranslationUnit)
    (caller callee : FunctionDecl) : Option Signature :=
  (linkEdge (firstPass config.toConfig (units.map (collectInfo config))).globalFnDict
    (callEdge caller callee)).toSym

theorem globalFnDict_collected (config : CollectConfig) (units : List TranslationUnit) :
    (firstPass config.toConfig (units.map (collectInfo config))).globalFnDict =
      globalFnDict (functionsOf units) := by
  simp only [firstPass, functionsOf, List.flatMap_map]
  rfl

/-- A recorded callee is the end of a collected edge. -/
theorem mem_edges_of_call {sig : Signature} (h : (caller, callee) ∈ collectedCalls units)
    (hrec : recordedCallee config units caller callee = some sig) :
    (declSig caller, sig) ∈
      (collected config.toConfig (units.map (collectInfo config))).edges := by
  obtain ⟨unit, hunit, node, hnode, rfl, hinit, hfunction, stmt, hstmt, hcallee⟩ :=
    mem_collectedCalls.mp h
  refine mem_edges_iff.mpr ⟨_, List.mem_map_of_mem (List.mem_map_of_mem hunit),
    _, List.mem_map_of_mem ?_, rfl, hrec⟩
  rw [collectInfo, List.mem_flatMap]
  refine ⟨node, hnode, ?_⟩
  rw [nodeEdges, if_neg (by simp [hinit]), if_pos hfunction]
  exact List.mem_map_of_mem (List.mem_filterMap.mpr ⟨stmt, hstmt, hcallee⟩)

/-- A callee with its body in the unit of the caller is one of the functions. -/
theorem mem_functionsOf_of_call (h : PublicCall units caller callee)
    (hbody : callee.function = true) : fnProp callee ∈ functionsOf units := by
  obtain ⟨unit, hunit, node, hnode, -, -, -, stmt, hstmt, hcallee⟩ := mem_collectedCalls.mp h.call
  obtain ⟨node', hnode', rfl⟩ := unit.defined node hnode stmt hstmt callee hcallee hbody
  have hscope := unit.scope node' hnode' h.isPublic
  refine List.mem_flatMap.mpr ⟨unit, hunit, List.mem_map_of_mem (List.mem_filter.mpr
    ⟨List.mem_map_of_mem hnode', ?_⟩)⟩
  rw [hscope, hbody]
  rfl

/-- In its own unit the definition of the unit is recorded, overridden or not. -/
theorem recordedCallee_own (h : PublicCall units caller callee)
    (hbody : callee.function = true) :
    recordedCallee config units caller callee = some (callee.name, callee.file) := by
  obtain ⟨hquery, hempty⟩ :=
    ne_of_endsWith (h.inC.inC _ (mem_functionsOf_of_call h hbody) rfl h.isPublic)
  simp only [fnProp] at hquery hempty
  simp [recordedCallee, linkEdge, callEdge, declSig, lookupIfGlobal, hbody, hquery, hempty]

/-- Elsewhere the first path among the strongest definitions is recorded. -/
theorem recordedCallee_other (config : CollectConfig) (h : PublicCall units caller callee)
    (hbody : callee.function = false) :
    ∃ file, recordedCallee config units caller callee = some (callee.name, file) ∧
      Strongest (functionsOf units) callee.name file ∧
      ∀ file', Strongest (functionsOf units) callee.name file' → ¬ file' < file := by
  obtain ⟨file, hdict, hbest, hfirst⟩ := globalFnDict_strongest h.inC
  obtain ⟨fn, hfn, hname, hpublic, rfl, -⟩ := id hbest
  have hempty := (ne_of_endsWith (h.inC.inC fn hfn hname hpublic)).2
  refine ⟨fn.file, ?_, hbest, hfirst⟩
  simp [recordedCallee, linkEdge, callEdge, declSig, lookupIfGlobal, globalFnDict_collected, hbody,
    hdict, hempty]

/-- The second pass records the definition that is linked. -/
def RecordsLinked (config : CollectConfig) (units : List TranslationUnit)
    (link : String → String) : Prop :=
  ∀ caller callee, PublicCall units caller callee →
    recordedCallee config units caller callee = some (callee.name, link callee.name)

/-- Whatever vmlinux holds, a caller of an insider is an insider or in the cut, or is
itself overridden and not in vmlinux. -/
def NoHiddenCaller (config : CollectConfig) (units : List TranslationUnit)
    (link : String → String) : Prop :=
  ∀ limit info fc,
    funcClassArithmetics config.toConfig limit
        (collected config.toConfig (units.map (collectInfo config))) info = .ok fc →
      ∀ caller callee, PublicCall units caller callee →
        (callee.name, link callee.name) ∈ fc.insider →
        declSig caller ∈ fc.insider ∨ declSig caller ∈ fc.inflectCut ∨
          declSig caller ∈ fc.fakeGlobal

/-- A call inside a unit is to a definition that is linked; for the others, where
several definitions are strongest, the link takes the one with the first path. -/
def CallsLinked (units : List TranslationUnit) (link : String → String) : Prop :=
  ∀ caller callee, PublicCall units caller callee →
    if callee.function then callee.file = link callee.name
    else ∀ file, Strongest (functionsOf units) callee.name file → ¬ file < link callee.name

/-- An insider that is called through a recorded edge hides no caller. -/
theorem noHiddenCaller_of_recordsLinked (h : RecordsLinked config units link) :
    NoHiddenCaller config units link := by
  intro limit info fc hfc caller callee hcall hin
  have hedge := mem_edges_of_call hcall.call (h caller callee hcall)
  rw [insider_eq hfc] at hin
  have hguard := inflect_guarded _ _ hedge (Finset.mem_sdiff.mp (Finset.mem_sdiff.mp hin).1).1
  rcases hguard with hmem | hcut
  · by_cases hfake : declSig caller ∈ fc.fakeGlobal
    · exact .inr (.inr hfake)
    by_cases hinit : declSig caller ∈ fc.init
    · refine .inr (.inl ?_)
      rw [inflectCut_eq hfc]
      exact Finset.mem_union_left _ (Finset.mem_union_right _ hinit)
    · refine .inl ?_
      rw [insider_eq hfc]
      exact Finset.mem_sdiff.mpr ⟨Finset.mem_sdiff.mpr ⟨hmem, hinit⟩, hfake⟩
  · exact .inr (.inl hcut)

/-- The recorded callees are linked where this is so of the calls. -/
theorem recordsLinked_iff_callsLinked (config : CollectConfig)
    (hlink : Links (functionsOf units) link) :
    RecordsLinked config units link ↔ CallsLinked units link := by
  refine forall_congr' fun caller => forall_congr' fun callee => forall_congr' fun hcall => ?_
  by_cases hbody : callee.function = true
  · rw [recordedCallee_own hcall hbody, if_pos hbody]
    simp
  · rw [if_neg hbody]
    obtain ⟨file, hrec, hbest, hfirst⟩ :=
      recordedCallee_other config hcall (Bool.eq_false_iff.mpr hbody)
    have hlinked := hlink callee.name hcall.inC
    rw [hrec, Option.some.injEq, Prod.mk.injEq, eq_self, true_and]
    constructor
    · rintro rfl
      exact hfirst
    · intro hleast
      exact le_antisymm (not_lt.mp (hfirst _ hlinked)) (not_lt.mp (hleast _ hbest))

/-- **The linked call graph.**  Every call is recorded with the linked callee, so that
no caller of an insider is hidden, exactly if no unit calls an overridden definition
of its own and the link takes the first path among equals. -/
theorem recordsLinked_iff (config : CollectConfig) (units : List TranslationUnit)
    (link : String → String) (hlink : Links (functionsOf units) link) :
    RecordsLinked config units link ∧ NoHiddenCaller config units link ↔
      CallsLinked units link := by
  rw [← recordsLinked_iff_callsLinked config hlink]
  exact and_iff_left_of_imp noHiddenCaller_of_recordsLinked

end Recorded

/-- A function with its body in the unit, or without. -/
def plainDecl (name file : String) (function weak : Bool) : FunctionDecl where
  name := name
  file := file
  fileScope := true
  function := function
  textSection := none
  isPublic := true
  weak := weak

/-- `sched_tick_hook` of `kernel/sched/core.c`. -/
def hookUnit : TranslationUnit where
  mainInput := "kernel/sched/core.c"
  nodes :=
    [ ⟨plainDecl "schedule" "kernel/sched/core.c" true false, "", []⟩,
      ⟨plainDecl "sched_tick_hook" "kernel/sched/core.c" true false, "", []⟩ ]
  vars := []
  defined := by decide
  scope := by decide

/-- `tick_handle` calls `sched_tick_hook`, which its header declares. -/
def tickUnit : TranslationUnit where
  mainInput := "kernel/time/tick.c"
  nodes :=
    [ ⟨plainDecl "tick_handle" "kernel/time/tick.c" true false, "",
        [.call (some (plainDecl "sched_tick_hook" "include/linux/tick.h" false false)) []]⟩ ]
  vars := []
  defined := by decide
  scope := by decide

/-- The same with a weak `sched_tick_hook` in the same file. -/
def weakTickUnit : TranslationUnit where
  mainInput := "kernel/time/tick.c"
  nodes :=
    [ ⟨plainDecl "sched_tick_hook" "kernel/time/tick.c" true true, "", []⟩,
      ⟨plainDecl "tick_handle" "kernel/time/tick.c" true false, "",
        [.call (some (plainDecl "sched_tick_hook" "kernel/time/tick.c" true true)) []]⟩ ]
  vars := []
  defined := by decide
  scope := by decide

def hookConfig : CollectConfig where
  modFiles := ["kernel/sched/core.c"]
  sidecar := []
  interface := ["schedule"]
  interfacePrefix := []

/-- The definitions in vmlinux. -/
def hookLink (name : String) : String :=
  if name = "tick_handle" then "kernel/time/tick.c" else "kernel/sched/core.c"

theorem links_of_forall {fns : List FnProp} {link : String → String}
    (h : ∀ fn ∈ fns, Strongest fns fn.name (link fn.name)) : Links fns link := by
  rintro _ ⟨⟨fn, hfn, rfl, -⟩, -⟩
  exact h fn hfn

/-- The call of `tick_handle` is recorded with the linked callee. -/
theorem recordsLinked_iff_tick : RecordsLinked hookConfig [hookUnit, tickUnit] hookLink ∧
    NoHiddenCaller hookConfig [hookUnit, tickUnit] hookLink := by
  refine (recordsLinked_iff hookConfig [hookUnit, tickUnit] hookLink
    (links_of_forall (by unfold Strongest; decide))).mpr ?_
  intro caller callee hcall
  have hpair : (caller, callee) ∈ [(plainDecl "tick_handle" "kernel/time/tick.c" true false,
    plainDecl "sched_tick_hook" "include/linux/tick.h" false false)] := hcall.call
  obtain ⟨rfl, rfl⟩ := Prod.mk.inj (List.mem_singleton.mp hpair)
  rintro _ ⟨fn, hfn, hname, -, rfl, -⟩
  revert fn
  decide

/-- With the weak definition `tick_handle` seems to call this one, and the insider
`sched_tick_hook` has a caller outside that nobody sees. -/
theorem weak_definition_hides_caller :
    Links (functionsOf [hookUnit, weakTickUnit]) hookLink ∧
      ¬ RecordsLinked hookConfig [hookUnit, weakTickUnit] hookLink ∧
      ¬ NoHiddenCaller hookConfig [hookUnit, weakTickUnit] hookLink := by
  have hcall : PublicCall [hookUnit, weakTickUnit]
      (plainDecl "tick_handle" "kernel/time/tick.c" true false)
      (plainDecl "sched_tick_hook" "kernel/time/tick.c" true true) :=
    ⟨by decide, rfl, ⟨by decide, by decide⟩⟩
  refine ⟨links_of_forall (by unfold Strongest; decide), fun hlinked => ?_, fun hhidden => ?_⟩
  · exact absurd (hlinked _ _ hcall) (by decide)
  · let metas := [hookUnit, weakTickUnit].map (collectInfo hookConfig)
    let fc := funcClass hookConfig.toConfig (collected hookConfig.toConfig metas)
      (plainInfo metas) ∅
    exact absurd (hhidden 1000 (plainInfo metas) fc rfl _ _ hcall (by decide)) (by decide)

end Plugsched
