/-
The entries of `export_jump.h`.

For each of the sets `callback`, `interface` and `sidecar` one call of
`get_func_decl_strs` makes the entries; each call looks for clashes among its own
static functions only.  The three sets of entries are then united.

* `getDeclStrs_ok` — what a call that does not raise has found out;
* `entryOf_inj` — an entry determines the name;
* `oneToOne_iff` — when the entries stand for the redirected functions one by one.
-/
import Mathlib.Data.Set.Function
import Plugsched.RedirectedCopies

open ExceptRules

namespace Plugsched

/-! ### Declaration strings -/

/-- `decl_str`. -/
structure DeclStr where
  fn : String
  ret : String
  params : String

/-- A function with its `decl_str`, which `collect_fn` leaves `null` outside the module
and sidecar sources.  The name in it is that of the signature, an identifier. -/
structure FnDecl extends FnProp where
  declStr : Option DeclStr
  named : ∀ d, declStr = some d → d.fn = signature.1
  ident : ',' ∉ signature.1.toList

/-- `decls` after the first pass. -/
def declsOf (config : Config) (fns : List FnDecl) (sig : Signature) : Option FnDecl :=
  (fns.filter fun fn => fn.signature = sig ∧
    (fn.file ∈ config.modFiles ∨ fn.file ∈ config.sdcrSrcs)).getLast?

/-- The entry of a function, for the macro `kind`. -/
def formatEntry (kind : String) (d : DeclStr) : String :=
  kind ++ "(" ++ d.fn ++ ", " ++ d.ret ++ ", " ++ d.params ++ ")\n"

/-- `cb_fmt.format(**decl)`. -/
def cbFmt (d : DeclStr) : String := formatEntry "EXPORT_CALLBACK" d

/-- `export.format(**decl)`. -/
def exportFmt (d : DeclStr) : String := formatEntry "EXPORT_PLUGSCHED" d

/-- The ways in which the output of `export_jump.h` stops. -/
inductive ExportFailure where
  | analysis (failure : Failure)
  | typeError (message : String)

/-- The local variables of `get_func_decl_strs`. -/
structure DeclStrs where
  declStrs : Finset String
  localSyms : Finset String

variable (fc : FuncClass) (decls : Signature → Option FnDecl)

/-- The loop body of `get_func_decl_strs`. -/
def addDeclStr (fmt : DeclStr → String) (st : DeclStrs) (fn : Signature) :
    Except ExportFailure DeclStrs :=
  match decls fn with
  | none => .error (.analysis (.keyError (strSig fn)))
  | some decl =>
    match decl.declStr with
    | none => .error (.typeError "str.format() argument after ** must be a mapping, not NoneType")
    | some d =>
      if fc.globalFnDict fn.1 = some fn.2 then
        .ok { st with declStrs := insert (fmt d) st.declStrs }
      else if fn.1 ∈ st.localSyms then
        .error (.analysis (.assertion
          ("Attempt to redirect a repeating local symbol " ++ strSig fn)))
      else .ok ⟨insert (fmt d) st.declStrs, insert fn.1 st.localSyms⟩

/-- `get_func_decl_strs`. -/
def getDeclStrs (fmt : DeclStr → String) (signatures : List Signature) :
    Except ExportFailure (Finset String) := do
  let st ← signatures.foldlM (addDeclStr fc decls fmt) ⟨∅, ∅⟩
  return st.declStrs

/-- The set `strs` of the lines of `export_jump.h`; the functions are listed in the
order of the sets. -/
def exportJump (callback interface sidecar : List Signature) :
    Except ExportFailure (Finset String) := do
  let cbStrs ← getDeclStrs fc decls cbFmt callback
  let intfStrs ← getDeclStrs fc decls exportFmt interface
  let sdcrStrs ← getDeclStrs fc decls exportFmt sidecar
  return cbStrs ∪ intfStrs ∪ sdcrStrs

/-- `export_jump.h` is generated, with these entries, for some order of the sets. -/
structure Generates (config : Config) (metas : List Meta) (fns : List FnDecl)
    (entries : Finset String) : Prop where
  collected : fns.map FnDecl.toFnProp = metas.flatMap Meta.fn
  written : ∃ callback interface sidecar : List Signature,
    (callback.Nodup ∧ callback.toFinset = fc.callback) ∧
    (interface.Nodup ∧ interface.toFinset = fc.interface) ∧
    (sidecar.Nodup ∧ sidecar.toFinset = fc.sidecar) ∧
    exportJump fc (declsOf config fns) callback interface sidecar = .ok entries

/-! ### Names -/

/-- The definition that is linked for a public name. -/
def FuncClass.Linked (f : Signature) : Prop := fc.globalFnDict f.1 = some f.2

/-- A weak definition that another one overrides. -/
def FuncClass.Overridden (f : Signature) : Prop := f ∈ fc.fakeGlobal ∧ ¬ fc.Linked f

/-- `g` overrides the weak definition `f`. -/
def FuncClass.Overrides (g f : Signature) : Prop :=
  fc.Overridden f ∧ fc.Linked g ∧ g.1 = f.1

instance : DecidablePred fc.Linked := fun _ => inferInstanceAs (Decidable (_ = _))

instance : DecidablePred fc.Overridden := fun _ => inferInstanceAs (Decidable (_ ∧ _))

instance : DecidableRel fc.Overrides := fun _ _ => inferInstanceAs (Decidable (_ ∧ _))

/-- The sets that `get_func_decl_strs` is called for. -/
def FuncClass.redirectedClasses : List (Finset Signature) :=
  [fc.callback, fc.interface, fc.sidecar]

/-- The entry of a function. -/
def entryOf (f : Signature) : String :=
  (((decls f).bind FnDecl.declStr).map (if f ∈ fc.callback then cbFmt else exportFmt)).getD ""

/-- The entries stand for the linked functions to redirect, one for each, and only an
overridden definition shares its name, with the one that overrides it. -/
structure OneToOne (entries : Finset String) : Prop where
  bijOn : Set.BijOn (entryOf fc decls) {f | f ∈ fc.redirected ∧ ¬ fc.Overridden f} ↑entries
  names : ∀ f ∈ fc.redirected, ∀ g ∈ fc.redirected, f.1 = g.1 →
    f = g ∨ fc.Overrides f g ∨ fc.Overrides g f

/-- No clash is left that the assertion does not see: between functions of different
sets, between a static function and a linked one of the same set; and an overridden
definition has the entry of the one that overrides it. -/
structure NoHiddenClash : Prop where
  across : ∀ S ∈ fc.redirectedClasses, ∀ T ∈ fc.redirectedClasses, S ≠ T →
    ∀ f ∈ S, ∀ g ∈ T, f.1 = g.1 → fc.Overrides f g ∨ fc.Overrides g f
  within : ∀ S ∈ fc.redirectedClasses, ∀ f ∈ S, ∀ g ∈ S, f.1 = g.1 → fc.Linked g →
    f = g ∨ fc.Overridden f
  weak : ∀ f ∈ fc.redirected, fc.Overridden f →
    ∃ g ∈ fc.redirected, fc.Overrides g f ∧ entryOf fc decls f = entryOf fc decls g

variable {fc decls}

/-! ### One call -/

/-- What one round has found out. -/
theorem addDeclStr_ok {fmt : DeclStr → String} {st st' : DeclStrs} {fn : Signature}
    (h : addDeclStr fc decls fmt st fn = .ok st') :
    ∃ decl d, decls fn = some decl ∧ decl.declStr = some d ∧
      st'.declStrs = insert (fmt d) st.declStrs ∧
      ((fc.Linked fn ∧ st'.localSyms = st.localSyms) ∨
        (¬ fc.Linked fn ∧ fn.1 ∉ st.localSyms ∧ st'.localSyms = insert fn.1 st.localSyms)) := by
  rw [addDeclStr] at h
  split at h
  · cases h
  · next decl hdecl =>
    split at h
    · cases h
    · next d hd =>
      refine ⟨decl, d, hdecl, hd, ?_⟩
      split at h
      · next hlinked =>
        cases h
        exact ⟨rfl, .inl ⟨hlinked, rfl⟩⟩
      · next hstatic =>
        split at h
        · cases h
        · next hnew =>
          cases h
          exact ⟨rfl, .inr ⟨hstatic, hnew, rfl⟩⟩

/-- Both functions are static, or overridden: the assertion compares their names. -/
def FuncClass.Apart (fc : FuncClass) (f g : Signature) : Prop :=
  ¬ fc.Linked f → ¬ fc.Linked g → f.1 ≠ g.1

/-- What the loop has found out: each function has a declaration, whose string is
collected, and no two names that are not linked agree. -/
theorem foldlM_addDeclStr_ok {fmt : DeclStr → String} {l : List Signature} {st st' : DeclStrs}
    (h : l.foldlM (addDeclStr fc decls fmt) st = .ok st') :
    (∀ f ∈ l, ∃ decl d, decls f = some decl ∧ decl.declStr = some d) ∧
    (∀ s, s ∈ st'.declStrs ↔ s ∈ st.declStrs ∨
      ∃ f ∈ l, ∃ decl d, decls f = some decl ∧ decl.declStr = some d ∧ fmt d = s) ∧
    (∀ f ∈ l, ¬ fc.Linked f → f.1 ∉ st.localSyms) ∧ l.Pairwise fc.Apart := by
  induction l generalizing st with
  | nil =>
    obtain rfl : st = st' := Except.ok.inj h
    simp
  | cons fn l ih =>
    obtain ⟨st₁, hfirst, hrest⟩ := foldlM_cons_ok h
    obtain ⟨decl, d, hdecl, hd, hstrs, hnames⟩ := addDeclStr_ok hfirst
    obtain ⟨hdecls, hmem, hnew, hapart⟩ := ih hrest
    refine ⟨List.forall_mem_cons.mpr ⟨⟨decl, d, hdecl, hd⟩, hdecls⟩, fun s => ?_,
      List.forall_mem_cons.mpr ⟨fun hstatic => ?_, fun f hf hstatic => ?_⟩,
      List.pairwise_cons.mpr ⟨fun f hf hfn hstatic heq => ?_, hapart⟩⟩
    · rw [hmem, hstrs, Finset.mem_insert]
      simp only [List.exists_mem_cons_iff, hdecl, Option.some.injEq]
      constructor
      · rintro ((rfl | hs) | hs)
        · exact .inr (.inl ⟨decl, d, rfl, hd, rfl⟩)
        · exact .inl hs
        · exact .inr (.inr hs)
      · rintro (hs | ⟨_, d', rfl, hd', rfl⟩ | hs)
        · exact .inl (.inr hs)
        · rw [hd] at hd'
          cases hd'
          exact .inl (.inl rfl)
        · exact .inr hs
    · rcases hnames with ⟨hlinked, -⟩ | ⟨-, hfresh, -⟩
      · exact absurd hlinked hstatic
      · exact hfresh
    · have hlater := hnew f hf hstatic
      rcases hnames with ⟨-, hsame⟩ | ⟨-, -, hsame⟩
      · rwa [hsame] at hlater
      · rw [hsame, Finset.mem_insert, not_or] at hlater
        exact hlater.2
    · -- the name of `fn` is recorded when `f` comes
      rcases hnames with ⟨hlinked, -⟩ | ⟨-, -, hsame⟩
      · exact hfn hlinked
      · refine hnew f hf hstatic ?_
        rw [hsame, heq]
        exact Finset.mem_insert_self f.1 st.localSyms

/-- What a call that does not raise has found out about the functions of a set. -/
theorem getDeclStrs_ok {fmt : DeclStr → String} {l : List Signature} {strs : Finset String}
    (h : getDeclStrs fc decls fmt l = .ok strs) :
    (∀ f ∈ l, ∃ decl d, decls f = some decl ∧ decl.declStr = some d) ∧
    (∀ s, s ∈ strs ↔ ∃ f ∈ l, ∃ decl d, decls f = some decl ∧ decl.declStr = some d ∧ fmt d = s) ∧
    ∀ f ∈ l, ∀ g ∈ l, f ≠ g → fc.Apart f g := by
  obtain ⟨st, hloop, hstrs⟩ := bind_eq_ok h
  obtain rfl : st.declStrs = strs := Except.ok.inj hstrs
  obtain ⟨hdecls, hmem, -, hapart⟩ := foldlM_addDeclStr_ok hloop
  refine ⟨hdecls, fun s => ?_, fun f hf g hg hne => ?_⟩
  · rw [hmem]
    simp only [Finset.notMem_empty, false_or]
  · have : Std.Symm fc.Apart := ⟨fun f g hfg hg hf heq => hfg hf hg heq.symm⟩
    exact hapart.forall hf hg hne

/-! ### Entries -/

/-- The text in front of the first comma. -/
theorem takeWhile_entry {front name : List Char} (rest : List Char) (hfront : ',' ∉ front)
    (hname : ',' ∉ name) :
    (front ++ (name ++ ',' :: rest)).takeWhile (· ≠ ',') = front ++ name := by
  rw [← List.append_assoc, List.takeWhile_append_of_pos]
  · simp
  · intro c hc
    rw [decide_eq_true_eq]
    rintro rfl
    rcases List.mem_append.mp hc with hc | hc
    · exact hfront hc
    · exact hname hc

theorem toList_formatEntry (kind : String) (d : DeclStr) :
    ∃ rest, (formatEntry kind d).toList = (kind ++ "(").toList ++ (d.fn.toList ++ ',' :: rest) := by
  refine ⟨' ' :: (d.ret ++ ", " ++ d.params ++ ")\n").toList, ?_⟩
  have hcomma : ", ".toList = [',', ' '] := rfl
  simp only [formatEntry, String.toList_append, List.append_assoc, hcomma, List.cons_append,
    List.nil_append]

theorem formatEntry_inj {kind kind' : String} {d d' : DeclStr}
    (hkind : ',' ∉ (kind ++ "(").toList) (hkind' : ',' ∉ (kind' ++ "(").toList)
    (hd : ',' ∉ d.fn.toList) (hd' : ',' ∉ d'.fn.toList)
    (h : formatEntry kind d = formatEntry kind' d') :
    (kind ++ "(").toList ++ d.fn.toList = (kind' ++ "(").toList ++ d'.fn.toList := by
  obtain ⟨rest, hrest⟩ := toList_formatEntry kind d
  obtain ⟨rest', hrest'⟩ := toList_formatEntry kind' d'
  rw [← takeWhile_entry rest hkind hd, ← takeWhile_entry rest' hkind' hd', ← hrest, ← hrest', h]

/-- The entries of callbacks are never those of other functions. -/
theorem cbFmt_ne_exportFmt {d d' : DeclStr} (hd : ',' ∉ d.fn.toList) (hd' : ',' ∉ d'.fn.toList) :
    cbFmt d ≠ exportFmt d' := by
  intro h
  have heq := formatEntry_inj (by decide) (by decide) hd hd' h
  -- the macro names differ in the eighth letter
  have hletter : some 'C' = some 'P' := congrArg (fun l : List Char => l[7]?) heq
  exact absurd hletter (by decide)

theorem formatEntry_name_inj {kind : String} {d d' : DeclStr} (hkind : ',' ∉ (kind ++ "(").toList)
    (hd : ',' ∉ d.fn.toList) (hd' : ',' ∉ d'.fn.toList)
    (h : formatEntry kind d = formatEntry kind d') : d.fn = d'.fn :=
  String.ext (List.append_cancel_left (formatEntry_inj hkind hkind hd hd' h))

/-- The entry of a function with a declaration. -/
theorem entryOf_eq {f : Signature} {decl : FnDecl} {d : DeclStr} (hdecl : decls f = some decl)
    (hd : decl.declStr = some d) :
    entryOf fc decls f = if f ∈ fc.callback then cbFmt d else exportFmt d := by
  rw [entryOf, hdecl, Option.bind_some, hd, Option.map_some, Option.getD_some]
  split <;> rfl

/-- `decls` keeps the declarations under their signatures. -/
def Keyed (decls : Signature → Option FnDecl) : Prop :=
  ∀ f decl, decls f = some decl → decl.signature = f

theorem keyed_declsOf (config : Config) (fns : List FnDecl) : Keyed (declsOf config fns) := by
  intro f decl h
  have hmem := List.mem_of_getLast? h
  have htest := (List.mem_filter.mp hmem).2
  exact (decide_eq_true_eq.mp htest).1

/-- The function has a declaration. -/
def HasDecl (decls : Signature → Option FnDecl) (f : Signature) : Prop :=
  ∃ decl d, decls f = some decl ∧ decl.declStr = some d

/-- An entry determines the name of the function, and whether it is a callback. -/
theorem entryOf_inj (hkey : Keyed decls) {f g : Signature} (hf : HasDecl decls f)
    (hg : HasDecl decls g) (h : entryOf fc decls f = entryOf fc decls g) :
    f.1 = g.1 ∧ (f ∈ fc.callback ↔ g ∈ fc.callback) := by
  obtain ⟨decl, d, hdecl, hd⟩ := hf
  obtain ⟨decl', d', hdecl', hd'⟩ := hg
  have hname := decl.named d hd
  have hname' := decl'.named d' hd'
  have hcomma := decl.ident
  have hcomma' := decl'.ident
  rw [hkey f decl hdecl] at hname hcomma
  rw [hkey g decl' hdecl'] at hname' hcomma'
  rw [← hname] at hcomma
  rw [← hname'] at hcomma'
  rw [← hname, ← hname']
  rw [entryOf_eq hdecl hd, entryOf_eq hdecl' hd'] at h
  by_cases hcb : f ∈ fc.callback
  · by_cases hcb' : g ∈ fc.callback
    · rw [if_pos hcb, if_pos hcb'] at h
      exact ⟨formatEntry_name_inj (by decide) hcomma hcomma' h, iff_of_true hcb hcb'⟩
    · rw [if_pos hcb, if_neg hcb'] at h
      exact absurd h (cbFmt_ne_exportFmt hcomma hcomma')
  · by_cases hcb' : g ∈ fc.callback
    · rw [if_neg hcb, if_pos hcb'] at h
      exact absurd h.symm (cbFmt_ne_exportFmt hcomma' hcomma)
    · rw [if_neg hcb, if_neg hcb'] at h
      exact ⟨formatEntry_name_inj (by decide) hcomma hcomma' h, iff_of_false hcb hcb'⟩

/-! ### The whole output -/

/-- What the generation has found out: the entries are those of the redirected
functions, and names that are not linked differ inside each set. -/
structure Written (fc : FuncClass) (decls : Signature → Option FnDecl) (entries : Finset String) :
    Prop where
  hasDecl : ∀ f ∈ fc.redirected, HasDecl decls f
  mem : ∀ s, s ∈ entries ↔ ∃ f ∈ fc.redirected, entryOf fc decls f = s
  apart : ∀ S ∈ fc.redirectedClasses, ∀ f ∈ S, ∀ g ∈ S, f ≠ g → fc.Apart f g

/-- One of the three calls. -/
theorem getDeclStrs_class {fmt : DeclStr → String} {l : List Signature} {S : Finset Signature}
    {strs : Finset String} (hS : l.toFinset = S)
    (hfmt : ∀ f ∈ S, ∀ d, fmt d = if f ∈ fc.callback then cbFmt d else exportFmt d)
    (h : getDeclStrs fc decls fmt l = .ok strs) :
    (∀ f ∈ S, HasDecl decls f) ∧ (∀ s, s ∈ strs ↔ ∃ f ∈ S, entryOf fc decls f = s) ∧
      ∀ f ∈ S, ∀ g ∈ S, f ≠ g → fc.Apart f g := by
  obtain ⟨hdecls, hmem, hapart⟩ := getDeclStrs_ok h
  subst hS
  simp only [List.mem_toFinset] at hfmt ⊢
  refine ⟨hdecls, fun s => ?_, hapart⟩
  rw [hmem]
  refine exists_congr fun f => and_congr_right fun hf => ?_
  constructor
  · rintro ⟨decl, d, hdecl, hd, hs⟩
    rw [entryOf_eq hdecl hd, ← hfmt f hf]
    exact hs
  · intro hs
    obtain ⟨decl, d, hdecl, hd⟩ := hdecls f hf
    rw [entryOf_eq hdecl hd, ← hfmt f hf] at hs
    exact ⟨decl, d, hdecl, hd, hs⟩

theorem mem_redirected {f : Signature} :
    f ∈ fc.redirected ↔ f ∈ fc.callback ∨ f ∈ fc.interface ∨ f ∈ fc.sidecar := by
  rw [FuncClass.redirected, Finset.mem_union, Finset.mem_union, or_assoc]

/-- The analysis keeps the three sets apart. -/
theorem disjoint_of_analyze {config : Config} {limit : ℕ} {metas : List Meta}
    {lines : List (List String)} (h : analyze config limit metas lines = .ok fc) :
    Disjoint fc.callback fc.interface ∧ Disjoint fc.sidecar fc.border := by
  obtain ⟨info, -, hclass⟩ := analyze_ok h
  obtain ⟨sdcrLeft, -, hcheck⟩ := bind_eq_ok hclass
  dsimp only at hcheck
  split at hcheck
  · next hborder =>
    cases hcheck
    refine ⟨Finset.disjoint_left.mpr fun f hcb hint => ?_,
      Finset.disjoint_iff_inter_eq_empty.mpr hborder⟩
    exact (Finset.mem_sdiff.mp (Finset.mem_sdiff.mp hcb).1).2 hint
  · cases hcheck

/-- The border is made of the callbacks and the interfaces. -/
theorem border_eq {config : Config} {limit : ℕ} {metas : List Meta} {lines : List (List String)}
    (h : analyze config limit metas lines = .ok fc) : fc.border = fc.interface ∪ fc.callback := by
  obtain ⟨info, -, hclass⟩ := analyze_ok h
  obtain ⟨_, rfl⟩ := funcClassArithmetics_ok hclass
  rfl

theorem classes_disjoint {config : Config} {limit : ℕ} {metas : List Meta}
    {lines : List (List String)} (h : analyze config limit metas lines = .ok fc) :
    ∀ S ∈ fc.redirectedClasses, ∀ T ∈ fc.redirectedClasses, S ≠ T → Disjoint S T := by
  obtain ⟨hcbi, hborder⟩ := disjoint_of_analyze h
  rw [border_eq h, Finset.disjoint_union_right] at hborder
  obtain ⟨hsi, hsc⟩ := hborder
  simp only [FuncClass.redirectedClasses, List.forall_mem_cons]
  refine ⟨⟨fun hne => absurd rfl hne, fun _ => hcbi, fun _ => hsc.symm, by simp⟩,
    ⟨fun _ => hcbi.symm, fun hne => absurd rfl hne, fun _ => hsi.symm, by simp⟩,
    ⟨fun _ => hsc, fun _ => hsi, fun hne => absurd rfl hne, by simp⟩, by simp⟩

theorem written_of_generates {config : Config} {limit : ℕ} {metas : List Meta}
    {lines : List (List String)} {fns : List FnDecl} {entries : Finset String}
    (hfc : analyze config limit metas lines = .ok fc) (h : Generates fc config metas fns entries) :
    Written fc (declsOf config fns) entries := by
  obtain ⟨hintf, hborder⟩ := disjoint_of_analyze hfc
  rw [border_eq hfc, Finset.disjoint_union_right] at hborder
  obtain ⟨-, cb, intf, sdcr, ⟨-, hcb⟩, ⟨-, hint⟩, ⟨-, hsd⟩, hrun⟩ := h
  obtain ⟨cbStrs, hcbStrs, hrun⟩ := bind_eq_ok hrun
  obtain ⟨intfStrs, hintfStrs, hrun⟩ := bind_eq_ok hrun
  obtain ⟨sdcrStrs, hsdcrStrs, hrun⟩ := bind_eq_ok hrun
  obtain rfl : cbStrs ∪ intfStrs ∪ sdcrStrs = entries := Except.ok.inj hrun
  obtain ⟨hd₁, hm₁, ha₁⟩ := getDeclStrs_class hcb
    (fun f hf d => by rw [if_pos hf]) hcbStrs
  obtain ⟨hd₂, hm₂, ha₂⟩ := getDeclStrs_class hint
    (fun f hf d => by rw [if_neg (Finset.disjoint_right.mp hintf hf)]) hintfStrs
  obtain ⟨hd₃, hm₃, ha₃⟩ := getDeclStrs_class hsd
    (fun f hf d => by rw [if_neg (Finset.disjoint_left.mp hborder.2 hf)]) hsdcrStrs
  refine ⟨fun f hf => ?_, fun s => ?_, ?_⟩
  · rcases mem_redirected.mp hf with hf | hf | hf
    · exact hd₁ f hf
    · exact hd₂ f hf
    · exact hd₃ f hf
  · simp only [Finset.mem_union, hm₁, hm₂, hm₃, mem_redirected, or_and_right, exists_or, or_assoc]
  · simp only [FuncClass.redirectedClasses, List.forall_mem_cons]
    exact ⟨ha₁, ha₂, ha₃, by simp⟩

theorem exists_class_of_redirected {f : Signature} (hf : f ∈ fc.redirected) :
    ∃ S ∈ fc.redirectedClasses, f ∈ S := by
  rcases mem_redirected.mp hf with hf | hf | hf
  · exact ⟨_, List.mem_cons_self, hf⟩
  · exact ⟨_, List.mem_cons_of_mem _ List.mem_cons_self, hf⟩
  · exact ⟨_, List.mem_cons_of_mem _ (List.mem_cons_of_mem _ List.mem_cons_self), hf⟩

theorem redirected_of_mem_class {S : Finset Signature} (hS : S ∈ fc.redirectedClasses)
    {f : Signature} (hf : f ∈ S) : f ∈ fc.redirected := by
  rw [mem_redirected]
  simp only [FuncClass.redirectedClasses, List.mem_cons, List.not_mem_nil, or_false] at hS
  rcases hS with rfl | rfl | rfl
  · exact .inl hf
  · exact .inr (.inl hf)
  · exact .inr (.inr hf)

/-- Without hidden clashes only overridden definitions share a name. -/
theorem names_of_noHiddenClash {entries : Finset String} (hw : Written fc decls entries)
    (h : NoHiddenClash fc decls) {f g : Signature} (hf : f ∈ fc.redirected)
    (hg : g ∈ fc.redirected) (hname : f.1 = g.1) :
    f = g ∨ fc.Overrides f g ∨ fc.Overrides g f := by
  by_cases hne : f = g
  · exact .inl hne
  right
  obtain ⟨S, hS, hfS⟩ := exists_class_of_redirected hf
  obtain ⟨T, hT, hgT⟩ := exists_class_of_redirected hg
  by_cases hST : S = T
  · subst hST
    by_cases hgl : fc.Linked g
    · rcases h.within S hS f hfS g hgT hname hgl with heq | hover
      · exact absurd heq hne
      · exact .inr ⟨hover, hgl, hname.symm⟩
    · by_cases hfl : fc.Linked f
      · rcases h.within S hS g hgT f hfS hname.symm hfl with heq | hover
        · exact absurd heq.symm hne
        · exact .inl ⟨hover, hfl, hname⟩
      · -- the assertion has compared the two
        exact absurd hname (hw.apart S hS f hfS g hgT hne hfl hgl)
  · exact h.across S hS T hT hST f hfS g hgT hname

/-- **The entries of `export_jump.h`.**  If they are generated at all, they stand for
the linked functions to redirect, one for each, exactly if no clash is left that the
assertion does not see. -/
theorem oneToOne_iff (config : Config) (limit : ℕ) (metas : List Meta)
    (lines : List (List String)) (fc : FuncClass) (fns : List FnDecl) (entries : Finset String)
    (h : analyze config limit metas lines = .ok fc)
    (hgen : Generates fc config metas fns entries) :
    OneToOne fc (declsOf config fns) entries ↔ NoHiddenClash fc (declsOf config fns) := by
  have hdisj := classes_disjoint h
  have hw := written_of_generates h hgen
  have hkey := keyed_declsOf config fns
  constructor
  · intro hone
    refine ⟨fun S hS T hT hST f hf g hg hname => ?_, fun S hS f hf g hg hname hgl => ?_,
      fun f hf hover => ?_⟩
    · rcases hone.names f (redirected_of_mem_class hS hf) g (redirected_of_mem_class hT hg) hname
        with rfl | hover
      · exact absurd hg (Finset.disjoint_left.mp (hdisj S hS T hT hST) hf)
      · exact hover
    · rcases hone.names f (redirected_of_mem_class hS hf) g (redirected_of_mem_class hS hg) hname
        with hfg | hover | hover
      · exact .inl hfg
      · exact absurd hgl hover.1.2
      · exact .inr hover.1
    · -- the entry of `f` is that of a function which is not overridden
      obtain ⟨g, ⟨hg, hgo⟩, hentry⟩ := hone.bijOn.surjOn ((hw.mem _).mpr ⟨f, hf, rfl⟩)
      have hname := (entryOf_inj hkey (hw.hasDecl g hg) (hw.hasDecl f hf) hentry).1
      rcases hone.names g hg f hf hname with rfl | hgf | hfg
      · exact absurd hover hgo
      · exact ⟨g, hg, hgf, hentry.symm⟩
      · exact absurd hfg.1 hgo
  · intro hclash
    have hnames := fun f hf g hg hname =>
      names_of_noHiddenClash hw hclash (f := f) (g := g) hf hg hname
    refine ⟨⟨fun f hf => ?_, fun f hf g hg heq => ?_, fun s hs => ?_⟩, hnames⟩
    · exact (hw.mem _).mpr ⟨f, hf.1, rfl⟩
    · have hname := (entryOf_inj hkey (hw.hasDecl f hf.1) (hw.hasDecl g hg.1) heq).1
      rcases hnames f hf.1 g hg.1 hname with hfg | hover | hover
      · exact hfg
      · exact absurd hover.1 hg.2
      · exact absurd hover.1 hf.2
    · obtain ⟨f, hf, rfl⟩ := (hw.mem s).mp hs
      by_cases hover : fc.Overridden f
      · obtain ⟨g, hg, hgf, hentry⟩ := hclash.weak f hf hover
        exact ⟨g, ⟨hg, fun hgo => hgo.2 hgf.2.1⟩, hentry.symm⟩
      · exact ⟨f, ⟨hf, hover⟩, rfl⟩

/-! ### Generated lines and accepted analyses -/

/-- A declaration is recorded for module and sidecar functions only. -/
theorem mem_of_declsOf {config : Config} {metas : List Meta} {fns : List FnDecl} {f : Signature}
    {decl : FnDecl} (hcol : fns.map FnDecl.toFnProp = metas.flatMap Meta.fn)
    (h : declsOf config fns f = some decl) :
    f ∈ (collected config metas).modFns ∪ (collected config metas).sdcrFns := by
  obtain ⟨hmem, htest⟩ := List.mem_filter.mp (List.mem_of_getLast? h)
  obtain ⟨rfl, hfile⟩ := decide_eq_true_eq.mp htest
  have hfn : decl.toFnProp ∈ metas.flatMap Meta.fn := by
    rw [← hcol]
    exact List.mem_map_of_mem hmem
  have hsig : ∀ p : FnProp → Bool, p decl.toFnProp = true →
      decl.signature ∈ signatures (metas.flatMap Meta.fn) p := fun p hp =>
    List.mem_toFinset.mpr (List.mem_map_of_mem (List.mem_filter.mpr ⟨hfn, hp⟩))
  rcases hfile with hfile | hfile
  · exact Finset.mem_union_left _ (hsig _ (decide_eq_true hfile))
  · exact Finset.mem_union_right _ (hsig _ (decide_eq_true hfile))

theorem foldlM_declStr_ok {fmt : DeclStr → String} {l : List Signature} {st st' : DeclStrs}
    (hmem : ∀ f ∈ l, f ∈ fc.modFns ∪ fc.sdcrFns)
    (h : l.foldlM (addDeclStr fc decls fmt) st = .ok st') :
    l.foldlM (declStr fc) st.localSyms = .ok st'.localSyms := by
  induction l generalizing st with
  | nil =>
    obtain rfl : st = st' := Except.ok.inj h
    rfl
  | cons fn l ih =>
    obtain ⟨hfn, hl⟩ := List.forall_mem_cons.mp hmem
    obtain ⟨st₁, hfirst, hrest⟩ := foldlM_cons_ok h
    have hstep : declStr fc st.localSyms fn = .ok st₁.localSyms := by
      obtain ⟨_, _, -, -, -, hnames⟩ := addDeclStr_ok hfirst
      rw [declStr, if_neg (not_not.mpr hfn)]
      rw [FuncClass.Linked] at hnames
      rcases hnames with ⟨hlinked, hsame⟩ | ⟨hstatic, hnew, hsame⟩
      · rw [if_pos hlinked, hsame]
      · rw [if_neg hstatic, if_neg hnew, hsame]
    rw [List.foldlM_cons, hstep]
    exact ih hl hrest

/-- Where the entries are generated, the names of each set pass the assertion. -/
theorem declared_of_generates {config : Config} {limit : ℕ} {metas : List Meta}
    {lines : List (List String)} {fns : List FnDecl} {entries : Finset String}
    (hfc : analyze config limit metas lines = .ok fc) (h : Generates fc config metas fns entries) :
    Declared fc fc.callback ∧ Declared fc fc.interface ∧ Declared fc fc.sidecar := by
  obtain ⟨hcol, cb, intf, sdcr, hcb, hint, hsd, hrun⟩ := h
  obtain ⟨_, hcbStrs, hrun⟩ := bind_eq_ok hrun
  obtain ⟨_, hintfStrs, hrun⟩ := bind_eq_ok hrun
  obtain ⟨_, hsdcrStrs, -⟩ := bind_eq_ok hrun
  have hclass : fc.modFns ∪ fc.sdcrFns =
      (collected config metas).modFns ∪ (collected config metas).sdcrFns := by
    obtain ⟨_, -, hclass⟩ := analyze_ok hfc
    obtain ⟨_, rfl⟩ := funcClassArithmetics_ok hclass
    rfl
  have hone : ∀ (fmt : DeclStr → String) (l : List Signature) (S : Finset Signature)
      (strs : Finset String), l.Nodup ∧ l.toFinset = S →
      getDeclStrs fc (declsOf config fns) fmt l = .ok strs → Declared fc S := by
    intro fmt l S strs hl hstrs
    obtain ⟨st, hloop, -⟩ := bind_eq_ok hstrs
    refine ⟨l, hl.1, hl.2, (l.map Prod.fst).toFinset, ?_⟩
    have hmem : ∀ f ∈ l, f ∈ fc.modFns ∪ fc.sdcrFns := by
      intro f hf
      obtain ⟨decl, _, hdecl, -⟩ := (getDeclStrs_ok hstrs).1 f hf
      rw [hclass]
      exact mem_of_declsOf hcol hdecl
    rw [getFuncDeclStrs, foldlM_declStr_ok hmem hloop]
    rfl
  exact ⟨hone _ cb _ _ hcb hcbStrs, hone _ intf _ _ hint hintfStrs, hone _ sdcr _ _ hsd hsdcrStrs⟩

/-! ### Two static functions -/

/-- A static function with a declaration. -/
def showDecl (name file : String) (h : ',' ∉ name.toList) : FnDecl where
  toFnProp := { plainFn name file with isPublic := false }
  declStr := some ⟨name, "int", "struct seq_file *"⟩
  named d hd := by
    cases hd
    rfl
  ident := h

/-- The static interface `show_stat` of `core.c`, and a static sidecar of `cpuacct.c`. -/
def showDecls (sidecar : String) (h : ',' ∉ sidecar.toList) : List FnDecl :=
  [showDecl "show_stat" "kernel/sched/core.c" (by decide),
    showDecl sidecar "kernel/sched/cpuacct.c" h]

def showMetas (sidecar : String) (h : ',' ∉ sidecar.toList) : List Meta :=
  [ { path := "kernel/sched/core.c.boundary"
      fn := ((showDecls sidecar h).take 1).map FnDecl.toFnProp
      edge := []
      callback := []
      interface := [("show_stat", "kernel/sched/core.c")] },
    { path := "kernel/sched/cpuacct.c.boundary"
      fn := ((showDecls sidecar h).drop 1).map FnDecl.toFnProp
      edge := []
      callback := []
      interface := [] } ]

def showConfig (sidecar : String) : Config where
  modFiles := ["kernel/sched/core.c"]
  sidecar := [(sidecar, "kernel/sched/cpuacct.c")]

def showLines (sidecar : String) : List (List String) :=
  [[], [], [], elfRow "FILE" "LOCAL" "core.c", elfRow "FUNC" "LOCAL" "show_stat",
    elfRow "FILE" "LOCAL" "cpuacct.c", elfRow "FUNC" "LOCAL" sidecar]

def showClass (sidecar : String) (h : ',' ∉ sidecar.toList) : FuncClass :=
  ((analyze (showConfig sidecar) 1000 (showMetas sidecar h) (showLines sidecar)).toOption).getD
    smallClass

def showEntries (sidecar : String) : Finset String :=
  {exportFmt ⟨"show_stat", "int", "struct seq_file *"⟩,
    exportFmt ⟨sidecar, "int", "struct seq_file *"⟩}

/-- Under different names both get an entry. -/
theorem oneToOne_iff_show : OneToOne (showClass "usage_show" (by decide))
    (declsOf (showConfig "usage_show") (showDecls "usage_show" (by decide)))
    (showEntries "usage_show") := by
  refine (oneToOne_iff (showConfig "usage_show") 1000 (showMetas "usage_show" (by decide))
    (showLines "usage_show") (showClass "usage_show" (by decide))
    (showDecls "usage_show" (by decide)) (showEntries "usage_show") rfl ?_).mpr ?_
  · exact ⟨rfl, [], [("show_stat", "kernel/sched/core.c")],
      [("usage_show", "kernel/sched/cpuacct.c")], by decide, by decide, by decide, rfl⟩
  · exact ⟨by decide, by decide, by decide⟩

/-- Two static functions `show_stat` of different sets share one entry, and no assertion
fires. -/
theorem static_namesakes_collapse :
    analyze (showConfig "show_stat") 1000 (showMetas "show_stat" (by decide))
        (showLines "show_stat") = .ok (showClass "show_stat" (by decide)) ∧
      Generates (showClass "show_stat" (by decide)) (showConfig "show_stat")
        (showMetas "show_stat" (by decide)) (showDecls "show_stat" (by decide))
        (showEntries "show_stat") ∧
      (showEntries "show_stat").card = 1 ∧
      ("show_stat", "kernel/sched/core.c") ∈
        (showClass "show_stat" (by decide)).redirected ∧
      ("show_stat", "kernel/sched/cpuacct.c") ∈
        (showClass "show_stat" (by decide)).redirected ∧
      ¬ OneToOne (showClass "show_stat" (by decide))
        (declsOf (showConfig "show_stat") (showDecls "show_stat" (by decide)))
        (showEntries "show_stat") := by
  refine ⟨rfl, ⟨rfl, [], [("show_stat", "kernel/sched/core.c")],
    [("show_stat", "kernel/sched/cpuacct.c")], by decide, by decide, by decide, rfl⟩, by decide,
    by decide, by decide, fun hone => ?_⟩
  rcases hone.names ("show_stat", "kernel/sched/core.c") (by decide)
    ("show_stat", "kernel/sched/cpuacct.c") (by decide) rfl with h | h | h
  · exact absurd h (by decide)
  · exact absurd h (by decide)
  · exact absurd h (by decide)

end Plugsched
