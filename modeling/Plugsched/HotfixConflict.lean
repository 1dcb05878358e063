/-
When `hotfix_conflict_check` fails.

* `mem_kpatchOld`, `mem_manual`, `mem_funcList` — the hotfixes that the script finds;
* `conflict_iff` — a conflict is found or missed;
* `hotfixConflictCheck_iff` — when the script fails;
* `hotfixConflictCheck_exact_iff` — when it fails for a conflict only.
-/
import Plugsched.HotfixScript

open TextLines Paths UniqLines

namespace Plugsched

/-! ### The lists that are compared -/

theorem taintedLine_tntFmt {name : Line} (h : IsSysName name) (sympos : ℕ) :
    taintedLine (tntFmt name sympos) = some (triple name sympos vmlinux) := by
  have htag : taintedFunction.any isFieldSep = false := by decide
  have hfields : (tntFmt name sympos).splitOnP isFieldSep =
      [taintedFunction, name, Nat.toDigits 10 sympos, []] := by
    rw [tntFmt, List.splitOnP_append_cons _ _ (by decide),
      List.splitOnP_append_cons _ _ (by decide),
      List.splitOnP_append_cons _ _ (by decide), List.splitOnP_eq_singleton fun c hc =>
        Bool.eq_false_iff.mpr (List.any_eq_false.mp htag c hc),
      List.splitOnP_eq_singleton fun c hc => isFieldSep_of_plain (h.plain c hc),
      List.splitOnP_eq_singleton fun c hc => isFieldSep_of_plain (plain_toDigits sympos c hc),
      List.splitOnP_nil]
    rfl
  rw [taintedLine, hfields]
  show (if name ≠ [] then _ else _) = _
  rw [if_pos h.1]
  rfl

/-! ### The directories below a start -/

section Below

variable {hotfixes : List Hotfix} {dir : TreePath} {patch : Line}

theorem Subdir.plain (subdir : Subdir) : ',' ∉ subdir.dir ∧ '/' ∉ subdir.dir := by
  cases subdir <;> decide

theorem Subdir.not_manual (subdir : Subdir) : ¬ manualPrefix <+: subdir.dir := by
  cases subdir <;> decide

/-- The directory of a function has no separators in its names, but the one in front of a
position. -/
theorem Hotfix.plain_path (h : Hotfix) : ∀ name ∈ h.path.dropLast, ',' ∉ name ∧ '/' ∉ name := by
  intro name hname
  match h with
  | .kpatchOld patch func =>
    rcases (by simpa [Hotfix.path] using hname : name = Subdir.kpatch.dir ∨ name = patchesDir ∨
      name = patch.1 ∨ name = functionsDir) with rfl | rfl | rfl | rfl
    · exact Subdir.kpatch.plain
    · decide
    · exact ⟨patch.2.notMem (by decide), patch.2.notMem (by decide)⟩
    · decide
  | .recorded subdir patch object func sympos =>
    rcases (by simpa [Hotfix.path] using hname : name = subdir.dir ∨ name = patch.1 ∨
      name = object.1) with rfl | rfl | rfl
    · exact subdir.plain
    · exact ⟨patch.2.notMem (by decide), patch.2.notMem (by decide)⟩
    · exact ⟨object.2.notMem (by decide), object.2.notMem (by decide)⟩
  | .manual top func =>
    obtain rfl : name = manualPrefix ++ top.1 := by simpa [Hotfix.path] using hname
    rw [List.mem_append, List.mem_append, not_or, not_or]
    exact ⟨⟨by decide, top.2.notMem (by decide)⟩, by decide, top.2.notMem (by decide)⟩

/-- A directory of the tree is that of a function, or its last name has no separators. -/
theorem eq_path_or_plain (hdir : dir ∈ sysfsTree hotfixes) :
    (∃ h ∈ hotfixes, dir = h.path) ∨
      ∃ dir' name, dir = dir' ++ [name] ∧ ',' ∉ name ∧ '/' ∉ name := by
  obtain ⟨hne, h, hh, hbelow⟩ := mem_sysfsTree.mp hdir
  have hpath : h.path ≠ [] := by
    rintro heq
    exact hne (List.prefix_nil.mp (heq ▸ hbelow))
  rw [← List.dropLast_append_getLast hpath, List.prefix_concat_iff,
    List.dropLast_append_getLast hpath] at hbelow
  rcases hbelow with rfl | hbelow
  · exact .inl ⟨h, hh, rfl⟩
  · refine .inr ⟨dir.dropLast, dir.getLast hne, (List.dropLast_append_getLast hne).symm, ?_⟩
    exact h.plain_path _ (hbelow.subset (List.getLast_mem hne))

theorem path_mem_sysfsTree {h : Hotfix} (hh : h ∈ hotfixes) : h.path ∈ sysfsTree hotfixes := by
  refine mem_sysfsTree.mpr ⟨?_, h, hh, List.prefix_rfl⟩
  cases h <;> exact List.cons_ne_nil _ _

theorem take_path_mem_sysfsTree {h : Hotfix} (hh : h ∈ hotfixes) (k : ℕ) :
    h.path.take (k + 1) ∈ sysfsTree hotfixes := by
  refine mem_sysfsTree.mpr ⟨?_, h, hh, List.take_prefix _ _⟩
  cases h <;> exact List.cons_ne_nil _ _

/-- A directory below a start is longer. -/
theorem length_lt_of_below {start : TreePath} (hstart : start <+: dir) (hne : dir ≠ start) :
    start.length < dir.length :=
  lt_of_le_of_ne hstart.length_le fun heq => hne (hstart.eq_of_length heq).symm

/-- The functions that hotfixes of the old kpatch show. -/
theorem mem_kpatchOld {f : Line} :
    f ∈ ((findDirs (sysfsTree hotfixes) globFunctions []).filter fun path =>
        ¬ ('/' :: functionsDir) <:+ path).map afterSlash ↔
      ∃ patch func, Hotfix.kpatchOld patch func ∈ hotfixes ∧ func.1 ≠ functionsDir ∧
        func.1 = f := by
  simp only [List.mem_map, List.mem_filter, mem_findDirs, ite_self, List.append_nil,
    decide_eq_true_eq]
  constructor
  · rintro ⟨_, ⟨⟨start, -, hglob, dir, hdir, hstart, rfl⟩, hpath⟩, rfl⟩
    obtain ⟨-, h, hh, hbelow⟩ := mem_sysfsTree.mp hdir
    match start, hglob with
    | [kpatch, patches, patch, functions], hglob =>
      obtain ⟨-, -, -, rfl⟩ := of_decide_eq_true hglob
      -- the start itself is left out
      have hne : dir ≠ [kpatch, patches, patch, functionsDir] := by
        rintro rfl
        refine hpath ((suffix_printPath_iff [kpatch, patches, patch] ?_ (by decide)).mpr rfl)
        decide
      have hlen : 4 < dir.length := length_lt_of_below hstart hne
      have hle := hbelow.length_le
      match h with
      | .kpatchOld patch func =>
        have hfunc : '/' ∉ func.1 := func.2.notMem (by decide)
        obtain rfl := hbelow.eq_of_length (le_antisymm hle hlen)
        refine ⟨patch, func, hh, ?_, ?_⟩
        · rintro heq
          exact hpath ((suffix_printPath_iff [_, _, _, _] hfunc (by decide)).mpr heq)
        · exact (afterSlash_printPath [_, _, _, _] hfunc).symm
      | .recorded subdir patch object func sympos =>
        exact absurd (hlen.trans_le hle) (Nat.lt_irrefl 4)
      | .manual name func =>
        exact absurd (hlen.trans_le hle) (show ¬ 4 < 2 by decide)
  · rintro ⟨patch, func, hh, hne, rfl⟩
    have hfunc : '/' ∉ func.1 := func.2.notMem (by decide)
    refine ⟨printPath (Hotfix.kpatchOld patch func).path, ⟨⟨_, take_path_mem_sysfsTree hh 3, ?_, _,
      path_mem_sysfsTree hh, List.take_prefix _ _, rfl⟩, ?_⟩, ?_⟩
    · show decide (_ ∧ _) = true
      rw [decide_eq_true_eq]
      exact ⟨rfl, rfl, decide_eq_true patch.2.2.1, rfl⟩
    · rintro hsuffix
      exact hne ((suffix_printPath_iff [_, _, _, _] hfunc (by decide)).mp hsuffix)
    · exact afterSlash_printPath [_, _, _, _] hfunc

theorem exists_of_globManual {start : TreePath} (h : globManual start = true) :
    ∃ top, start = [top] ∧ manualPrefix <+: top := by
  rcases start with _ | ⟨top, _ | ⟨_, _⟩⟩
  · cases h
  · exact ⟨top, rfl, of_decide_eq_true h⟩
  · cases h

/-- The functions that manual hotfixes show. -/
theorem mem_manual {f : Line} :
    f ∈ ((findDirs (sysfsTree hotfixes) globManual ['/']).filter fun path =>
        ¬ (manualPrefix <:+: path ∧ ['/'] <:+ path)).map afterSlash ↔
      ∃ name func, Hotfix.manual name func ∈ hotfixes ∧ func.1 = f := by
  simp only [List.mem_map, List.mem_filter, mem_findDirs, decide_eq_true_eq]
  constructor
  · rintro ⟨_, ⟨⟨start, -, hglob, dir, hdir, hstart, rfl⟩, hpath⟩, rfl⟩
    obtain ⟨-, h, hh, hbelow⟩ := mem_sysfsTree.mp hdir
    obtain ⟨top, rfl, hmanual⟩ := exists_of_globManual hglob
    -- the start itself is left out
    have hne : dir ≠ [top] := by
      rintro rfl
      obtain ⟨rest, rfl⟩ := hmanual
      refine hpath ⟨?_, ?_⟩
      · rw [if_pos rfl]
        exact ⟨sysKernel ++ ['/'], rest ++ ['/'], by simp [printPath]⟩
      · rw [if_pos rfl]
        exact List.suffix_append _ _
    have hlen : 1 < dir.length := length_lt_of_below hstart hne
    have hle := hbelow.length_le
    have htop := hstart.trans hbelow
    cases h with
    | kpatchOld patch func =>
      obtain ⟨rfl, -⟩ : top = Subdir.kpatch.dir ∧ _ := List.cons_prefix_cons.mp htop
      exact absurd hmanual (Subdir.not_manual .kpatch)
    | recorded subdir patch object func sympos =>
      obtain ⟨rfl, -⟩ : top = subdir.dir ∧ _ := List.cons_prefix_cons.mp htop
      exact absurd hmanual subdir.not_manual
    | manual name func =>
      obtain rfl := hbelow.eq_of_length (le_antisymm hle hlen)
      refine ⟨name, func, hh, ?_⟩
      rw [if_neg hne, List.append_nil]
      exact (afterSlash_printPath [_] (func.2.notMem (by decide))).symm
  · rintro ⟨name, func, hh, rfl⟩
    have hfunc : '/' ∉ func.1 := func.2.notMem (by decide)
    refine ⟨printPath (Hotfix.manual name func).path, ⟨⟨_, take_path_mem_sysfsTree hh 0, ?_, _,
      path_mem_sysfsTree hh, List.take_prefix _ _, ?_⟩, ?_⟩, ?_⟩
    · show decide (manualPrefix <+: manualPrefix ++ name.1) = true
      exact decide_eq_true (List.prefix_append _ _)
    · rw [if_neg (by simp [Hotfix.path]), List.append_nil]
    · rintro ⟨-, hsuffix⟩
      exact func.2.1 ((suffix_printPath_iff [_] hfunc (List.not_mem_nil)).mp hsuffix)
    · exact afterSlash_printPath [_] hfunc

/-- The lines of hotfixes that record positions. -/
theorem mem_funcList {line : Line} :
    line ∈ funcList (sysfsTree hotfixes) ↔ ∃ subdir patch object func sympos,
      Hotfix.recorded subdir patch object func sympos ∈ hotfixes ∧ sympos < 10 ∧
        triple func.1 sympos object.1 = line := by
  simp only [funcList, List.mem_flatMap, List.mem_map, List.mem_filter, mem_findDirs]
  constructor
  · rintro ⟨subdir, -, _, ⟨⟨start, -, -, dir, hdir, -, rfl⟩, hends⟩, rfl⟩
    by_cases heq : dir = start
    · rw [if_pos heq, endsInPosition_append] at hends
      cases hends
    rw [if_neg heq, List.append_nil] at hends ⊢
    rcases eq_path_or_plain hdir with ⟨h, hh, rfl⟩ | ⟨dir', name, rfl, hcomma, -⟩
    · match h with
      | .recorded subdir patch object func sympos =>
        refine ⟨subdir, patch, object, func, sympos, hh, ?_, ?_⟩
        · rw [show (Hotfix.recorded subdir patch object func sympos).path =
            [subdir.dir, patch.1, object.1] ++ [_] from rfl, printPath_concat,
            endsInPosition_append, endsInPosition_position] at hends
          exact of_decide_eq_true hends
        · exact (funcVerMod_printPath [_, _] func.2 object.2 sympos).symm
      | .kpatchOld patch func =>
        rw [show (Hotfix.kpatchOld patch func).path = [_, _, _, _] ++ [func.1] from rfl,
          printPath_concat, endsInPosition_append,
          endsInPosition_of_notMem (func.2.notMem (by decide))] at hends
        cases hends
      | .manual name func =>
        rw [show (Hotfix.manual name func).path = [_] ++ [func.1] from rfl,
          printPath_concat, endsInPosition_append,
          endsInPosition_of_notMem (func.2.notMem (by decide))] at hends
        cases hends
    · rw [printPath_concat, endsInPosition_append, endsInPosition_of_notMem hcomma] at hends
      cases hends
  · rintro ⟨subdir, patch, object, func, sympos, hh, hlt, rfl⟩
    refine ⟨subdir, by cases subdir <;> simp, printPath (Hotfix.recorded subdir patch object func
      sympos).path, ⟨⟨_, take_path_mem_sysfsTree hh 1, ?_, _, path_mem_sysfsTree hh,
      List.take_prefix _ _, ?_⟩, ?_⟩, funcVerMod_printPath [_, _] func.2 object.2 sympos⟩
    · exact decide_eq_true ⟨rfl, decide_eq_true patch.2.2.1⟩
    · rw [if_neg (by simp [Hotfix.path]), List.append_nil]
    · show endsInPosition (printPath ([subdir.dir, patch.1, object.1] ++ [_])) = true
      rw [printPath_concat, endsInPosition_append, endsInPosition_position]
      exact decide_eq_true hlt

/-- What is found of the hotfixes that patch a function. -/
theorem exists_collected_iff {name : Line} {sympos : ℕ} :
    (∃ h ∈ hotfixes, h.collected = true ∧ h.Patches name sympos) ↔
      (∃ subdir patch object func, Hotfix.recorded subdir patch object func sympos ∈ hotfixes ∧
        sympos < 10 ∧ func.1 = name ∧ object.1 = vmlinux) ∨
      (∃ patch func, Hotfix.kpatchOld patch func ∈ hotfixes ∧ func.1 ≠ functionsDir ∧
        func.1 = name) ∨
      ∃ top func, Hotfix.manual top func ∈ hotfixes ∧ func.1 = name := by
  constructor
  · rintro ⟨h, hh, hcollected, hpatches⟩
    match h with
    | .recorded subdir patch object func pos =>
      obtain ⟨hname, rfl, hobject⟩ := hpatches
      exact .inl ⟨subdir, patch, object, func, hh, of_decide_eq_true hcollected, hname, hobject⟩
    | .kpatchOld patch func =>
      exact .inr (.inl ⟨patch, func, hh, of_decide_eq_true hcollected, hpatches⟩)
    | .manual top func => exact .inr (.inr ⟨top, func, hh, hpatches⟩)
  · rintro (⟨subdir, patch, object, func, hh, hlt, hname, hobject⟩ | ⟨patch, func, hh, hne, hname⟩ |
      ⟨top, func, hh, hname⟩)
    · exact ⟨_, hh, decide_eq_true hlt, hname, rfl, hobject⟩
    · exact ⟨_, hh, decide_eq_true hne, hname⟩
    · exact ⟨_, hh, rfl, hname⟩

theorem isSysName_vmlinux : IsSysName vmlinux := by decide

theorem isWord_vmlinux : IsWord vmlinux := isSysName_vmlinux.isWord

theorem mem_awkTriple_funcList {name : Line} (hname : IsSysName name) {sympos : ℕ} :
    triple name sympos vmlinux ∈ (funcList (sysfsTree hotfixes)).map awkTriple ↔
      ∃ subdir patch object func, Hotfix.recorded subdir patch object func sympos ∈ hotfixes ∧
        sympos < 10 ∧ func.1 = name ∧ object.1 = vmlinux := by
  rw [List.mem_map]
  constructor
  · rintro ⟨line, hline, heq⟩
    obtain ⟨subdir, patch, object, func, pos, hh, hlt, rfl⟩ := mem_funcList.mp hline
    rw [awkTriple_triple func.2.isWord pos object.2.isWord, triple_inj func.2.isWord
      object.2.isWord hname.isWord isWord_vmlinux] at heq
    obtain ⟨hfunc, rfl, hobject⟩ := heq
    exact ⟨subdir, patch, object, func, hh, hlt, hfunc, hobject⟩
  · rintro ⟨subdir, patch, object, func, hh, hlt, rfl, hobject⟩
    refine ⟨_, mem_funcList.mpr ⟨subdir, patch, object, func, sympos, hh, hlt, rfl⟩, ?_⟩
    rw [awkTriple_triple func.2.isWord sympos object.2.isWord, hobject]

theorem isWord_of_mem_earlyFuncs {kallsyms : List Line} {name : Line}
    (h : name ∈ earlyFuncs kallsyms) : IsWord name := by
  simp only [earlyFuncs, List.mem_filter, List.mem_map, decide_eq_true_eq] at h
  obtain ⟨⟨⟨⟨line, -, rfl⟩, -⟩, hne⟩, -⟩ := h
  rw [awkField] at hne ⊢
  cases hget : (words line)[3 - 1]? with
  | none =>
    rw [List.getD_eq_getElem?_getD, hget] at hne
    exact absurd rfl hne
  | some w =>
    rw [List.getD_eq_getElem?_getD, hget]
    exact isWord_of_mem_words (List.mem_of_getElem? hget)

theorem mem_awkField_funcListNosympos {kallsyms : List Line} {name : Line} :
    name ∈ (funcListNosympos (sysfsTree hotfixes) kallsyms).map (awkField 1) ↔
      (∃ patch func, Hotfix.kpatchOld patch func ∈ hotfixes ∧ func.1 ≠ functionsDir ∧
        func.1 = name) ∨
      (∃ top func, Hotfix.manual top func ∈ hotfixes ∧ func.1 = name) ∨
        name ∈ earlyFuncs kallsyms := by
  have hword : ∀ f ∈ funcListNosympos (sysfsTree hotfixes) kallsyms, awkField 1 f = f := by
    intro f hf
    rw [funcListNosympos, List.mem_append, List.mem_append] at hf
    rcases hf with (hf | hf) | hf
    · obtain ⟨patch, func, -, -, rfl⟩ := mem_kpatchOld.mp hf
      exact awkField_of_isWord func.2.isWord
    · obtain ⟨top, func, -, rfl⟩ := mem_manual.mp hf
      exact awkField_of_isWord func.2.isWord
    · exact awkField_of_isWord (isWord_of_mem_earlyFuncs hf)
  rw [List.map_congr_left hword, List.map_id', funcListNosympos, List.mem_append, List.mem_append,
    mem_kpatchOld, mem_manual, or_assoc]

end Below

/-! ### When the script fails -/

/-- The tainted functions of a build, in the order in which the set is enumerated; their
names are identifiers. -/
structure TaintedList (fc : FuncClass) (tainted : List Signature) : Prop where
  nodup : tainted.Nodup
  mem : ∀ fn, fn ∈ tainted ↔ fn ∈ fc.tainted
  names : ∀ fn ∈ tainted, IsSysName fn.1.toList

/-- Some tainted function is patched by a hotfix, with a directory or without. -/
def Conflict (fc : FuncClass) (hotfixes : List Hotfix) (kallsyms : List Line) : Prop :=
  ∃ fn ∈ fc.tainted, (∃ h ∈ hotfixes, h.Patches fn.1.toList (fc.taintedPos fn)) ∨
    EarlyPatches kallsyms fn.1.toList

/-- The tests on paths and symbols let a hotfix through that patches a tainted function. -/
def FoundConflict (fc : FuncClass) (hotfixes : List Hotfix) (kallsyms : List Line) : Prop :=
  ∃ fn ∈ fc.tainted,
    (∃ h ∈ hotfixes, h.collected = true ∧ h.Patches fn.1.toList (fc.taintedPos fn)) ∨
    EarlyPatches kallsyms fn.1.toList ∧ ListedSymbol kallsyms fn.1.toList

/-- A hotfix patches a tainted function, and the tests do not let it through. -/
def MissedConflict (fc : FuncClass) (hotfixes : List Hotfix) (kallsyms : List Line) : Prop :=
  ∃ fn ∈ fc.tainted,
    (∃ h ∈ hotfixes, h.collected = false ∧ h.Patches fn.1.toList (fc.taintedPos fn)) ∨
    EarlyPatches kallsyms fn.1.toList ∧ ¬ ListedSymbol kallsyms fn.1.toList

/-- Two tainted functions have one name. -/
def SharedName (fc : FuncClass) : Prop :=
  ∃ fn ∈ fc.tainted, ∃ fn' ∈ fc.tainted, fn ≠ fn' ∧ fn.1 = fn'.1

/-- Two tainted functions have one name, or a module has a symbol of the name of one, and only
a longer name stands behind `e9_`. -/
def FalseAlarm (fc : FuncClass) (kallsyms : List Line) : Prop :=
  SharedName fc ∨ ∃ fn ∈ fc.tainted, ListedSymbol kallsyms fn.1.toList ∧
    MarkedSymbol kallsyms fn.1.toList ∧ ¬ EarlyPatches kallsyms fn.1.toList

section Check

variable {fc : FuncClass} {tainted : List Signature} {hotfixes : List Hotfix}
  {kallsyms : List Line}

theorem taintedFile_eq (h : TaintedList fc tainted) :
    taintedFile fc tainted =
      tainted.map fun fn => triple fn.1.toList (fc.taintedPos fn) vmlinux := by
  rw [taintedFile, taintedHeader, List.filterMap_map, ← List.filterMap_eq_map]
  exact List.filterMap_congr fun fn hfn => taintedLine_tntFmt (h.names fn hfn) _

theorem names_taintedFile (h : TaintedList fc tainted) :
    (taintedFile fc tainted).map (awkField 1) = tainted.map fun fn => fn.1.toList := by
  rw [taintedFile_eq h, List.map_map]
  exact List.map_congr_left fun fn hfn =>
    awkField_triple (h.names fn hfn).isWord _ isWord_vmlinux

theorem nodup_names_iff (h : TaintedList fc tainted) :
    (tainted.map fun fn => fn.1.toList).Nodup ↔ ¬ SharedName fc := by
  rw [List.nodup_map_iff_inj_on h.nodup]
  constructor
  · rintro hinj ⟨fn, hfn, fn', hfn', hne, hname⟩
    exact hne (hinj fn ((h.mem fn).mpr hfn) fn' ((h.mem fn').mpr hfn')
      (congrArg String.toList hname))
  · intro hnone fn hfn fn' hfn' hname
    by_contra hne
    exact hnone ⟨fn, (h.mem fn).mp hfn, fn', (h.mem fn').mp hfn', hne, String.toList_inj.mp hname⟩

/-- The test for common lines of two lists. -/
theorem holdsText_merged {l l' : List Line} (hl : ∀ line ∈ l, line ≠ []) :
    holdsText (uniqD (sort (l ++ uniq (sort l')))) = true ↔
      ¬ l.Nodup ∨ ∃ line ∈ l, line ∈ l' := by
  rw [holdsText, List.any_eq_true, List.nodup_iff_forall_not_duplicate, not_forall_not]
  constructor
  · rintro ⟨line, hline, -⟩
    rcases mem_uniqD_merged.mp hline with hdup | hboth
    · exact .inl ⟨line, hdup⟩
    · exact .inr ⟨line, hboth⟩
  · rintro (⟨line, hdup⟩ | ⟨line, hboth⟩)
    · exact ⟨line, mem_uniqD_merged.mpr (.inl hdup), decide_eq_true (hl line hdup.mem)⟩
    · exact ⟨line, mem_uniqD_merged.mpr (.inr hboth), decide_eq_true (hl line hboth.1)⟩

/-- A list of functions that is empty takes the branch for lines without positions. -/
theorem holdsText_conflicts (h : TaintedList fc tainted) :
    holdsText (conflicts (taintedFile fc tainted) (sysfsTree hotfixes)) = true ↔
      ¬ (taintedFile fc tainted).Nodup ∨ ∃ line ∈ taintedFile fc tainted,
        line ∈ (funcList (sysfsTree hotfixes)).map awkTriple := by
  have hne : ∀ line ∈ taintedFile fc tainted, line ≠ [] := by
    intro line hline
    rw [taintedFile_eq h] at hline
    obtain ⟨fn, hfn, rfl⟩ := List.mem_map.mp hline
    exact List.append_ne_nil_of_left_ne_nil (h.names fn hfn).1 _
  rw [conflicts]
  rcases List.eq_nil_or_concat' tainted with rfl | ⟨rest, fn, rfl⟩
  · have hnil : taintedFile fc [] = [] := rfl
    rw [hnil, if_pos (by decide), List.map_nil, holdsText_merged (by simp)]
    simp
  · have hfn := h.names fn (by simp)
    have hthree : (words ((taintedFile fc (rest ++ [fn])).getLastD [])).length = 3 := by
      rw [taintedFile_eq h, List.map_append, List.map_singleton, List.getLastD_concat,
        words_triple hfn.isWord _ isWord_vmlinux]
      rfl
    rw [if_neg (not_not.mpr hthree), holdsText_merged hne]

theorem holdsText_conflictsNosympos (h : TaintedList fc tainted) :
    holdsText (conflictsNosympos (taintedFile fc tainted) (sysfsTree hotfixes) kallsyms) = true ↔
      SharedName fc ∨ ∃ name ∈ tainted.map (fun fn => fn.1.toList),
        name ∈ (funcListNosympos (sysfsTree hotfixes) kallsyms).map (awkField 1) := by
  rw [conflictsNosympos, names_taintedFile h, holdsText_merged, nodup_names_iff h, not_not]
  intro name hname
  obtain ⟨fn, hfn, rfl⟩ := List.mem_map.mp hname
  exact (h.names fn hfn).1

/-- What the lists have in common. -/
theorem common_iff (h : TaintedList fc tainted) :
    ((∃ line ∈ taintedFile fc tainted, line ∈ (funcList (sysfsTree hotfixes)).map awkTriple) ∨
      ∃ name ∈ tainted.map (fun fn => fn.1.toList),
        name ∈ (funcListNosympos (sysfsTree hotfixes) kallsyms).map (awkField 1)) ↔
      ∃ fn ∈ fc.tainted, (∃ hf ∈ hotfixes, hf.collected = true ∧
          hf.Patches fn.1.toList (fc.taintedPos fn)) ∨
        ListedSymbol kallsyms fn.1.toList ∧ MarkedSymbol kallsyms fn.1.toList := by
  have hfn : ∀ fn ∈ tainted, (triple fn.1.toList (fc.taintedPos fn) vmlinux ∈
          (funcList (sysfsTree hotfixes)).map awkTriple ∨
        fn.1.toList ∈ (funcListNosympos (sysfsTree hotfixes) kallsyms).map (awkField 1)) ↔
      ((∃ hf ∈ hotfixes, hf.collected = true ∧ hf.Patches fn.1.toList (fc.taintedPos fn)) ∨
        ListedSymbol kallsyms fn.1.toList ∧ MarkedSymbol kallsyms fn.1.toList) := by
    intro fn hfn
    rw [exists_collected_iff, mem_awkTriple_funcList (h.names fn hfn),
      mem_awkField_funcListNosympos, mem_earlyFuncs (h.names fn hfn).1, or_assoc, or_assoc]
  rw [taintedFile_eq h]
  constructor
  · rintro (⟨line, hmem, hline⟩ | ⟨name, hmem, hname⟩)
    · obtain ⟨fn, htainted, rfl⟩ := List.mem_map.mp hmem
      exact ⟨fn, (h.mem fn).mp htainted, (hfn fn htainted).mp (.inl hline)⟩
    · obtain ⟨fn, htainted, rfl⟩ := List.mem_map.mp hmem
      exact ⟨fn, (h.mem fn).mp htainted, (hfn fn htainted).mp (.inr hname)⟩
  · rintro ⟨fn, hmem, hfound⟩
    have htainted := (h.mem fn).mpr hmem
    rcases (hfn fn htainted).mpr hfound with hline | hname
    · exact .inl ⟨_, List.mem_map_of_mem htainted, hline⟩
    · exact .inr ⟨_, List.mem_map_of_mem htainted, hname⟩

theorem hotfixConflictCheck_eq_one_iff (h : TaintedList fc tainted) :
    (hotfixConflictCheck (taintedFile fc tainted) (sysfsTree hotfixes) kallsyms).1 = 1 ↔
      SharedName fc ∨ ∃ fn ∈ fc.tainted,
        (∃ hf ∈ hotfixes, hf.collected = true ∧ hf.Patches fn.1.toList (fc.taintedPos fn)) ∨
          ListedSymbol kallsyms fn.1.toList ∧ MarkedSymbol kallsyms fn.1.toList := by
  -- copies of a line are functions of one name
  have hdup : ¬ (taintedFile fc tainted).Nodup → SharedName fc := by
    intro hdup
    by_contra hnone
    rw [← nodup_names_iff h, ← names_taintedFile h] at hnone
    exact hdup (List.Nodup.of_map _ hnone)
  have hstatus : (hotfixConflictCheck (taintedFile fc tainted) (sysfsTree hotfixes)
      kallsyms).1 = 1 ↔ holdsText (conflicts (taintedFile fc tainted) (sysfsTree hotfixes)) = true ∨
        holdsText (conflictsNosympos (taintedFile fc tainted) (sysfsTree hotfixes) kallsyms) =
          true := by
    rw [hotfixConflictCheck, ← Bool.or_eq_true]
    split
    · next hfails => exact ⟨fun _ => hfails, fun _ => rfl⟩
    · next hpasses =>
      exact ⟨fun heq => absurd heq Nat.zero_ne_one, fun hfails => absurd hfails hpasses⟩
  rw [hstatus, holdsText_conflicts h, holdsText_conflictsNosympos h, ← common_iff h]
  constructor
  · rintro ((hcopies | hline) | hshared | hname)
    · exact .inl (hdup hcopies)
    · exact .inr (.inl hline)
    · exact .inl hshared
    · exact .inr (.inr hname)
  · rintro (hshared | hline | hname)
    · exact .inr (.inl hshared)
    · exact .inl (.inr hline)
    · exact .inr (.inr hname)

/-- The script fails for a conflict that it finds, and for a false alarm. -/
theorem hotfixConflictCheck_iff (h : TaintedList fc tainted) :
    (hotfixConflictCheck (taintedFile fc tainted) (sysfsTree hotfixes) kallsyms).1 = 1 ↔
      FoundConflict fc hotfixes kallsyms ∨ FalseAlarm fc kallsyms := by
  rw [hotfixConflictCheck_eq_one_iff h]
  constructor
  · rintro (hshared | ⟨fn, hfn, hhotfix | ⟨hlisted, hmarked⟩⟩)
    · exact .inr (.inl hshared)
    · exact .inl ⟨fn, hfn, .inl hhotfix⟩
    · by_cases hearly : EarlyPatches kallsyms fn.1.toList
      · exact .inl ⟨fn, hfn, .inr ⟨hearly, hlisted⟩⟩
      · exact .inr (.inr ⟨fn, hfn, hlisted, hmarked, hearly⟩)
  · rintro (⟨fn, hfn, hhotfix | ⟨hearly, hlisted⟩⟩ | hshared | ⟨fn, hfn, hlisted, hmarked, -⟩)
    · exact .inr ⟨fn, hfn, .inl hhotfix⟩
    · exact .inr ⟨fn, hfn, .inr ⟨hlisted, hearly.marked⟩⟩
    · exact .inl hshared
    · exact .inr ⟨fn, hfn, .inr ⟨hlisted, hmarked⟩⟩

/-- A conflict is found or missed. -/
theorem conflict_iff :
    Conflict fc hotfixes kallsyms ↔
      FoundConflict fc hotfixes kallsyms ∨ MissedConflict fc hotfixes kallsyms := by
  constructor
  · rintro ⟨fn, hfn, ⟨hf, hmem, hpatches⟩ | hearly⟩
    · cases hcol : hf.collected with
      | true => exact .inl ⟨fn, hfn, .inl ⟨hf, hmem, hcol, hpatches⟩⟩
      | false => exact .inr ⟨fn, hfn, .inl ⟨hf, hmem, hcol, hpatches⟩⟩
    · by_cases hlisted : ListedSymbol kallsyms fn.1.toList
      · exact .inl ⟨fn, hfn, .inr ⟨hearly, hlisted⟩⟩
      · exact .inr ⟨fn, hfn, .inr ⟨hearly, hlisted⟩⟩
  · rintro (⟨fn, hfn, ⟨hf, hmem, -, hpatches⟩ | ⟨hearly, -⟩⟩ |
      ⟨fn, hfn, ⟨hf, hmem, -, hpatches⟩ | ⟨hearly, -⟩⟩)
    · exact ⟨fn, hfn, .inl ⟨hf, hmem, hpatches⟩⟩
    · exact ⟨fn, hfn, .inr hearly⟩
    · exact ⟨fn, hfn, .inl ⟨hf, hmem, hpatches⟩⟩
    · exact ⟨fn, hfn, .inr hearly⟩

/-- **Hotfixes.**  The script fails exactly for conflicts, if and only if it finds one, or
a false alarm comes exactly with a conflict that it does not find. -/
theorem hotfixConflictCheck_exact_iff (fc : FuncClass) (tainted : List Signature)
    (hotfixes : List Hotfix) (kallsyms : List Line) (h : TaintedList fc tainted) :
    ((hotfixConflictCheck (taintedFile fc tainted) (sysfsTree hotfixes) kallsyms).1 = 1 ↔
        Conflict fc hotfixes kallsyms) ↔
      FoundConflict fc hotfixes kallsyms ∨
        (FalseAlarm fc kallsyms ↔ MissedConflict fc hotfixes kallsyms) := by
  rw [hotfixConflictCheck_iff h, conflict_iff]
  constructor
  · intro hiff
    by_cases hfound : FoundConflict fc hotfixes kallsyms
    · exact .inl hfound
    · rw [or_iff_right hfound, or_iff_right hfound] at hiff
      exact .inr hiff
  · rintro (hfound | hiff)
    · exact iff_of_true (.inl hfound) (.inl hfound)
    · rw [hiff]

end Check

/-- The name in sysfs. -/
def sysName (text : String) (h : IsSysName text.toList) : SysName := ⟨text.toList, h⟩

/-- `schedule` and `pick_next`. -/
def smallTainted : List Signature :=
  [("schedule", "kernel/sched/core.c"), ("pick_next", "kernel/sched/core.c")]

/-- A kpatch for `pick_next`. -/
def smallHotfix : Hotfix :=
  .recorded .kpatch (sysName "kpatch_5135717" (by decide)) (sysName "vmlinux" (by decide))
    (sysName "pick_next" (by decide)) 1

theorem taintedList_of_toFinset {fc : FuncClass} {tainted : List Signature} (hnodup : tainted.Nodup)
    (hset : tainted.toFinset = fc.tainted) (hnames : ∀ fn ∈ tainted, IsSysName fn.1.toList) :
    TaintedList fc tainted where
  nodup := hnodup
  mem fn := by rw [← hset, List.mem_toFinset]
  names := hnames

theorem hotfixConflictCheck_exact_small :
    (hotfixConflictCheck (taintedFile smallClass smallTainted) (sysfsTree [smallHotfix]) []).1 = 1 ↔
      Conflict smallClass [smallHotfix] [] := by
  refine (hotfixConflictCheck_exact_iff smallClass smallTainted [smallHotfix] []
    (taintedList_of_toFinset (by decide) (by decide) (by decide))).mpr (.inl ?_)
  exact ⟨("pick_next", "kernel/sched/core.c"), by decide,
    .inl ⟨smallHotfix, List.mem_singleton_self _, rfl, rfl, by decide, rfl⟩⟩

/-! ### A false alarm -/

/-- Two files of the scheduler have a static function `update_load`. -/
def namesakeConfig : Config where
  modFiles := ["kernel/sched/core.c", "kernel/sched/fair.c"]
  sidecar := []

def namesakeMetas : List Meta :=
  [ { path := "kernel/sched/core.c.boundary"
      fn := [plainFn "schedule" "kernel/sched/core.c",
        { plainFn "update_load" "kernel/sched/core.c" with isPublic := false }]
      edge := [⟨("schedule", "kernel/sched/core.c"), ("update_load", "kernel/sched/core.c")⟩]
      callback := []
      interface := [("schedule", "kernel/sched/core.c")] },
    { path := "kernel/sched/fair.c.boundary"
      fn := [{ plainFn "update_load" "kernel/sched/fair.c" with isPublic := false }]
      edge := []
      callback := []
      interface := [] } ]

def namesakeLines : List (List String) :=
  [[], [], [], elfRow "FILE" "LOCAL" "core.c", elfRow "FUNC" "LOCAL" "update_load",
    elfRow "FILE" "LOCAL" "fair.c", elfRow "FUNC" "LOCAL" "update_load",
    elfRow "FUNC" "GLOBAL" "schedule"]

def namesakeClass : FuncClass :=
  ((analyze namesakeConfig 1000 namesakeMetas namesakeLines).toOption).getD smallClass

def namesakeTainted : List Signature :=
  [("schedule", "kernel/sched/core.c"), ("update_load", "kernel/sched/core.c"),
    ("update_load", "kernel/sched/fair.c")]

/-- Without any hotfix the script reports a conflict for `update_load`. -/
theorem namesakes_reported :
    Accepts namesakeConfig 1000 namesakeMetas namesakeLines namesakeClass ∧
      TaintedList namesakeClass namesakeTainted ∧
      ¬ ((hotfixConflictCheck (taintedFile namesakeClass namesakeTainted) (sysfsTree []) []).1 = 1 ↔
        Conflict namesakeClass [] []) := by
  have htainted : TaintedList namesakeClass namesakeTainted :=
    taintedList_of_toFinset (by decide) (by decide) (by decide)
  refine ⟨?_, htainted, ?_⟩
  · exact
      { analyzed := rfl
        checked := by decide
        callbacks := ⟨[], by decide, by decide, _, rfl⟩
        interfaces := ⟨[("schedule", "kernel/sched/core.c")], by decide, by decide, _, rfl⟩
        sidecars := ⟨[], by decide, by decide, _, rfl⟩ }
  · intro hiff
    have hshared : SharedName namesakeClass :=
      ⟨("update_load", "kernel/sched/core.c"), by decide, ("update_load", "kernel/sched/fair.c"),
        by decide, by decide, rfl⟩
    obtain ⟨fn, -, ⟨hf, hmem, -⟩ | ⟨line, hmem, -⟩⟩ :=
      hiff.mp ((hotfixConflictCheck_iff htainted).mpr (.inr (.inl hshared)))
    · exact absurd hmem List.not_mem_nil
    · exact absurd hmem List.not_mem_nil

/-- A hotfix of `pick_next_task` that has a function `pick_next` of its own is reported as one
of `pick_next`. -/
example : earlyFuncs ["ffffffffc0001000 t pick_next\t[kpatch_1]".toList,
    "ffffffffc0002000 b e9_pick_next_task\t[kpatch_1]".toList] = ["pick_next".toList] := by
  decide

end Plugsched
