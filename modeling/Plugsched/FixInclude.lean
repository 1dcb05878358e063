/-
`fix_include`: the quoted includes of an extracted file.

A quoted include is looked up from the directory of the file that it stands in.
Module files are extracted into `mod_dir` under their base names, sidecar files
keep their path below it.  An include of a module header is left as it is, any
other is rewritten to lead from the new directory to the old header.

* `fixInclude_eq` — what becomes of a line;
* `fixInclude_iff` — when the new include leads where it should;
* `keepsInclude_of_bare`, `not_keepsInclude_of_sidecar` — headers named without a
  directory, in module and in sidecar files.
-/
import Plugsched.Extract
import Plugsched.Paths

open ExceptRules TextLines Paths

namespace Plugsched

/-! ### Files -/

/-- A path from the source root, as `boundary.yaml` lists the files. -/
def Normal (file : String) : Prop :=
  ∃ names, names ≠ [] ∧ Proper names ∧ file.toList = ['/'].intercalate names

/-- The extraction of one file, in the directory `cwd`. -/
structure Extraction where
  config : Config
  cwd : TreePath
  srcFile : String
  modDir : String
  proper : Proper cwd
  slash : modDir.toList.getLast? = some '/'
  normal : ∀ f ∈ config.modFiles, Normal f

namespace Extraction

variable (e : Extraction)

/-- `dst_file`, for the source file `f`. -/
def dstOf (f : String) : Line :=
  if f ∈ e.config.sdcrSrcs then e.modDir.toList ++ f.toList
  else e.modDir.toList ++ Paths.basename f.toList

def dstFile : Line := e.dstOf e.srcFile

/-- `os.path.relpath`. -/
def relpath (path start : Line) : Except ExtractFailure Line :=
  match Paths.relpath e.cwd path start with
  | some rel => .ok rel
  | none => .error (.valueError "no path specified")

/-- `fix_include`. -/
def fixInclude (line : Line) : Except ExtractFailure Line := do
  let oldHeader ←
    match (line.splitOn '"')[1]? with
    | some header => pure header
    | none => throw .indexError
  let relHeader ← e.relpath (joinPath (dirname e.srcFile.toList) oldHeader) ['.']
  if String.ofList relHeader ∈ e.config.modFiles then
    -- the header is extracted as well
    return line
  else
    let newHeader ← e.relpath relHeader (dirname e.dstFile)
    return replaceAll oldHeader newHeader line

/-! ### Includes -/

/-- The place of a file. -/
def place (path : Line) : TreePath := walk e.cwd path

/-- The place that a quoted include in `file` means. -/
def included (file header : Line) : TreePath := walk (e.place (dirname file)) header

/-- The place that the include meant before. -/
def meant (header : Line) : TreePath := e.included e.srcFile.toList header

end Extraction

/-- The line `#include "header"`, and what may follow it. -/
def IncludeLine (line header : Line) : Prop :=
  '"' ∉ header ∧ ∃ post, line = "#include ".toList ++ '"' :: (header ++ '"' :: post)

/-- The line still is an include: of the extracted header, if the header is one of the
module's files, and else of the file that was meant before. -/
def Extraction.FixesInclude (e : Extraction) (header line : Line) : Prop :=
  ∃ line' header', e.fixInclude line = .ok line' ∧ IncludeLine line' header' ∧
    (∀ f ∈ e.config.modFiles, e.place f.toList = e.meant header →
      e.included e.dstFile header' = e.place (e.dstOf f)) ∧
    ((∀ f ∈ e.config.modFiles, e.place f.toList ≠ e.meant header) →
      e.included e.dstFile header' = e.meant header)

/-- The directory in which a header of the module is named leads, from the directory of the
extracted file, to that of the extracted header.  Any other header is not named by a
part of the word `#include`, unless the extracted file stays in its directory, and no name on
the way to it has a quotation mark. -/
def Extraction.KeepsInclude (e : Extraction) (header : Line) : Prop :=
  (∀ f ∈ e.config.modFiles, e.place f.toList = e.meant header →
    walk (e.place (dirname e.dstFile)) (dirname header) = e.place (dirname (e.dstOf f))) ∧
  ((∀ f ∈ e.config.modFiles, e.place f.toList ≠ e.meant header) →
    (header <:+: "#include ".toList →
      e.place (dirname e.dstFile) = e.place (dirname e.srcFile.toList)) ∧
    ∀ name ∈ below (e.place (dirname e.dstFile)) (e.meant header), '"' ∉ name)

section Lines

variable {line header header' : Line}

theorem getElem?_splitOn_include (h : IncludeLine line header) :
    (line.splitOn '"')[1]? = some header := by
  obtain ⟨hquote, post, rfl⟩ := h
  rw [List.splitOn_append_cons_self_of_not_mem (by decide),
    List.splitOn_append_cons_self_of_not_mem hquote]
  rfl

theorem IncludeLine.unique (h : IncludeLine line header) (h' : IncludeLine line header') :
    header = header' :=
  Option.some.inj ((getElem?_splitOn_include h).symm.trans (getElem?_splitOn_include h'))

/-- The line after the replacement. -/
theorem replaceAll_include (hne : header ≠ []) (new : Line) {post : Line} (hquote : '"' ∉ header) :
    replaceAll header new ("#include ".toList ++ '"' :: (header ++ '"' :: post)) =
      replaceAll header new "#include ".toList ++
        '"' :: (new ++ '"' :: replaceAll header new post) := by
  have hafter : replaceAll header new ('"' :: post) = '"' :: replaceAll header new post := by
    have h : replaceAll header new ([] ++ '"' :: post) = _ :=
      replaceAll_append_cons hne hquote [] post
    rwa [replaceAll_nil hne, List.nil_append, List.nil_append] at h
  rw [replaceAll_append_cons hne hquote, replaceAll_hit hne, hafter]

/-- The line with the name of the header replaced, if nothing else is. -/
theorem replaceAll_include_eq (hne : header ≠ []) {new : Line} (post : Line)
    (hquote : '"' ∉ header) (h : header <:+: "#include ".toList → new = header) :
    replaceAll header new ("#include ".toList ++ '"' :: (header ++ '"' :: post)) =
      "#include ".toList ++ '"' :: (new ++ '"' :: replaceAll header new post) := by
  rw [replaceAll_include hne new hquote]
  -- only the word in front of the name is in question
  congr 1
  by_cases hdiff : new = header
  · rw [hdiff, replaceAll_self hne]
  · exact (replaceAll_eq_self_iff_of_ne hne hdiff _).mpr fun hpart => hdiff (h hpart)

/-- When the line is an include after the replacement. -/
theorem includeLine_replace_iff (hne : header ≠ []) {new post : Line} (hquote : '"' ∉ header)
    (hnew : '"' ∉ new) :
    (∃ header', IncludeLine (replaceAll header new
        ("#include ".toList ++ '"' :: (header ++ '"' :: post))) header') ↔
      (header <:+: "#include ".toList → new = header) := by
  constructor
  · rintro ⟨header', -, post', heq⟩ hpart
    -- a name that is a part of `#include` would be replaced there too
    by_contra hdiff
    have hfront : '"' ∉ replaceAll header new "#include ".toList := by
      intro h
      rcases mem_replaceAll hne h with h | h
      · exact hnew h
      · exact absurd h (by decide)
    -- both lines are the same up to the first quotation mark
    have hsame : replaceAll header new "#include ".toList = "#include ".toList := by
      have h₁ := List.splitOn_append_cons_self_of_not_mem hfront
        (new ++ '"' :: replaceAll header new post)
      have h₂ := List.splitOn_append_cons_self_of_not_mem
        (by decide : '"' ∉ "#include ".toList) (header' ++ '"' :: post')
      rw [← replaceAll_include hne new hquote, heq, h₂] at h₁
      exact (List.cons.inj h₁).1.symm
    exact (replaceAll_eq_self_iff_of_ne hne hdiff _).mp hsame hpart
  · intro h
    rw [replaceAll_include_eq hne post hquote h]
    exact ⟨new, hnew, _, rfl⟩

end Lines

/-! ### Places -/

namespace Extraction

section Places

variable (e : Extraction) {f : String} {header line : Line}

theorem proper_place (path : Line) : Proper (e.place path) := proper_walk e.proper path

theorem proper_meant (header : Line) : Proper (e.meant header) :=
  proper_walk (e.proper_place _) header

theorem relpath_eq {path : Line} (h : path ≠ []) (start : Line) :
    e.relpath path start = .ok (relative (e.place start) (e.place path)) := by
  rw [relpath, Paths.relpath, if_neg h]
  rfl

theorem place_dot : e.place ['.'] = e.cwd := rfl

/-- The two names of a file of the module, by its path and by where it lies. -/
theorem relative_place (hf : Normal f) : relative e.cwd (e.place f.toList) = f.toList := by
  obtain ⟨names, hne, hproper, hf⟩ := hf
  have hhead : names.head? ≠ some [] := fun h => (hproper [] (List.mem_of_head? h)).1 rfl
  rw [place, hf, walk_intercalate hne (fun name h => (hproper name h).2.2.2) hhead,
    walkNames_of_proper hproper, relative_append e.cwd hne]

theorem isName_basename (hf : Normal f) : IsName (Paths.basename f.toList) := by
  obtain ⟨names, hne, hproper, hf⟩ := hf
  have hmem := basename_mem_splitOn f.toList
  rw [hf, List.splitOn_intercalate '/' (fun name h => (hproper name h).2.2.2) hne, ← hf] at hmem
  exact hproper _ hmem

theorem basename_dstOf (f : String) : Paths.basename (e.dstOf f) = Paths.basename f.toList := by
  obtain ⟨front, hfront⟩ := List.getLast?_eq_some_iff.mp e.slash
  rw [dstOf]
  split
  · rw [hfront, List.append_assoc, List.singleton_append, basename_append_slash]
  · rw [hfront, List.append_assoc, List.singleton_append, basename_append_slash,
      basename_of_notMem (slash_notMem_basename f.toList)]

/-- An extracted file lies in its directory under the base name of the source. -/
theorem place_dstOf (hf : Normal f) :
    e.place (e.dstOf f) = e.place (dirname (e.dstOf f)) ++ [Paths.basename f.toList] := by
  have hname : IsName (Paths.basename (e.dstOf f)) := by
    rw [basename_dstOf]
    exact isName_basename hf
  rw [place, walk_eq_append hname, basename_dstOf]
  rfl

/-- A header lies in the directory in which it is named. -/
theorem included_eq_append (hname : IsName (Paths.basename header)) (file : Line) :
    e.included file header =
      walk (e.place (dirname file)) (dirname header) ++ [Paths.basename header] :=
  walk_eq_append hname

/-- A header of the module is found under its path from the root. -/
theorem mem_modFiles_iff : String.ofList (relative e.cwd (e.meant header)) ∈ e.config.modFiles ↔
    ∃ f ∈ e.config.modFiles, e.place f.toList = e.meant header := by
  constructor
  · intro h
    refine ⟨_, h, ?_⟩
    rw [String.toList_ofList]
    exact walk_relative (e.proper_meant header)
  · rintro ⟨f, hf, hplace⟩
    rwa [← hplace, e.relative_place (e.normal f hf), String.ofList_toList]

/-- What becomes of a line. -/
theorem fixInclude_eq (h : IncludeLine line header) (hne : header ≠ []) :
    e.fixInclude line = .ok
      (if ∃ f ∈ e.config.modFiles, e.place f.toList = e.meant header then line
      else replaceAll header (relative (e.place (dirname e.dstFile)) (e.meant header)) line) := by
  have hjoin : joinPath (dirname e.srcFile.toList) header ≠ [] := by
    rw [joinPath]
    split
    · exact hne
    · split
      · exact List.append_ne_nil_of_right_ne_nil _ hne
      · exact List.append_ne_nil_of_right_ne_nil _ (List.cons_ne_nil _ _)
  -- `rel_header` is a name of the place that the include means
  have hplace : e.place (joinPath (dirname e.srcFile.toList) header) = e.meant header :=
    walk_join e.cwd _ header
  have hback : e.place (relative e.cwd (e.meant header)) = e.meant header :=
    walk_relative (e.proper_meant header)
  rw [fixInclude, getElem?_splitOn_include h]
  show (e.relpath (joinPath (dirname e.srcFile.toList) header) ['.'] >>= _) = _
  rw [e.relpath_eq hjoin, hplace, place_dot]
  show (if String.ofList (relative e.cwd (e.meant header)) ∈ e.config.modFiles then _ else _) = _
  by_cases hmod : ∃ f ∈ e.config.modFiles, e.place f.toList = e.meant header
  · rw [if_pos hmod, if_pos (e.mem_modFiles_iff.mpr hmod)]
    rfl
  · rw [if_neg hmod, if_neg fun hmem => hmod (e.mem_modFiles_iff.mp hmem)]
    show (e.relpath (relative e.cwd (e.meant header)) (dirname e.dstFile) >>= _) = _
    rw [e.relpath_eq (relative_ne_nil (e.proper_meant header)), hback]
    rfl

/-- The row has a second part between quotation marks, and it leads somewhere. -/
def HasHeader (row : Line) : Prop :=
  ∃ header, (row.splitOn '"')[1]? = some header ∧ joinPath (dirname e.srcFile.toList) header ≠ []

/-- `fix_include` raises an exception exactly if the row has no such part. -/
theorem fixInclude_cases (row : Line) :
    (e.HasHeader row ∧ ∃ row', e.fixInclude row = .ok row' ∧ (row ≠ [] → row' ≠ [])) ∨
    (¬ e.HasHeader row ∧ ∃ err, e.fixInclude row = .error err) := by
  cases hpart : (row.splitOn '"')[1]? with
  | none =>
    refine Or.inr ⟨?_, .indexError, by rw [fixInclude, hpart]; rfl⟩
    rintro ⟨header, hheader, -⟩
    rw [hpart] at hheader
    cases hheader
  | some header =>
    by_cases hjoin : joinPath (dirname e.srcFile.toList) header = []
    · refine Or.inr ⟨?_, .valueError "no path specified", ?_⟩
      · rintro ⟨header', hheader, hne⟩
        rw [hpart] at hheader
        cases hheader
        exact hne hjoin
      · rw [fixInclude, hpart]
        show (e.relpath (joinPath (dirname e.srcFile.toList) header) ['.'] >>= _) = _
        rw [relpath, Paths.relpath, if_pos hjoin]
        rfl
    · refine Or.inl ⟨⟨header, hpart, hjoin⟩, ?_⟩
      have hrun := e.relpath_eq hjoin ['.']
      have hrel : relative (e.place ['.'])
          (e.place (joinPath (dirname e.srcFile.toList) header)) ≠ [] :=
        relative_ne_nil (e.proper_place _)
      generalize relative (e.place ['.'])
        (e.place (joinPath (dirname e.srcFile.toList) header)) = rel
        at hrun hrel
      rw [fixInclude, hpart]
      show ∃ row', (e.relpath (joinPath (dirname e.srcFile.toList) header) ['.'] >>= _) = _ ∧ _
      rw [hrun]
      show ∃ row', (if String.ofList rel ∈ e.config.modFiles then _ else _) = _ ∧ _
      by_cases hmod : String.ofList rel ∈ e.config.modFiles
      · rw [if_pos hmod]
        exact ⟨row, rfl, id⟩
      · rw [if_neg hmod]
        show ∃ row', (e.relpath rel (dirname e.dstFile) >>= _) = _ ∧ _
        rw [e.relpath_eq hrel]
        exact ⟨_, rfl, replaceAll_ne_nil (relative_ne_nil (e.proper_place _))⟩

end Places

end Extraction

/-! ### Where the includes lead -/

/-- **The quoted includes.**  The include leads to the extracted header, or to the one it
meant before, exactly under the condition of `KeepsInclude`. -/
theorem fixInclude_iff (e : Extraction) (header line : Line) (hline : IncludeLine line header)
    (hname : IsName (Paths.basename header)) :
    e.FixesInclude header line ↔ e.KeepsInclude header := by
  have hne : header ≠ [] := by
    rintro rfl
    exact hname.1 rfl
  have hrun := e.fixInclude_eq hline hne
  by_cases hmod : ∃ f ∈ e.config.modFiles, e.place f.toList = e.meant header
  · -- a header of the module: the line stays
    rw [if_pos hmod] at hrun
    have hcopy : ∀ f ∈ e.config.modFiles, e.place f.toList = e.meant header →
        (e.included e.dstFile header = e.place (e.dstOf f) ↔
          walk (e.place (dirname e.dstFile)) (dirname header) = e.place (dirname (e.dstOf f))) := by
      intro f hf hplace
      -- the copy has the base name of the header, so only the directories matter
      have hbase : Paths.basename f.toList = Paths.basename header := by
        rw [Extraction.place, walk_eq_append (Extraction.isName_basename (e.normal f hf)),
          Extraction.meant, e.included_eq_append hname] at hplace
        exact List.singleton_injective (List.append_inj' hplace rfl).2
      rw [e.included_eq_append hname, e.place_dstOf (e.normal f hf), hbase]
      exact ⟨fun heq => (List.append_inj' heq rfl).1, fun heq => by rw [heq]⟩
    have hno : ¬ ∀ f ∈ e.config.modFiles, e.place f.toList ≠ e.meant header := by
      obtain ⟨f, hf, hplace⟩ := hmod
      exact fun h => h f hf hplace
    constructor
    · rintro ⟨line', header', hrun', hline', hmodule, -⟩
      obtain rfl : line = line' := Except.ok.inj (hrun.symm.trans hrun')
      obtain rfl := hline.unique hline'
      exact ⟨fun f hf hplace => (hcopy f hf hplace).mp (hmodule f hf hplace),
        fun h => absurd h hno⟩
    · rintro ⟨hmodule, -⟩
      exact ⟨line, header, hrun, hline,
        fun f hf hplace => (hcopy f hf hplace).mpr (hmodule f hf hplace), fun h => absurd h hno⟩
  · -- any other header: the name is replaced
    rw [if_neg hmod] at hrun
    have hno : ∀ f ∈ e.config.modFiles, e.place f.toList ≠ e.meant header :=
      fun f hf hplace => hmod ⟨f, hf, hplace⟩
    have hquotes := mem_relative (e.place (dirname e.dstFile)) (e.meant header)
      (by decide : '"' ≠ '.') (by decide)
    obtain ⟨hquote, post, rfl⟩ := hline
    -- a part of the word `#include` is a plain name, and stays one only in its own directory
    have hword : header <:+: "#include ".toList →
        (relative (e.place (dirname e.dstFile)) (e.meant header) = header ↔
          e.place (dirname e.dstFile) = e.place (dirname e.srcFile.toList)) := by
      intro hpart
      have hslash : '/' ∉ header := fun h => absurd (hpart.subset h) (by decide)
      have hheader : IsName header := by rwa [basename_of_notMem hslash] at hname
      rw [Extraction.meant, Extraction.included, walk_of_isName hheader]
      exact relative_eq_name_iff (e.proper_place _) hheader
    constructor
    · rintro ⟨line', header', hrun', hline', -, hother⟩
      obtain rfl := Except.ok.inj (hrun.symm.trans hrun')
      -- without a quotation mark the include could not lead to a name that has one
      have hnames : ∀ name ∈ below (e.place (dirname e.dstFile)) (e.meant header), '"' ∉ name := by
        intro name hmem hc
        exact walk_ne (by decide) hline'.1 ⟨name, hmem, hc⟩ (hother hno)
      have hnew : '"' ∉ relative (e.place (dirname e.dstFile)) (e.meant header) := by
        rw [hquotes]
        rintro ⟨name, hmem, hc⟩
        exact hnames name hmem hc
      exact ⟨fun f hf hplace => absurd hplace (hno f hf), fun _ => ⟨fun hpart =>
        (hword hpart).mp ((includeLine_replace_iff hne hquote hnew).mp ⟨header', hline'⟩ hpart),
        hnames⟩⟩
    · rintro ⟨-, hkeep⟩
      obtain ⟨hpart, hnames⟩ := hkeep hno
      have hnew : '"' ∉ relative (e.place (dirname e.dstFile)) (e.meant header) := by
        rw [hquotes]
        rintro ⟨name, hmem, hc⟩
        exact hnames name hmem hc
      have hstays := replaceAll_include_eq hne post hquote fun h => (hword h).mpr (hpart h)
      rw [hstays] at hrun
      exact ⟨_, _, hrun, ⟨hnew, _, rfl⟩, fun f hf hplace => absurd hplace (hno f hf),
        fun _ => walk_relative (e.proper_meant header)⟩

/-! ### Headers named without a directory -/

section Bare

variable {e : Extraction} {f : String} {header : Line}

theorem place_dirname_dstOf (hf : f ∉ e.config.sdcrSrcs) :
    e.place (dirname (e.dstOf f)) = e.place e.modDir.toList := by
  obtain ⟨front, hfront⟩ := List.getLast?_eq_some_iff.mp e.slash
  rw [Extraction.dstOf, if_neg hf, Extraction.place, walk_dirname_eq, hfront, List.append_assoc,
    List.singleton_append, headPart_append_slash front (slash_notMem_basename f.toList)]
  rfl

/-- A sidecar file keeps its path below `mod_dir`. -/
theorem place_dstOf_sidecar (hf : f ∈ e.config.sdcrSrcs) {names : List Line}
    (hproper : Proper names)
    (hne : names ≠ []) (hnames : f.toList = ['/'].intercalate names) :
    e.place (e.dstOf f) = e.place e.modDir.toList ++ names := by
  obtain ⟨front, hfront⟩ := List.getLast?_eq_some_iff.mp e.slash
  rw [Extraction.dstOf, if_pos hf, Extraction.place, hfront, List.append_assoc,
    List.singleton_append,
    walk_append_slash, hnames,
    List.splitOn_intercalate '/' (fun name h => (hproper name h).2.2.2) hne,
    walkNames_of_proper hproper]
  rfl

/-- Module files find the headers of the module that they name without a directory. -/
theorem keepsInclude_of_bare (hsrc : e.srcFile ∉ e.config.sdcrSrcs)
    (hfiles : ∀ f ∈ e.config.modFiles, f ∉ e.config.sdcrSrcs) (hbare : '/' ∉ header)
    (hmod : ∃ f ∈ e.config.modFiles, e.place f.toList = e.meant header) :
    e.KeepsInclude header := by
  refine ⟨fun f hf _ => ?_, fun hno => ?_⟩
  · rw [dirname_of_notMem hbare, walk_nil, Extraction.dstFile, place_dirname_dstOf hsrc,
      place_dirname_dstOf (hfiles f hf)]
  · obtain ⟨f, hf, hplace⟩ := hmod
    exact absurd hplace (hno f hf)

/-- Sidecar files, extracted into a directory below, do not. -/
theorem not_keepsInclude_of_sidecar (hsrc : e.srcFile ∈ e.config.sdcrSrcs)
    (hnormal : Normal e.srcFile) (hdir : '/' ∈ e.srcFile.toList) (hbare : '/' ∉ header)
    (hf : f ∈ e.config.modFiles) (hmod : f ∉ e.config.sdcrSrcs)
    (hplace : e.place f.toList = e.meant header) : ¬ e.KeepsInclude header := by
  intro hkeep
  have hsame := hkeep.1 f hf hplace
  rw [dirname_of_notMem hbare, walk_nil, place_dirname_dstOf hmod] at hsame
  have hcopy := e.place_dstOf hnormal
  obtain ⟨names, hne, hproper, hnames⟩ := hnormal
  rw [place_dstOf_sidecar hsrc hproper hne hnames] at hcopy
  rw [Extraction.dstFile] at hsame
  rw [hsame] at hcopy
  -- the whole path of the sidecar would be its base name
  have hsingle := List.append_cancel_left hcopy
  rw [hsingle, List.intercalate_singleton] at hnames
  rw [hnames] at hdir
  exact slash_notMem_basename _ hdir

end Bare

/-! ### Two files -/

/-- The extraction of a file of the scheduler or of the sidecar `cpuacct.c`. -/
def linuxExtraction (srcFile : String) : Extraction where
  config :=
    { modFiles := ["kernel/sched/core.c", "kernel/sched/sched.h"]
      sidecar := [("cpuacct_free", "kernel/sched/cpuacct.c")] }
  cwd := ["usr".toList, "linux".toList]
  srcFile := srcFile
  modDir := "/usr/linux/kernel/sched/mod/"
  proper := by decide
  slash := by decide
  normal := by
    intro f hf
    rcases List.mem_pair.mp hf with rfl | rfl
    · exact ⟨["kernel".toList, "sched".toList, "core.c".toList], by decide, by decide, by decide⟩
    · exact ⟨["kernel".toList, "sched".toList, "sched.h".toList], by decide, by decide, by decide⟩

/-- The include of another header is rewritten. -/
theorem fixInclude_iff_core : (linuxExtraction "kernel/sched/core.c").FixesInclude
    "../smpboot.h".toList "#include \"../smpboot.h\"\n".toList := by
  refine (fixInclude_iff (linuxExtraction "kernel/sched/core.c") "../smpboot.h".toList
    "#include \"../smpboot.h\"\n".toList ⟨by decide, "\n".toList, by decide⟩ (by decide)).mpr ?_
  exact ⟨by decide, fun _ => ⟨by decide, by decide⟩⟩

/-- The include of `sched.h` in `cpuacct.c` is left as it is, and leads below `mod/kernel/sched`,
where no header is extracted. -/
theorem sidecar_header_lost :
    (linuxExtraction "kernel/sched/cpuacct.c").fixInclude "#include \"sched.h\"\n".toList =
      .ok "#include \"sched.h\"\n".toList ∧
    ¬ (linuxExtraction "kernel/sched/cpuacct.c").FixesInclude "sched.h".toList
      "#include \"sched.h\"\n".toList := by
  have hline : IncludeLine "#include \"sched.h\"\n".toList "sched.h".toList :=
    ⟨by decide, "\n".toList, by decide⟩
  have hplace : (linuxExtraction "kernel/sched/cpuacct.c").place "kernel/sched/sched.h".toList =
      (linuxExtraction "kernel/sched/cpuacct.c").meant "sched.h".toList := by decide
  have hrun := (linuxExtraction "kernel/sched/cpuacct.c").fixInclude_eq hline (by decide)
  rw [if_pos ⟨"kernel/sched/sched.h", by decide, hplace⟩] at hrun
  refine ⟨hrun, ?_⟩
  rintro ⟨line', header', hrun', hline', hmodule, -⟩
  obtain rfl := Except.ok.inj (hrun.symm.trans hrun')
  obtain rfl := hline.unique hline'
  exact absurd (hmodule "kernel/sched/sched.h" (by decide) hplace) (by decide)

end Plugsched
