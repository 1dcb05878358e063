/-
The script `hotfix_conflict_check` and the directories that it finds in sysfs.

The script runs before the scheduler is installed.  It looks for the directories that
hotfixes leave in sysfs and compares them with the list of tainted functions that the build
has written.

* `hotfixConflictCheck` — the script, on its three inputs;
* `Hotfix.path`, `sysfsTree` — what hotfixes leave in sysfs;
* `funcVerMod_printPath`, `endsInPosition_position`, `afterSlash_printPath` — what the script
  reads from a path.
-/
import Mathlib.Data.Char
import Mathlib.Data.List.Lex
import Plugsched.Paths
import Plugsched.RedirectedCopies
import Plugsched.UniqLines

open TextLines Paths UniqLines

namespace Plugsched

/-! ### The list of tainted functions -/

def taintedFunction : Line := "TAINTED_FUNCTION".toList

def vmlinux : Line := "vmlinux".toList

/-- `'TAINTED_FUNCTION({},{})\n'`, without the end of the line. -/
def tntFmt (name : Line) (sympos : ℕ) : Line :=
  taintedFunction ++ '(' :: (name ++ ',' :: (Nat.toDigits 10 sympos ++ [')']))

/-- `local_sympos.get(fn, 0) or 1`. -/
def FuncClass.taintedPos (fc : FuncClass) (sig : Signature) : ℕ :=
  if fc.sympos sig = 0 then 1 else fc.sympos sig

/-- `tainted_functions.h`, with the set in iteration order. -/
def taintedHeader (fc : FuncClass) (tainted : List Signature) : List Line :=
  tainted.map fun fn => tntFmt fn.1.toList (fc.taintedPos fn)

/-- `[(,)]`. -/
def isFieldSep (c : Char) : Bool := c == '(' || c == ',' || c == ')'

/-- `awk -F '[(,)]' '$2!=""{print $2" "$3" vmlinux"}'` on a line. -/
def taintedLine (line : Line) : Option Line :=
  let fields := line.splitOnP isFieldSep
  if fields.getD 1 [] ≠ [] then
    some (fields.getD 1 [] ++ ' ' :: (fields.getD 2 [] ++ ' ' :: vmlinux))
  else none

/-- `working/tainted_functions`. -/
def taintedFile (fc : FuncClass) (tainted : List Signature) : List Line :=
  (taintedHeader fc tainted).filterMap taintedLine

/-! ### The script -/

def sysKernel : Line := "/sys/kernel".toList

/-- How `find` prints a directory; the places of a tree are those below `/sys/kernel`. -/
def printPath (dir : TreePath) : Line := sysKernel ++ dir.flatMap fun name => '/' :: name

/-- `find start -type d` for every directory that `glob` matches; `slash` stands at the end
of the starts. -/
def findDirs (tree : List TreePath) (glob : TreePath → Bool) (slash : Line) : List Line :=
  (tree.filter glob).flatMap fun start =>
    (tree.filter fun dir => start <+: dir).map fun dir =>
      printPath dir ++ if dir = start then slash else []

/-- `*` in a glob. -/
def anyName (name : Line) : Bool := name.head? ≠ some '.'

/-- `kpatch livepatch plugsched plugbpf`. -/
inductive Subdir where
  | kpatch
  | livepatch
  | plugsched
  | plugbpf
  deriving DecidableEq

def Subdir.dir : Subdir → Line
  | .kpatch => "kpatch".toList
  | .livepatch => "livepatch".toList
  | .plugsched => "plugsched".toList
  | .plugbpf => "plugbpf".toList

def patchesDir : Line := "patches".toList

def functionsDir : Line := "functions".toList

def manualPrefix : Line := "manual_".toList

/-- `/sys/kernel/kpatch/patches/*/functions`. -/
def globFunctions : TreePath → Bool
  | [kpatch, patches, patch, functions] =>
    kpatch = Subdir.kpatch.dir ∧ patches = patchesDir ∧ anyName patch ∧ functions = functionsDir
  | _ => false

/-- `/sys/kernel/$subdir/*/`. -/
def globPatch (subdir : Line) : TreePath → Bool
  | [dir, patch] => dir = subdir ∧ anyName patch
  | _ => false

/-- `/sys/kernel/manual_*/`. -/
def globManual : TreePath → Bool
  | [dir] => manualPrefix <+: dir
  | _ => false

/-- `${path##*/}`. -/
def afterSlash (path : Line) : Line := (path.splitOn '/').getLastD []

/-- `-path "*,[0-9]"`. -/
def endsInPosition (path : Line) : Bool :=
  match path.reverse with
  | d :: ',' :: _ => d.isDigit
  | _ => false

/-- The line `$func $ver $mod` for a directory. -/
def funcVerMod (path : Line) : Line :=
  let names := path.splitOn '/'
  let funcVer := names.getLastD []
  let mod := names.dropLast.getLastD []
  let func := (funcVer.splitOn ',').getD 0 []
  let ver := (funcVer.splitOn ',').getD 1 []
  func ++ ' ' :: (ver ++ ' ' :: mod)

/-- `grep`, with a pattern in which a dot stands for any character. -/
def grepDot (pattern line : Line) : Bool :=
  line.tails.any fun rest => pattern.length ≤ rest.length ∧
    (pattern.zip rest).all fun (p, c) => p = '.' ∨ p = c

/-- `awk '{print $k}'`. -/
def awkField (k : ℕ) (line : Line) : Line := (words line).getD (k - 1) []

/-- The functions of manual hotfixes without a directory, by the symbols of the kernel. -/
def earlyFuncs (kallsyms : List Line) : List Line :=
  let listed := kallsyms.filter fun line =>
    "[kpatch_".toList <:+: line ∧ ¬ "__kpatch".toList <:+: line
  let names := (listed.map (awkField 3)).filter fun name => ¬ "patch_".toList <:+: name
  (names.filter fun name => name ≠ []).filter fun func =>
    kallsyms.any (grepDot ("e9_".toList ++ func))

/-- `func_list_nosympos`. -/
def funcListNosympos (tree : List TreePath) (kallsyms : List Line) : List Line :=
  ((findDirs tree globFunctions []).filter fun path =>
      ¬ ('/' :: functionsDir) <:+ path).map afterSlash ++
    ((findDirs tree globManual ['/']).filter fun path =>
      ¬ (manualPrefix <:+: path ∧ ['/'] <:+ path)).map afterSlash ++
    earlyFuncs kallsyms

/-- `func_list`. -/
def funcList (tree : List TreePath) : List Line :=
  [Subdir.kpatch, .livepatch, .plugsched, .plugbpf].flatMap fun subdir =>
    ((findDirs tree (globPatch subdir.dir) ['/']).filter endsInPosition).map funcVerMod

/-- `awk '{print $1" "$2" "$3}'`. -/
def awkTriple (line : Line) : Line :=
  awkField 1 line ++ ' ' :: (awkField 2 line ++ ' ' :: awkField 3 line)

/-- The variable is not empty. -/
def holdsText (lines : List Line) : Bool := lines.any fun line => line ≠ []

/-- `conflicts`; lines without positions are compared by their names. -/
def conflicts (tainted : List Line) (tree : List TreePath) : List Line :=
  if (words (tainted.getLastD [])).length ≠ 3 then
    uniqD (sort (tainted.map (awkField 1) ++ uniq (sort ((funcList tree).map (awkField 1)))))
  else
    uniqD (sort (tainted ++ uniq (sort ((funcList tree).map awkTriple))))

/-- `conflicts_nosympos`. -/
def conflictsNosympos (tainted : List Line) (tree : List TreePath) (kallsyms : List Line) :
    List Line :=
  uniqD (sort (tainted.map (awkField 1) ++
    uniq (sort ((funcListNosympos tree kallsyms).map (awkField 1)))))

/-- `hotfix_conflict_check`: its exit status and what it prints. -/
def hotfixConflictCheck (tainted : List Line) (tree : List TreePath) (kallsyms : List Line) :
    ℕ × List Line :=
  if holdsText (conflicts tainted tree) || holdsText (conflictsNosympos tainted tree kallsyms) then
    (1, ["Error: confict detected:".toList,
      if holdsText (conflicts tainted tree) then
        awkField 1 ([' '].intercalate (conflicts tainted tree))
      else [' '].intercalate (conflictsNosympos tainted tree kallsyms)])
  else (0, [])

/-! ### Hotfixes -/

/-- The characters that stand between names. -/
def isSeparator (c : Char) : Bool := isBlank c || isFieldSep c || c == '/'

/-- The name of a patch, a module or a function. -/
def IsSysName (text : Line) : Prop :=
  text ≠ [] ∧ text.head? ≠ some '.' ∧ text.any isSeparator = false

instance (text : Line) : Decidable (IsSysName text) := inferInstanceAs (Decidable (_ ∧ _))

abbrev SysName := { text : Line // IsSysName text }

/-- What a hotfix shows in sysfs of a function that it patches. -/
inductive Hotfix where
  | kpatchOld (patch func : SysName)
  | recorded (subdir : Subdir) (patch object func : SysName) (sympos : ℕ)
  | manual (name func : SysName)

/-- The directory of the function. -/
def Hotfix.path : Hotfix → TreePath
  | .kpatchOld patch func =>
    [Subdir.kpatch.dir, patchesDir, patch.1, functionsDir, func.1]
  | .recorded subdir patch object func sympos =>
    [subdir.dir, patch.1, object.1, func.1 ++ ',' :: Nat.toDigits 10 sympos]
  | .manual name func => [manualPrefix ++ name.1, func.1]

/-- The directories of hotfixes. -/
def sysfsTree (hotfixes : List Hotfix) : List TreePath :=
  hotfixes.flatMap fun h => h.path.inits.filter fun dir => dir ≠ []

/-- The function of `vmlinux` with this name and position, or if no position is recorded
a function with this name, is patched. -/
def Hotfix.Patches (name : Line) (sympos : ℕ) : Hotfix → Prop
  | .kpatchOld _ func => func.1 = name
  | .recorded _ _ object func pos => func.1 = name ∧ pos = sympos ∧ object.1 = vmlinux
  | .manual _ func => func.1 = name

/-- The tests on paths let the directory through. -/
def Hotfix.collected : Hotfix → Bool
  | .kpatchOld _ func => func.1 ≠ functionsDir
  | .recorded _ _ _ _ sympos => sympos < 10
  | .manual _ _ => true

/-- A module of an early manual hotfix, which leaves no directory, has a symbol `e9_` for the
function. -/
def EarlyPatches (kallsyms : List Line) (name : Line) : Prop :=
  ∃ line ∈ kallsyms, awkField 3 line = "e9_".toList ++ name ∧ "[kpatch_".toList <+: awkField 4 line

/-- The script lists the name among the symbols of modules. -/
def ListedSymbol (kallsyms : List Line) (name : Line) : Prop :=
  ∃ line ∈ kallsyms, ("[kpatch_".toList <:+: line ∧ ¬ "__kpatch".toList <:+: line) ∧
    awkField 3 line = name ∧ ¬ "patch_".toList <:+: name

/-- Some line has the name behind `e9_`, as part of a longer name perhaps. -/
def MarkedSymbol (kallsyms : List Line) (name : Line) : Prop :=
  ∃ line ∈ kallsyms, grepDot ("e9_".toList ++ name) line = true

theorem mem_sysfsTree {hotfixes : List Hotfix} {dir : TreePath} :
    dir ∈ sysfsTree hotfixes ↔ dir ≠ [] ∧ ∃ h ∈ hotfixes, dir <+: h.path := by
  simp only [sysfsTree, List.mem_flatMap, List.mem_filter, List.mem_inits, decide_eq_true_eq]
  constructor
  · rintro ⟨h, hh, hdir, hne⟩
    exact ⟨hne, h, hh, hdir⟩
  · rintro ⟨hne, h, hh, hdir⟩
    exact ⟨h, hh, hdir, hne⟩

theorem mem_findDirs {tree : List TreePath} {glob : TreePath → Bool} {slash path : Line} :
    path ∈ findDirs tree glob slash ↔ ∃ start ∈ tree, glob start = true ∧ ∃ dir ∈ tree,
      start <+: dir ∧ printPath dir ++ (if dir = start then slash else []) = path := by
  simp only [findDirs, List.mem_flatMap, List.mem_filter, List.mem_map, decide_eq_true_eq,
    and_assoc]

/-! ### Names and paths -/

section Names

variable {name object func : Line} {sympos : ℕ}

theorem IsSysName.plain (h : IsSysName name) : ∀ c ∈ name, isSeparator c = false := by
  intro c hc
  exact Bool.eq_false_iff.mpr fun hsep => List.any_eq_false.mp h.2.2 c hc hsep

theorem IsSysName.notMem (h : IsSysName name) {c : Char} (hc : isSeparator c = true) :
    c ∉ name := by
  intro hmem
  rw [h.plain c hmem] at hc
  cases hc

theorem isBlank_of_plain {c : Char} (h : isSeparator c = false) : isBlank c = false := by
  rw [isSeparator, Bool.or_eq_false_iff, Bool.or_eq_false_iff] at h
  exact h.1.1

theorem isFieldSep_of_plain {c : Char} (h : isSeparator c = false) : isFieldSep c = false := by
  rw [isSeparator, Bool.or_eq_false_iff, Bool.or_eq_false_iff] at h
  exact h.1.2

theorem IsSysName.isWord (h : IsSysName name) : IsWord name :=
  ⟨h.1, fun c hc => isBlank_of_plain (h.plain c hc)⟩

/-- The digits of a position are no separators. -/
theorem notMem_toDigits {c : Char} {n : ℕ} (hc : c.isDigit = false) : c ∉ Nat.toDigits 10 n := by
  intro hmem
  have hdigit := Nat.isDigit_of_mem_toDigits (by decide) (by decide) hmem
  rw [hc] at hdigit
  cases hdigit

theorem plain_toDigits (n : ℕ) : ∀ c ∈ Nat.toDigits 10 n, isSeparator c = false := by
  intro c hc
  rw [Bool.eq_false_iff]
  intro hsep
  simp only [isSeparator, isBlank, isFieldSep, Bool.or_eq_true, beq_iff_eq] at hsep
  rcases hsep with ((rfl | rfl) | (rfl | rfl) | rfl) | rfl <;> exact notMem_toDigits rfl hc

theorem isWord_toDigits (n : ℕ) : IsWord (Nat.toDigits 10 n) :=
  ⟨Nat.toDigits_ne_nil, fun c hc => isBlank_of_plain (plain_toDigits n c hc)⟩

theorem printPath_concat (dir : TreePath) (name : Line) :
    printPath (dir ++ [name]) = printPath dir ++ '/' :: name := by
  rw [printPath, printPath, List.flatMap_append, List.flatMap_singleton, List.append_assoc]

theorem splitOn_printPath (dir : TreePath) (h : '/' ∉ name) :
    (printPath (dir ++ [name])).splitOn '/' = (printPath dir).splitOn '/' ++ [name] := by
  rw [printPath_concat, List.splitOn_append_cons_self, List.splitOn_eq_singleton h]

theorem afterSlash_append (path : Line) (h : '/' ∉ name) :
    afterSlash (path ++ '/' :: name) = name := by
  rw [afterSlash, List.splitOn_append_cons_self, List.splitOn_eq_singleton h, List.getLastD_concat]

theorem afterSlash_printPath (dir : TreePath) (h : '/' ∉ name) :
    afterSlash (printPath (dir ++ [name])) = name := by
  rw [printPath_concat, afterSlash_append _ h]

/-- The last name of a path that ends in a slash and a name. -/
theorem suffix_printPath_iff {last : Line} (dir : TreePath) (h : '/' ∉ name) (hlast : '/' ∉ last) :
    ('/' :: last) <:+ printPath (dir ++ [name]) ↔ name = last := by
  rw [printPath_concat]
  constructor
  · rintro ⟨path, hpath⟩
    rw [← afterSlash_append (printPath dir) h, ← hpath, afterSlash_append path hlast]
  · rintro rfl
    exact List.suffix_append _ _

/-- The end of a path is in its last name. -/
theorem endsInPosition_append (path name : Line) :
    endsInPosition (path ++ '/' :: name) = endsInPosition name := by
  rw [endsInPosition, endsInPosition, List.reverse_append, List.reverse_cons]
  match name.reverse with
  | [] =>
    cases path.reverse with
    | nil => rfl
    | cons c rest => by_cases hc : c = ',' <;> simp [hc]
  | [c] => rfl
  | c :: d :: rest => by_cases hd : d = ',' <;> simp [hd]

theorem endsInPosition_of_notMem (h : ',' ∉ name) : endsInPosition name = false := by
  rw [endsInPosition]
  split
  · next d rest heq =>
    refine absurd ?_ h
    rw [← List.mem_reverse, heq]
    simp
  · rfl

/-- Only positions of one digit are found. -/
theorem endsInPosition_position (func : Line) (sympos : ℕ) :
    endsInPosition (func ++ ',' :: Nat.toDigits 10 sympos) = decide (sympos < 10) := by
  rw [endsInPosition, List.reverse_append, List.reverse_cons]
  by_cases hlt : sympos < 10
  · have hdigit := Nat.isDigit_of_mem_toDigits (b := 10) (n := sympos) (c := sympos.digitChar)
      (by decide) (by decide) (by rw [Nat.toDigits_of_lt_base hlt]; exact List.mem_singleton_self _)
    rw [Nat.toDigits_of_lt_base hlt]
    simp [hlt, hdigit]
  · rw [Nat.toDigits_of_base_le (by decide) (Nat.le_of_not_lt hlt), List.reverse_append]
    -- the character in front of the last digit is a digit
    cases hrev : (Nat.toDigits 10 (sympos / 10)).reverse with
    | nil => exact absurd (List.reverse_eq_nil_iff.mp hrev) Nat.toDigits_ne_nil
    | cons c rest =>
      have hc : c ≠ ',' := by
        rintro rfl
        refine absurd ?_ (notMem_toDigits (c := ',') (n := sympos / 10) rfl)
        rw [← List.mem_reverse, hrev]
        exact List.mem_cons_self
      simp [hlt, hc]

theorem grepDot_of_infix {pattern line : Line} (h : pattern <:+: line) :
    grepDot pattern line = true := by
  obtain ⟨front, back, rfl⟩ := h
  have hzip : ∀ p : Line, (p.zip (p ++ back)).all (fun (p, c) => p = '.' ∨ p = c) = true := by
    intro p
    induction p with
    | nil => rfl
    | cons c p ih => simpa using ih
  rw [grepDot, List.any_eq_true]
  refine ⟨pattern ++ back, ?_, ?_⟩
  · rw [List.mem_tails, List.append_assoc]
    exact List.suffix_append front _
  · refine decide_eq_true ⟨?_, hzip pattern⟩
    rw [List.length_append]
    exact Nat.le_add_right _ _

theorem EarlyPatches.marked {kallsyms : List Line} (h : EarlyPatches kallsyms name) :
    MarkedSymbol kallsyms name := by
  obtain ⟨line, hline, hsymbol, -⟩ := h
  refine ⟨line, hline, grepDot_of_infix ?_⟩
  -- the symbol is a word of the line
  have hne : "e9_".toList ++ name ≠ [] := List.append_ne_nil_of_left_ne_nil (by decide) name
  rw [awkField, List.getD_eq_getElem?_getD] at hsymbol
  cases hget : (words line)[3 - 1]? with
  | none =>
    rw [hget] at hsymbol
    exact absurd hsymbol.symm hne
  | some w =>
    rw [hget] at hsymbol
    exact hsymbol ▸ infix_of_mem_words (List.mem_of_getElem? hget)

theorem mem_earlyFuncs {kallsyms : List Line} (hname : name ≠ []) :
    name ∈ earlyFuncs kallsyms ↔ ListedSymbol kallsyms name ∧ MarkedSymbol kallsyms name := by
  simp only [earlyFuncs, List.mem_filter, List.mem_map, decide_eq_true_eq, List.any_eq_true]
  constructor
  · rintro ⟨⟨⟨⟨line, ⟨hline, hmodule⟩, rfl⟩, hpatch⟩, -⟩, hmark⟩
    exact ⟨⟨line, hline, hmodule, rfl, hpatch⟩, hmark⟩
  · rintro ⟨⟨line, hline, hmodule, rfl, hpatch⟩, hmark⟩
    exact ⟨⟨⟨⟨line, ⟨hline, hmodule⟩, rfl⟩, hpatch⟩, hname⟩, hmark⟩

/-- A line of `func_list` or of the list of tainted functions. -/
def triple (func : Line) (sympos : ℕ) (object : Line) : Line :=
  func ++ ' ' :: (Nat.toDigits 10 sympos ++ ' ' :: object)

theorem words_triple (hfunc : IsWord func) (sympos : ℕ) (hobject : IsWord object) :
    words (triple func sympos object) = [func, Nat.toDigits 10 sympos, object] := by
  rw [triple, words_append hfunc, words_append (isWord_toDigits sympos), words_of_isWord hobject]

theorem awkField_triple (hfunc : IsWord func) (sympos : ℕ) (hobject : IsWord object) :
    awkField 1 (triple func sympos object) = func := by
  rw [awkField, words_triple hfunc sympos hobject]
  rfl

theorem awkTriple_triple (hfunc : IsWord func) (sympos : ℕ) (hobject : IsWord object) :
    awkTriple (triple func sympos object) = triple func sympos object := by
  rw [awkTriple, awkField, awkField, awkField, words_triple hfunc sympos hobject]
  rfl

theorem awkField_of_isWord (h : IsWord name) : awkField 1 name = name := by
  rw [awkField, words_of_isWord h]
  rfl

theorem triple_inj {func' object' : Line} {sympos' : ℕ} (hfunc : IsWord func)
    (hobject : IsWord object) (hfunc' : IsWord func') (hobject' : IsWord object') :
    triple func sympos object = triple func' sympos' object' ↔
      func = func' ∧ sympos = sympos' ∧ object = object' := by
  constructor
  · intro h
    have hwords := congrArg words h
    rw [words_triple hfunc sympos hobject, words_triple hfunc' sympos' hobject'] at hwords
    obtain ⟨rfl, hdigits, rfl⟩ : func = func' ∧ Nat.toDigits 10 sympos = Nat.toDigits 10 sympos' ∧
        object = object' := by simpa using hwords
    refine ⟨rfl, ?_, rfl⟩
    rw [← Nat.ofDigitChars_ten_toDigits (n := sympos), hdigits, Nat.ofDigitChars_ten_toDigits]
  · rintro ⟨rfl, rfl, rfl⟩
    rfl

theorem funcVerMod_printPath (dir : TreePath) (hfunc : IsSysName func) (hobject : IsSysName object)
    (sympos : ℕ) :
    funcVerMod (printPath (dir ++ [object, func ++ ',' :: Nat.toDigits 10 sympos])) =
      triple func sympos object := by
  have hlast : '/' ∉ func ++ ',' :: Nat.toDigits 10 sympos := by
    intro hmem
    rcases List.mem_append.mp hmem with hmem | hmem
    · exact hfunc.notMem (by decide) hmem
    · rcases List.mem_cons.mp hmem with heq | hmem
      · exact absurd heq (by decide)
      · exact notMem_toDigits rfl hmem
  have hver : (func ++ ',' :: Nat.toDigits 10 sympos).splitOn ',' =
      [func, Nat.toDigits 10 sympos] := by
    rw [List.splitOn_append_cons_self, List.splitOn_eq_singleton (hfunc.notMem (by decide)),
      List.splitOn_eq_singleton (notMem_toDigits rfl)]
    rfl
  have hnames : (printPath (dir ++ [object, func ++ ',' :: Nat.toDigits 10 sympos])).splitOn '/' =
      ((printPath dir).splitOn '/' ++ [object]) ++ [func ++ ',' :: Nat.toDigits 10 sympos] := by
    rw [← splitOn_printPath dir (hobject.notMem (by decide)), ← splitOn_printPath _ hlast]
    simp
  rw [funcVerMod, hnames]
  simp only [List.getLastD_concat, List.dropLast_concat, hver]
  rfl

end Names

end Plugsched
