/-
`extract.py`: how the text of a source file becomes that of a module file.

The file is a list of rows; functions and variables come with the rows and
columns that the compiler reports.  Rows are joined, cut and blanked in place.
A row index beyond the end raises an `IndexError`.

* `exists_mergeUpLines` — what joining a signature does to the rows above it;
* `exists_extractOutsider` — what cutting one function does to the file.
-/
import Plugsched.ExceptRules
import Plugsched.ExportEntries
import Plugsched.TextLines

open ExceptRules TextLines

namespace Plugsched

/-! ### Rows -/

/-- The ways in which the extraction stops. -/
inductive ExtractFailure where
  | indexError
  | typeError (message : String)
  | valueError (message : String)
  deriving DecidableEq

/-- `lines[i]`. -/
def lineAt (lines : List Line) (i : ℕ) : Except ExtractFailure Line :=
  match lines[i]? with
  | some line => .ok line
  | none => .error .indexError

/-- `lines[i] = line`. -/
def setLine (lines : List Line) (i : ℕ) (line : Line) : Except ExtractFailure (List Line) :=
  if i < lines.length then .ok (lines.set i line) else .error .indexError

theorem lineAt_eq {lines : List Line} {i : ℕ} {line : Line} (h : lines[i]? = some line) :
    lineAt lines i = .ok line := by
  rw [lineAt, h]

theorem setLine_eq {lines : List Line} {i : ℕ} (h : i < lines.length) (line : Line) :
    setLine lines i line = .ok (lines.set i line) :=
  if_pos h

/-! ### Functions -/

/-- A function with its places, as rows and columns. -/
structure SourceFn extends FnProp where
  lBraceLoc : ℕ × ℕ
  rBraceLoc : ℕ × ℕ
  nameLoc : ℕ × ℕ
  declStr : Option DeclStr

/-- `terminator.search(line)`. -/
def terminator (line : Line) : Bool :=
  ';' ∈ line || '}' ∈ line || '#' ∈ line || "//".toList <:+: line || "*/".toList <:+: line ||
    line == "\n".toList || line == "\n\n".toList

/-- The loop of `merge_up_lines`. -/
def mergeUpFrom : List Line → ℕ → Line → Except ExtractFailure (List Line × ℕ)
  | lines, 0, merged => do
    let lines ← setLine lines 0 (replaceAll " ;".toList ";".toList merged ++ "\n".toList)
    return (lines, 0)
  | lines, curr + 1, merged => do
    let line ← lineAt lines curr
    if terminator line then
      let lines ← setLine lines (curr + 1)
        (replaceAll " ;".toList ";".toList merged ++ "\n".toList)
      return (lines, curr + 1)
    else
      let lines ← setLine lines (curr + 1) []
      mergeUpFrom lines curr (strip line ++ " ".toList ++ merged)

/-- `merge_up_lines`. -/
def mergeUpLines (lines : List Line) (curr : ℕ) : Except ExtractFailure (List Line × ℕ) := do
  let line ← lineAt lines curr
  mergeUpFrom lines curr (strip line)

/-- `lines[i] = ''`, for the rows from `first` on. -/
def blankRows (lines : List Line) (first : ℕ) : ℕ → Except ExtractFailure (List Line)
  | 0 => .ok lines
  | count + 1 => do
    let lines ← setLine lines first []
    blankRows lines (first + 1) count

def warn (name : String) : Line :=
  ("/* DON'T MODIFY INLINE EXTERNAL FUNCTION " ++ name ++ " */\n").toList

def cbWarn (name : Line) : Line :=
  "/* DON'T MODIFY SIGNATURE OF CALLBACK FUNCTION ".toList ++ name ++ " */\n".toList

def ifWarn (name : String) : Line :=
  ("/* DON'T MODIFY SIGNATURE OF INTERFACE FUNCTION " ++ name ++ " */\n").toList

/-- `decl_fmt.format(**decl_str)`. -/
def declFmt (d : DeclStr) : Line :=
  ("extern " ++ d.ret ++ " " ++ d.fn ++ "(" ++ d.params ++ ");\n").toList

/-- `lines[i] += text`. -/
def appendLine (lines : List Line) (i : ℕ) (text : Line) : Except ExtractFailure (List Line) := do
  let line ← lineAt lines i
  setLine lines i (line ++ text)

/-- `lines[i] = lines[i].replace(old, new)`. -/
def replaceLine (lines : List Line) (i : ℕ) (old new : Line) :
    Except ExtractFailure (List Line) := do
  let line ← lineAt lines i
  setLine lines i (replaceAll old new line)

theorem replaceLine_eq {lines : List Line} {i : ℕ} (hi : i < lines.length) (old new : Line) :
    replaceLine lines i old new = .ok (lines.modify i (replaceAll old new)) := by
  have hrow := List.getElem?_eq_getElem hi
  rw [replaceLine, lineAt_eq hrow, List.modify_eq_set, hrow, Option.getD_some]
  exact setLine_eq hi _

theorem appendLine_eq {lines : List Line} {i : ℕ} (hi : i < lines.length) (text : Line) :
    appendLine lines i text = .ok (lines.modify i (· ++ text)) := by
  have hrow := List.getElem?_eq_getElem hi
  rw [appendLine, lineAt_eq hrow, List.modify_eq_set, hrow, Option.getD_some]
  exact setLine_eq hi _

/-- The body of the loop over `fn_list`. -/
def extractOutsider (outsiderOpt : Finset Signature) (lines : List Line) (fn : SourceFn) :
    Except ExtractFailure (List Line) :=
  if fn.signature ∈ outsiderOpt then appendLine lines fn.rBraceLoc.1 (warn fn.name)
  else do
    let line ← lineAt lines fn.lBraceLoc.1
    let lines ← setLine lines fn.lBraceLoc.1 (line.take fn.lBraceLoc.2 ++ ";\n".toList)
    let (lines, _) ← mergeUpLines lines fn.lBraceLoc.1
    blankRows lines (fn.lBraceLoc.1 + 1) (fn.rBraceLoc.1 - fn.lBraceLoc.1)

/-- The body of the loop over `callback_list`. -/
def extractCallback (lines : List Line) (fn : SourceFn) : Except ExtractFailure (List Line) := do
  let newName := "__cb_".toList ++ fn.name.toList
  let lines ← replaceLine lines fn.nameLoc.1 fn.name.toList ("__used ".toList ++ newName)
  match fn.declStr with
  | none => throw (.typeError "str.format() argument after ** must be a mapping, not NoneType")
  | some d => appendLine lines fn.rBraceLoc.1 ("\n".toList ++ cbWarn newName ++ declFmt d)

/-- The body of the loop over `interface_list + sidecar_list`. -/
def extractInterface (interfacePrefix : List String) (lines : List Line) (fn : SourceFn) :
    Except ExtractFailure (List Line) :=
  if interfacePrefix.any (startsWith fn.name) then .ok lines
  else do
    let lines ←
      if fn.isPublic then pure lines
      else replaceLine lines fn.nameLoc.1 fn.name.toList ("__used ".toList ++ fn.name.toList)
    appendLine lines fn.rBraceLoc.1 (ifWarn fn.name)

/-- The lists of `function_location`. -/
structure FnLists where
  fnList : List SourceFn
  callbackList : List SourceFn
  interfaceList : List SourceFn
  sidecarList : List SourceFn

/-- `function_extract`. -/
def functionExtract (outsiderOpt : Finset Signature) (interfacePrefix : List String)
    (located : FnLists) (lines : List Line) : Except ExtractFailure (List Line) := do
  let lines ← located.fnList.foldlM (extractOutsider outsiderOpt) lines
  let lines ← located.callbackList.foldlM extractCallback lines
  (located.interfaceList ++ located.sidecarList).foldlM (extractInterface interfacePrefix) lines

/-! ### Joining upwards -/

/-- The blank in front of a semicolon is the only thing that is lost. -/
theorem squeeze_finish (merged : Line) :
    squeeze (replaceAll " ;".toList ";".toList merged ++ "\n".toList) = squeeze merged := by
  have hnewline : squeeze "\n".toList = [] := by decide
  rw [squeeze_append, hnewline, List.append_nil]
  exact filter_replaceAll _ (by decide) (by decide) merged

/-- Joining leaves the text as it is, white space apart.  It stops below a row with a
terminator, and touches no row beyond. -/
structure MergedUp (lines : List Line) (curr : ℕ) (merged : Line) (lines' : List Line) (j : ℕ) :
    Prop where
  le : j ≤ curr
  length : lines'.length = lines.length
  frame : ∀ i, i < j ∨ curr < i → lines'[i]? = lines[i]?
  free : ∀ i, j ≤ i → i < curr → ∀ line, lines[i]? = some line → terminator line = false
  text : squeezeLines (rows lines' 0 (curr + 1)) =
    squeezeLines (rows lines 0 curr) ++ squeeze merged

/-- The joined text is put into the row `curr`. -/
theorem mergedUp_set {lines : List Line} {curr : ℕ} (hcurr : curr < lines.length)
    (merged : Line) : MergedUp lines curr merged
      (lines.set curr (replaceAll " ;".toList ";".toList merged ++ "\n".toList)) curr where
  le := le_rfl
  length := List.length_set
  frame i hi := by
    rw [List.getElem?_set_ne]
    omega
  free i h1 h2 := by omega
  text := by
    have hrow := rows_succ (List.getElem?_set_self
      (a := replaceAll " ;".toList ";".toList merged ++ "\n".toList) hcurr)
    rw [rows_append _ (Nat.zero_le curr) (Nat.le_succ curr), squeezeLines_append, hrow,
      squeezeLines_cons, squeezeLines_nil, List.append_nil, squeeze_finish]
    congr 2
    refine rows_congr _ _ fun i _ hi => ?_
    rw [List.getElem?_set_ne]
    omega

/-- One round of the loop of `merge_up_lines`. -/
theorem mergeUpFrom_succ {lines : List Line} {curr : ℕ} {merged row : Line}
    (hrow : lines[curr]? = some row) : mergeUpFrom lines (curr + 1) merged =
      if terminator row then
        setLine lines (curr + 1) (replaceAll " ;".toList ";".toList merged ++ "\n".toList) >>=
          fun lines => .ok (lines, curr + 1)
      else
        setLine lines (curr + 1) [] >>= fun lines =>
          mergeUpFrom lines curr (strip row ++ " ".toList ++ merged) := by
  rw [mergeUpFrom, lineAt_eq hrow]
  rfl

theorem exists_mergeUpFrom {lines : List Line} {curr : ℕ} (hcurr : curr < lines.length)
    (merged : Line) : ∃ lines' j, mergeUpFrom lines curr merged = .ok (lines', j) ∧
      MergedUp lines curr merged lines' j := by
  induction curr generalizing lines merged with
  | zero =>
    -- the first row of the file: there is nothing above
    refine ⟨_, 0, ?_, mergedUp_set hcurr merged⟩
    rw [mergeUpFrom, setLine_eq hcurr]
    rfl
  | succ curr ih =>
    have hline : lines[curr]? = some lines[curr] := List.getElem?_eq_getElem (by omega)
    by_cases hstop : terminator lines[curr]
    · refine ⟨_, curr + 1, ?_, mergedUp_set hcurr merged⟩
      rw [mergeUpFrom_succ hline, if_pos hstop, setLine_eq hcurr]
      rfl
    · -- the row above is joined, and `curr + 1` blanked
      have hlen : curr < (lines.set (curr + 1) []).length := by
        rw [List.length_set]
        omega
      obtain ⟨lines', j, hrun, hmerged⟩ := ih hlen (strip lines[curr] ++ " ".toList ++ merged)
      have hframe : ∀ i, i ≤ curr → (lines.set (curr + 1) [])[i]? = lines[i]? := by
        intro i hi
        rw [List.getElem?_set_ne]
        omega
      refine ⟨lines', j, ?_, ?_⟩
      · rw [mergeUpFrom_succ hline, if_neg hstop, setLine_eq hcurr]
        exact hrun
      · refine ⟨hmerged.le.trans (Nat.le_succ curr), ?_, fun i hi => ?_,
          fun i h1 h2 line hi => ?_, ?_⟩
        · rw [hmerged.length, List.length_set]
        · rw [hmerged.frame i (by omega), List.getElem?_set_ne]
          have hle := hmerged.le
          omega
        · rcases Nat.lt_succ_iff_lt_or_eq.mp h2 with hlt | rfl
          · exact hmerged.free i h1 hlt line (by rwa [hframe i hlt.le])
          · rw [hline] at hi
            cases hi
            simpa using hstop
        · -- the blanked row adds nothing, and its text is in front of `merged` now
          have hblank : lines'[curr + 1]? = some [] := by
            rw [hmerged.frame (curr + 1) (by omega), List.getElem?_set_self hcurr]
          have hspace : squeeze " ".toList = [] := by decide
          rw [rows_append _ (Nat.zero_le (curr + 1)) (Nat.le_succ (curr + 1)), squeezeLines_append,
            rows_succ hblank, hmerged.text, rows_append lines (Nat.zero_le curr) (Nat.le_succ curr),
            squeezeLines_append, rows_succ hline,
            rows_congr (lines.set (curr + 1) []) lines
              fun i _ hi => hframe i hi.le]
          simp only [squeezeLines_cons, squeezeLines_nil, squeeze_append, squeeze_strip, hspace,
            squeeze_nil, List.nil_append, List.append_nil, List.append_assoc]

theorem exists_mergeUpLines {lines : List Line} {curr : ℕ} {line : Line}
    (hline : lines[curr]? = some line) : ∃ lines' j, mergeUpLines lines curr = .ok (lines', j) ∧
      MergedUp lines curr line lines' j := by
  have hcurr : curr < lines.length := (List.getElem?_eq_some_iff.mp hline).1
  obtain ⟨lines', j, hrun, hmerged⟩ := exists_mergeUpFrom hcurr (strip line)
  refine ⟨lines', j, ?_, { hmerged with text := ?_ }⟩
  · rw [mergeUpLines, lineAt_eq hline]
    exact hrun
  · rw [hmerged.text, squeeze_strip]

/-! ### Blanking -/

theorem exists_blankRows (lines : List Line) (first count : ℕ)
    (hlen : first + count ≤ lines.length) : ∃ lines', blankRows lines first count = .ok lines' ∧
      lines'.length = lines.length ∧
      (∀ i, i < first ∨ first + count ≤ i → lines'[i]? = lines[i]?) ∧
      ∀ i, first ≤ i → i < first + count → lines'[i]? = some [] := by
  induction count generalizing lines first with
  | zero => exact ⟨lines, rfl, rfl, fun i _ => rfl, fun i h1 h2 => by omega⟩
  | succ count ih =>
    have hfirst : first < lines.length := by omega
    obtain ⟨lines', hrun, hlen', hframe, hblank⟩ := ih (lines.set first []) (first + 1)
      (by rw [List.length_set]; omega)
    refine ⟨lines', ?_, by rw [hlen', List.length_set], fun i hi => ?_, fun i h1 h2 => ?_⟩
    · rw [blankRows, setLine_eq hfirst]
      exact hrun
    · rw [hframe i (by omega), List.getElem?_set_ne]
      omega
    · rcases Nat.eq_or_lt_of_le h1 with rfl | hlt
      · rw [hframe first (by omega), List.getElem?_set_self hfirst]
      · exact hblank i hlt (by omega)

/-! ### Cutting a body -/

/-- What cutting the body of `fn` does: the text up to its closing row is that up to the
opening brace and a semicolon, only rows from `j` on change, and the rows from `j` up
to the opening brace hold no terminator. -/
structure BodyCut (lines : List Line) (fn : SourceFn) (line : Line) (lines' : List Line) (j : ℕ) :
    Prop where
  length : lines'.length = lines.length
  le : j ≤ fn.lBraceLoc.1
  frame : ∀ i, i < j ∨ fn.rBraceLoc.1 < i → lines'[i]? = lines[i]?
  free : ∀ i, j ≤ i → i < fn.lBraceLoc.1 → ∀ row, lines[i]? = some row → terminator row = false
  text : squeezeLines (rows lines' 0 (fn.rBraceLoc.1 + 1)) =
    squeezeLines (rows lines 0 fn.lBraceLoc.1) ++ squeeze (line.take fn.lBraceLoc.2 ++ ";".toList)

/-- A closing brace above stops the joining. -/
theorem BodyCut.lt_of_closing {lines lines' : List Line} {fn : SourceFn} {line row : Line} {i j : ℕ}
    (h : BodyCut lines fn line lines' j) (hi : i < fn.lBraceLoc.1) (hrow : lines[i]? = some row)
    (hbrace : '}' ∈ row) : i < j := by
  by_contra hji
  have hfree := h.free i (not_lt.mp hji) hi row hrow
  simp [terminator, hbrace] at hfree

theorem exists_extractOutsider {outsiderOpt : Finset Signature} {lines : List Line}
    {fn : SourceFn} {line : Line} (hopt : fn.signature ∉ outsiderOpt)
    (hline : lines[fn.lBraceLoc.1]? = some line) (hrows : fn.lBraceLoc.1 ≤ fn.rBraceLoc.1)
    (hlen : fn.rBraceLoc.1 < lines.length) :
    ∃ lines' j, extractOutsider outsiderOpt lines fn = .ok lines' ∧
      BodyCut lines fn line lines' j := by
  set start := fn.lBraceLoc.1 with hstart
  set stop := fn.rBraceLoc.1 with hstop
  set cut := line.take fn.lBraceLoc.2 ++ ";\n".toList with hcut
  have hlt : start < lines.length := by omega
  have hset : (lines.set start cut)[start]? = some cut := List.getElem?_set_self hlt
  obtain ⟨joined, j, hjoin, hmerged⟩ := exists_mergeUpLines hset
  have hjoined : joined.length = lines.length := by rw [hmerged.length, List.length_set]
  obtain ⟨lines', hblank, hlen', hframe, hempty⟩ := exists_blankRows
    joined (start + 1) (stop - start) (by omega)
  have hother : ∀ i, i ≠ start → (lines.set start cut)[i]? = lines[i]? := fun i hi =>
    List.getElem?_set_ne (Ne.symm hi)
  refine ⟨lines', j, ?_, ⟨by rw [hlen', hjoined], hmerged.le, fun i hi => ?_,
    fun i h1 h2 row hrow => ?_, ?_⟩⟩
  · -- the row is cut, then joined upwards, then the rows below are blanked
    rw [extractOutsider, if_neg hopt, ← hstart, lineAt_eq hline]
    show (setLine lines start cut >>= _) = _
    rw [setLine_eq hlt]
    show (mergeUpLines (lines.set start cut) start >>= _) = _
    rw [hjoin]
    exact hblank
  · have hle := hmerged.le
    rw [hframe i (by omega), hmerged.frame i (by omega), hother i (by omega)]
  · exact hmerged.free i h1 h2 row (by rwa [hother i (by omega)])
  · -- the rows of the body are blank, the ones above hold the joined text
    have hbelow : squeezeLines (rows lines' (start + 1) (stop + 1)) = [] := by
      refine squeezeLines_eq_nil fun row hrow => ?_
      obtain ⟨i, hi⟩ := List.mem_iff_getElem?.mp hrow
      rw [getElem?_rows] at hi
      split at hi
      · rw [hempty (start + 1 + i) (by omega) (by omega)] at hi
        cases hi
        rfl
      · cases hi
    have habove : rows lines' 0 (start + 1) = rows joined 0 (start + 1) :=
      rows_congr _ _ fun i _ hi => hframe i (by omega)
    have htop : rows (lines.set start cut) 0 start = rows lines 0 start :=
      rows_congr _ _ fun i _ hi => hother i (by omega)
    have hsemi : squeeze ";\n".toList = squeeze ";".toList := by decide
    rw [rows_append lines' (Nat.zero_le (start + 1)) (by omega : start + 1 ≤ stop + 1),
      squeezeLines_append, hbelow, List.append_nil, habove, hmerged.text, htop, hcut,
      squeeze_append, squeeze_append, hsemi]

end Plugsched
