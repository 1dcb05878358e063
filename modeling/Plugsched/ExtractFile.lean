/-
`extract_file`: the passes over a file, one after the other.

All passes go by the rows that the compiler reports for the file as it was.  They join and
blank rows but never take one out, and none of them goes up past a blank row.  So a file
may be cut at a blank row between its definitions: what is extracted from the parts is what is
extracted from the file.

* `Above`, `Below` — what an operation on the rows of one part does to the file; their rules
  follow the definitions of the passes;
* `seenFirst_shuffle` — the functions that are found in the file are those of the parts;
* `extractFile_append` — the passes together.
-/
import Plugsched.FixUp
import Plugsched.Shuffle
import Plugsched.UndefinedFunctions
import Plugsched.VarPasses

open ExceptRules Shuffles TextLines

namespace Plugsched

/-! ### The file -/

/-- The functions that the loop of `function_location` does not skip; `unique` are the functions
seen so far. -/
def seenFirst (srcFile : String) : Finset Signature → List SourceFn → List SourceFn
  | _, [] => []
  | unique, fn :: metaFn =>
    if fn.file ≠ srcFile then seenFirst srcFile unique metaFn
    else if fn.signature ∈ unique then seenFirst srcFile unique metaFn
    else fn :: seenFirst srcFile (insert fn.signature unique) metaFn

/-- The lists of `function_location`, with the places of the functions. -/
def fnLists (fc : FuncClass) (srcFile : String) (metaFn : List SourceFn) : FnLists where
  fnList := (seenFirst srcFile ∅ metaFn).filter fun fn => location fc fn.signature = some .fn
  callbackList :=
    (seenFirst srcFile ∅ metaFn).filter fun fn => location fc fn.signature = some .callback
  interfaceList :=
    (seenFirst srcFile ∅ metaFn).filter fun fn => location fc fn.signature = some .interface
  sidecarList :=
    (seenFirst srcFile ∅ metaFn).filter fun fn => location fc fn.signature = some .sidecar

/-- The functions are those that `functionLocation` finds. -/
theorem functionLocation_eq (fc : FuncClass) (srcFile : String) (unique : Finset Signature)
    (fns : List SourceFn) :
    functionLocation fc srcFile unique (fns.map SourceFn.toFnProp) =
      (seenFirst srcFile unique fns).filterMap fun fn =>
        (location fc fn.signature).map fun loc => (loc, fn.toFnProp) := by
  induction fns generalizing unique with
  | nil => rfl
  | cons fn fns ih =>
    rw [List.map_cons, functionLocation, seenFirst]
    split
    · exact ih unique
    · split
      · exact ih unique
      · rw [List.filterMap_cons, ih]
        cases location fc fn.signature <;> rfl

/-- `extract_file`, from the rows of the source to those of the module file. -/
def Extraction.extractFile (e : Extraction) (fc : FuncClass) (varConfig : GlobalVarConfig)
    (interfacePrefix : List String) (metaFn : List SourceFn) (metaVar : List VarProp)
    (lines : List Line) : Except ExtractFailure (List Line) := do
  let lines ← functionExtract fc.outsiderOpt interfacePrefix (fnLists fc e.srcFile metaFn) lines
  let lines ← varExtract (staticVars e.config varConfig e.srcFile metaVar)
    (sharedVars e.config varConfig e.srcFile metaVar) lines
  e.fixUp lines

/-- A function that stands `n` rows further down. -/
def SourceFn.shift (n : ℕ) (fn : SourceFn) : SourceFn :=
  { fn with
    lBraceLoc := (n + fn.lBraceLoc.1, fn.lBraceLoc.2)
    rBraceLoc := (n + fn.rBraceLoc.1, fn.rBraceLoc.2)
    nameLoc := (n + fn.nameLoc.1, fn.nameLoc.2) }

def VarProp.shift (n : ℕ) (var : VarProp) : VarProp :=
  { var with
    nameLoc := (n + var.nameLoc.1, var.nameLoc.2)
    declStartLine := n + var.declStartLine }

/-! ### Parts of a file -/

def blankRow : Line := "\n".toList

theorem terminator_blankRow : terminator blankRow = true := by decide

/-- An operation on the rows. -/
abbrev RowOp := List Line → Except ExtractFailure (List Line)

/-- What succeeds on the upper part of a file succeeds on the file, and leaves the rest
alone. -/
def Above (op : RowOp) : Prop :=
  ∀ above above' rest, op above = .ok above' →
    above'.length = above.length ∧ op (above ++ rest) = .ok (above' ++ rest)

/-- What `op` does to the part below a blank row `op'` does to the file. -/
def Below (n : ℕ) (op op' : RowOp) : Prop :=
  ∀ above below below', above.length = n → op below = .ok below' →
    op' (above ++ blankRow :: below) = .ok (above ++ blankRow :: below')

section Rules

variable {op op' op₁ op₁' : RowOp} {n i : ℕ}

theorem above_ok : Above .ok := by
  intro above above' rest h
  obtain rfl := Except.ok.inj h
  exact ⟨rfl, rfl⟩

theorem Above.bind (h : Above op) (h₁ : Above op₁) : Above fun lines => op lines >>= op₁ := by
  intro above above' rest hrun
  obtain ⟨mid, hmid, hrest⟩ := bind_eq_ok hrun
  obtain ⟨hlen, hop⟩ := h above mid rest hmid
  obtain ⟨hlen₁, hop₁⟩ := h₁ mid above' rest hrest
  refine ⟨hlen₁.trans hlen, ?_⟩
  show op (above ++ rest) >>= op₁ = _
  rw [hop]
  exact hop₁

/-- A value that does not depend on the rows. -/
theorem Above.lift {α : Type} {x : Except ExtractFailure α} {f : α → RowOp}
    (h : ∀ a, Above (f a)) : Above fun lines => x >>= fun a => f a lines := by
  intro above above' rest hrun
  obtain ⟨a, ha, hrest⟩ := bind_eq_ok hrun
  obtain ⟨hlen, hop⟩ := h a above above' rest hrest
  refine ⟨hlen, ?_⟩
  show x >>= _ = _
  rw [ha]
  exact hop

theorem getElem?_of_lineAt {lines : List Line} {row : Line} (h : lineAt lines i = .ok row) :
    lines[i]? = some row := by
  rw [lineAt] at h
  split at h
  · next row' hrow =>
    rw [hrow, Except.ok.inj h]
  · cases h

theorem setLine_ok {lines lines' : List Line} {row : Line} (h : setLine lines i row = .ok lines') :
    i < lines.length ∧ lines' = lines.set i row := by
  rw [setLine] at h
  split at h
  · next hi => exact ⟨hi, (Except.ok.inj h).symm⟩
  · cases h

theorem Above.read {f : Line → RowOp} (h : ∀ row, Above (f row)) :
    Above fun lines => lineAt lines i >>= fun row => f row lines := by
  intro above above' rest hrun
  obtain ⟨row, hrow, hrest⟩ := bind_eq_ok hrun
  obtain ⟨hlen, hop⟩ := h row above above' rest hrest
  have hi := getElem?_of_lineAt hrow
  have hi' : (above ++ rest)[i]? = some row := by
    rw [List.getElem?_append_left (List.getElem?_eq_some_iff.mp hi).1]
    exact hi
  refine ⟨hlen, ?_⟩
  show lineAt (above ++ rest) i >>= _ = _
  rw [lineAt_eq hi']
  exact hop

theorem above_setLine (row : Line) : Above fun lines => setLine lines i row := by
  intro above above' rest h
  obtain ⟨hi, rfl⟩ := setLine_ok h
  refine ⟨List.length_set, ?_⟩
  show setLine (above ++ rest) i row = _
  rw [setLine_eq (by rw [List.length_append]; omega), List.set_append_left i row hi]

theorem Below.bind (h : Below n op op') (h₁ : Below n op₁ op₁') :
    Below n (fun lines => op lines >>= op₁) fun lines => op' lines >>= op₁' := by
  intro above below below' hlen hrun
  obtain ⟨mid, hmid, hrest⟩ := bind_eq_ok hrun
  show op' (above ++ blankRow :: below) >>= op₁' = _
  rw [h above below mid hlen hmid]
  exact h₁ above mid below' hlen hrest

theorem Below.lift {α : Type} {x : Except ExtractFailure α} {f f' : α → RowOp}
    (h : ∀ a, Below n (f a) (f' a)) :
    Below n (fun lines => x >>= fun a => f a lines) fun lines => x >>= fun a => f' a lines := by
  intro above below below' hlen hrun
  obtain ⟨a, ha, hrest⟩ := bind_eq_ok hrun
  show x >>= _ = _
  rw [ha]
  exact h a above below below' hlen hrest

theorem below_ok : Below n .ok .ok := by
  intro above below below' _ h
  rw [Except.ok.inj h]

theorem getElem?_below (above below : List Line) (i : ℕ) :
    (above ++ blankRow :: below)[above.length + 1 + i]? = below[i]? := by
  rw [List.getElem?_append_right (by omega)]
  rw [show above.length + 1 + i - above.length = i + 1 by omega, List.getElem?_cons_succ]

theorem Below.read {f f' : Line → RowOp} (h : ∀ row, Below n (f row) (f' row)) :
    Below n (fun lines => lineAt lines i >>= fun row => f row lines)
      fun lines => lineAt lines (n + 1 + i) >>= fun row => f' row lines := by
  intro above below below' hlen hrun
  obtain ⟨row, hrow, hrest⟩ := bind_eq_ok hrun
  have hi : (above ++ blankRow :: below)[n + 1 + i]? = some row := by
    rw [← hlen, getElem?_below]
    exact getElem?_of_lineAt hrow
  show lineAt (above ++ blankRow :: below) (n + 1 + i) >>= _ = _
  rw [lineAt_eq hi]
  exact h row above below below' hlen hrest

theorem below_setLine (row : Line) :
    Below n (fun lines => setLine lines i row) fun lines => setLine lines (n + 1 + i) row := by
  intro above below below' hlen h
  obtain ⟨hi, rfl⟩ := setLine_ok h
  show setLine (above ++ blankRow :: below) (n + 1 + i) row = _
  rw [setLine_eq (by rw [List.length_append, List.length_cons]; omega),
    List.set_append_right (n + 1 + i) row (by omega)]
  rw [show n + 1 + i - above.length = i + 1 by omega, List.set_cons_succ]

theorem Above.ite {c : Prop} [Decidable c] (h : Above op) (h₁ : Above op₁) :
    Above fun lines => if c then op lines else op₁ lines := by
  by_cases hc : c
  · simpa only [if_pos hc] using h
  · simpa only [if_neg hc] using h₁

theorem Below.ite {c : Prop} [Decidable c] (h : Below n op op') (h₁ : Below n op₁ op₁') :
    Below n (fun lines => if c then op lines else op₁ lines)
      fun lines => if c then op' lines else op₁' lines := by
  by_cases hc : c
  · simpa only [if_pos hc] using h
  · simpa only [if_neg hc] using h₁

end Rules

/-! ### Functions -/

section Functions

variable {n : ℕ}

theorem fst_mergeUpFrom_zero (lines : List Line) (merged : Line) :
    Prod.fst <$> mergeUpFrom lines 0 merged =
      setLine lines 0 (replaceAll " ;".toList ";".toList merged ++ "\n".toList) := by
  rw [mergeUpFrom]
  cases setLine lines 0 (replaceAll " ;".toList ";".toList merged ++ "\n".toList) <;> rfl

theorem fst_mergeUpFrom_succ (lines : List Line) (curr : ℕ) (merged : Line) :
    Prod.fst <$> mergeUpFrom lines (curr + 1) merged =
      lineAt lines curr >>= fun row =>
        if terminator row then
          setLine lines (curr + 1) (replaceAll " ;".toList ";".toList merged ++ "\n".toList)
        else
          setLine lines (curr + 1) [] >>= fun lines =>
            Prod.fst <$> mergeUpFrom lines curr (strip row ++ " ".toList ++ merged) := by
  rw [mergeUpFrom]
  cases lineAt lines curr with
  | error err => rfl
  | ok row =>
    show Prod.fst <$> (if terminator row then _ else _) = if terminator row then _ else _
    split
    · cases setLine lines (curr + 1)
        (replaceAll " ;".toList ";".toList merged ++ "\n".toList) <;> rfl
    · cases setLine lines (curr + 1) [] <;> rfl

theorem above_mergeUpFrom (curr : ℕ) (merged : Line) :
    Above fun lines => Prod.fst <$> mergeUpFrom lines curr merged := by
  induction curr generalizing merged with
  | zero =>
    simp only [fst_mergeUpFrom_zero]
    exact above_setLine _
  | succ curr ih =>
    simp only [fst_mergeUpFrom_succ]
    exact .read fun row => .ite (above_setLine _) ((above_setLine _).bind (ih _))

/-- A blank row stops the joining, as the beginning of a file does. -/
theorem below_mergeUpFrom (curr : ℕ) (merged : Line) :
    Below n (fun lines => Prod.fst <$> mergeUpFrom lines curr merged)
      fun lines => Prod.fst <$> mergeUpFrom lines (n + 1 + curr) merged := by
  induction curr generalizing merged with
  | zero =>
    intro above below below' hlen hrun
    change Prod.fst <$> mergeUpFrom below 0 merged = _ at hrun
    rw [fst_mergeUpFrom_zero] at hrun
    have hblank : (above ++ blankRow :: below)[n]? = some blankRow := by
      rw [← hlen, List.getElem?_append_right le_rfl, Nat.sub_self]
      rfl
    show Prod.fst <$> mergeUpFrom _ (n + 1) merged = _
    rw [fst_mergeUpFrom_succ, lineAt_eq hblank, ok_bind, if_pos terminator_blankRow]
    exact below_setLine _ above below below' hlen hrun
  | succ curr ih =>
    simp only [← Nat.add_assoc, fst_mergeUpFrom_succ]
    exact .read fun row => .ite (below_setLine _) ((below_setLine _).bind (ih _))

theorem fst_mergeUpLines (lines : List Line) (curr : ℕ) :
    Prod.fst <$> mergeUpLines lines curr =
      lineAt lines curr >>= fun row => Prod.fst <$> mergeUpFrom lines curr (strip row) := by
  rw [mergeUpLines]
  cases lineAt lines curr <;> rfl

theorem above_mergeUpLines (curr : ℕ) :
    Above fun lines => Prod.fst <$> mergeUpLines lines curr := by
  simp only [fst_mergeUpLines]
  exact .read fun row => above_mergeUpFrom curr _

theorem below_mergeUpLines (curr : ℕ) :
    Below n (fun lines => Prod.fst <$> mergeUpLines lines curr)
      fun lines => Prod.fst <$> mergeUpLines lines (n + 1 + curr) := by
  simp only [fst_mergeUpLines]
  exact .read fun row => below_mergeUpFrom curr _

theorem above_blankRows (first count : ℕ) : Above fun lines => blankRows lines first count := by
  induction count generalizing first with
  | zero => exact above_ok
  | succ count ih => exact (above_setLine []).bind (ih (first + 1))

theorem below_blankRows (first count : ℕ) :
    Below n (fun lines => blankRows lines first count)
      fun lines => blankRows lines (n + 1 + first) count := by
  induction count generalizing first with
  | zero => exact below_ok
  | succ count ih => exact (below_setLine []).bind (ih (first + 1))

theorem above_appendLine (i : ℕ) (text : Line) : Above fun lines => appendLine lines i text :=
  .read fun _ => above_setLine _

theorem below_appendLine (i : ℕ) (text : Line) :
    Below n (fun lines => appendLine lines i text)
      fun lines => appendLine lines (n + 1 + i) text :=
  .read fun _ => below_setLine _

theorem above_replaceLine (i : ℕ) (old new : Line) :
    Above fun lines => replaceLine lines i old new :=
  .read fun _ => above_setLine _

theorem below_replaceLine (i : ℕ) (old new : Line) :
    Below n (fun lines => replaceLine lines i old new)
      fun lines => replaceLine lines (n + 1 + i) old new :=
  .read fun _ => below_setLine _

theorem extractOutsider_eq (outsiderOpt : Finset Signature) (lines : List Line) (fn : SourceFn) :
    extractOutsider outsiderOpt lines fn =
      if fn.signature ∈ outsiderOpt then appendLine lines fn.rBraceLoc.1 (warn fn.name)
      else lineAt lines fn.lBraceLoc.1 >>= fun row =>
        setLine lines fn.lBraceLoc.1 (row.take fn.lBraceLoc.2 ++ ";\n".toList) >>= fun lines =>
          (Prod.fst <$> mergeUpLines lines fn.lBraceLoc.1) >>= fun lines =>
            blankRows lines (fn.lBraceLoc.1 + 1) (fn.rBraceLoc.1 - fn.lBraceLoc.1) := by
  rw [extractOutsider]
  refine if_congr Iff.rfl rfl (bind_congr fun row => bind_congr fun lines => ?_)
  cases mergeUpLines lines fn.lBraceLoc.1 <;> rfl

theorem above_extractOutsider (outsiderOpt : Finset Signature) (fn : SourceFn) :
    Above fun lines => extractOutsider outsiderOpt lines fn := by
  simp only [extractOutsider_eq]
  refine .ite (above_appendLine _ _) (.read fun row => ?_)
  exact (above_setLine _).bind ((above_mergeUpLines _).bind (above_blankRows _ _))

theorem below_extractOutsider (outsiderOpt : Finset Signature) (fn : SourceFn) :
    Below n (fun lines => extractOutsider outsiderOpt lines fn)
      fun lines => extractOutsider outsiderOpt lines (fn.shift (n + 1)) := by
  have hcount : (n + 1 + fn.rBraceLoc.1) - (n + 1 + fn.lBraceLoc.1) =
      fn.rBraceLoc.1 - fn.lBraceLoc.1 := Nat.add_sub_add_left _ _ _
  simp only [extractOutsider_eq, SourceFn.shift, hcount]
  refine .ite (below_appendLine _ _) (.read fun row => ?_)
  exact (below_setLine _).bind ((below_mergeUpLines _).bind (below_blankRows _ _))

theorem above_extractCallback (fn : SourceFn) : Above fun lines => extractCallback lines fn := by
  refine (above_replaceLine _ _ _).bind ?_
  cases fn.declStr with
  | none =>
    intro above above' rest h
    cases h
  | some d => exact above_appendLine _ _

theorem below_extractCallback (fn : SourceFn) :
    Below n (fun lines => extractCallback lines fn)
      fun lines => extractCallback lines (fn.shift (n + 1)) := by
  simp only [extractCallback, SourceFn.shift]
  refine (below_replaceLine _ _ _).bind ?_
  cases fn.declStr with
  | none =>
    intro above below below' _ h
    cases h
  | some d => exact below_appendLine _ _

theorem above_extractInterface (interfacePrefix : List String) (fn : SourceFn) :
    Above fun lines => extractInterface interfacePrefix lines fn := by
  refine .ite above_ok (.ite ?_ ?_)
  · exact above_ok.bind (above_appendLine _ _)
  · exact (above_replaceLine _ _ _).bind (above_appendLine _ _)

theorem below_extractInterface (interfacePrefix : List String) (fn : SourceFn) :
    Below n (fun lines => extractInterface interfacePrefix lines fn)
      fun lines => extractInterface interfacePrefix lines (fn.shift (n + 1)) := by
  refine .ite below_ok (.ite ?_ ?_)
  · exact below_ok.bind (below_appendLine _ _)
  · exact (below_replaceLine _ _ _).bind (below_appendLine _ _)

end Functions

/-! ### Loops -/

section Loops

variable {n : ℕ}

/-- A loop over the functions or the variables of both parts. -/
theorem foldlM_shuffle {α : Type} {op : List Line → α → Except ExtractFailure (List Line)}
    {shift : α → α} {as bs l : List α} (h : Shuffle shift as bs l)
    (hA : ∀ a, Above fun lines => op lines a)
    (hB : ∀ b, Below n (fun lines => op lines b) fun lines => op lines (shift b))
    {above above' below below' : List Line} (hlen : above.length = n)
    (habove : as.foldlM op above = .ok above') (hbelow : bs.foldlM op below = .ok below') :
    above'.length = n ∧
      l.foldlM op (above ++ blankRow :: below) = .ok (above' ++ blankRow :: below') := by
  obtain ⟨lines', hrun, hlen', rfl⟩ := h.foldlM
    (R := fun above below lines => above.length = n ∧ lines = above ++ blankRow :: below)
    (fun a _ above above' below lines hR hop => by
      obtain ⟨hlen, rfl⟩ := hR
      obtain ⟨hlen', hop'⟩ := hA a above above' (blankRow :: below) hop
      exact ⟨_, hop', hlen'.trans hlen, rfl⟩)
    (fun b _ above below below' lines hR hop => by
      obtain ⟨hlen, rfl⟩ := hR
      exact ⟨_, hB b above below below' hlen hop, hlen, rfl⟩)
    habove hbelow ⟨hlen, rfl⟩
  exact ⟨hlen', hrun⟩

theorem seenFirst_shuffle {srcFile : String} {as bs l : List SourceFn}
    (h : Shuffle (SourceFn.shift n) as bs l)
    (honce : ∀ a ∈ as, ∀ b ∈ bs, a.signature ≠ b.signature)
    {uniqueA uniqueB unique : Finset Signature}
    (hA : ∀ a ∈ as, a.signature ∈ unique ↔ a.signature ∈ uniqueA)
    (hB : ∀ b ∈ bs, b.signature ∈ unique ↔ b.signature ∈ uniqueB) :
    Shuffle (SourceFn.shift n) (seenFirst srcFile uniqueA as) (seenFirst srcFile uniqueB bs)
      (seenFirst srcFile unique l) := by
  induction h generalizing uniqueA uniqueB unique with
  | nil => exact .nil
  | @left as bs l a h ih =>
    obtain ⟨ha, has⟩ := List.forall_mem_cons.mp hA
    have honce' : ∀ a' ∈ as, ∀ b ∈ bs, a'.signature ≠ b.signature := fun a' ha' =>
      honce a' (List.mem_cons_of_mem a ha')
    rw [seenFirst, seenFirst]
    by_cases hfile : a.file ≠ srcFile
    · rw [if_pos hfile, if_pos hfile]
      exact ih honce' has hB
    · rw [if_neg hfile, if_neg hfile]
      by_cases hseen : a.signature ∈ unique
      · rw [if_pos hseen, if_pos (ha.mp hseen)]
        exact ih honce' has hB
      · rw [if_neg hseen, if_neg fun hin => hseen (ha.mpr hin)]
        refine (ih honce' (fun a' ha' => ?_) fun b hb => ?_).left a
        · rw [Finset.mem_insert, Finset.mem_insert, has a' ha']
        · -- the functions below have other signatures
          rw [Finset.mem_insert, ← hB b hb]
          exact or_iff_right fun heq => honce a List.mem_cons_self b hb heq.symm
  | @right as bs l b h ih =>
    obtain ⟨hb, hbs⟩ := List.forall_mem_cons.mp hB
    have honce' : ∀ a ∈ as, ∀ b' ∈ bs, a.signature ≠ b'.signature := fun a ha b' hb' =>
      honce a ha b' (List.mem_cons_of_mem b hb')
    rw [seenFirst, seenFirst]
    show Shuffle _ _ _ (if b.file ≠ srcFile then _ else if b.signature ∈ unique then _ else
      b.shift n :: seenFirst srcFile (insert b.signature unique) l)
    by_cases hfile : b.file ≠ srcFile
    · rw [if_pos hfile, if_pos hfile]
      exact ih honce' hA hbs
    · rw [if_neg hfile, if_neg hfile]
      by_cases hseen : b.signature ∈ unique
      · rw [if_pos hseen, if_pos (hb.mp hseen)]
        exact ih honce' hA hbs
      · rw [if_neg hseen, if_neg fun hin => hseen (hb.mpr hin)]
        refine (ih honce' (fun a ha => ?_) fun b' hb' => ?_).right b
        · rw [Finset.mem_insert, ← hA a ha]
          exact or_iff_right fun heq => honce a ha b List.mem_cons_self heq
        · rw [Finset.mem_insert, Finset.mem_insert, hbs b' hb']

/-- The lists of the file are made of those of its parts. -/
structure FnLists.Shuffled (n : ℕ) (listsA listsB lists : FnLists) : Prop where
  fnList : Shuffle (SourceFn.shift n) listsA.fnList listsB.fnList lists.fnList
  callbackList :
    Shuffle (SourceFn.shift n) listsA.callbackList listsB.callbackList lists.callbackList
  interfaceList :
    Shuffle (SourceFn.shift n) listsA.interfaceList listsB.interfaceList lists.interfaceList
  sidecarList :
    Shuffle (SourceFn.shift n) listsA.sidecarList listsB.sidecarList lists.sidecarList

theorem fnLists_shuffled (fc : FuncClass) (srcFile : String) {as bs l : List SourceFn}
    (h : Shuffle (SourceFn.shift n) as bs l)
    (honce : ∀ a ∈ as, ∀ b ∈ bs, a.signature ≠ b.signature) :
    FnLists.Shuffled n (fnLists fc srcFile as) (fnLists fc srcFile bs) (fnLists fc srcFile l) := by
  have hseen : Shuffle (SourceFn.shift n) (seenFirst srcFile ∅ as) (seenFirst srcFile ∅ bs)
      (seenFirst srcFile ∅ l) :=
    seenFirst_shuffle h honce (fun _ _ => Iff.rfl) fun _ _ => Iff.rfl
  exact ⟨hseen.filter fun _ => rfl, hseen.filter fun _ => rfl, hseen.filter fun _ => rfl,
    hseen.filter fun _ => rfl⟩

/-- `function_extract` works on the parts. -/
theorem functionExtract_append (outsiderOpt : Finset Signature) (interfacePrefix : List String)
    {listsA listsB lists : FnLists} (h : FnLists.Shuffled (n + 1) listsA listsB lists)
    {above above' below below' : List Line} (hlen : above.length = n)
    (habove : functionExtract outsiderOpt interfacePrefix listsA above = .ok above')
    (hbelow : functionExtract outsiderOpt interfacePrefix listsB below = .ok below') :
    above'.length = n ∧
      functionExtract outsiderOpt interfacePrefix lists (above ++ blankRow :: below) =
        .ok (above' ++ blankRow :: below') := by
  obtain ⟨above₁, ha₁, habove⟩ := bind_eq_ok habove
  obtain ⟨above₂, ha₂, ha₃⟩ := bind_eq_ok habove
  obtain ⟨below₁, hb₁, hbelow⟩ := bind_eq_ok hbelow
  obtain ⟨below₂, hb₂, hb₃⟩ := bind_eq_ok hbelow
  obtain ⟨hlen₁, hrun₁⟩ := foldlM_shuffle h.fnList (above_extractOutsider outsiderOpt)
    (below_extractOutsider outsiderOpt) hlen ha₁ hb₁
  obtain ⟨hlen₂, hrun₂⟩ := foldlM_shuffle h.callbackList above_extractCallback
    below_extractCallback hlen₁ ha₂ hb₂
  obtain ⟨hlen₃, hrun₃⟩ := foldlM_shuffle (h.interfaceList.append h.sidecarList)
    (above_extractInterface interfacePrefix) (below_extractInterface interfacePrefix) hlen₂ ha₃ hb₃
  refine ⟨hlen₃, ?_⟩
  rw [functionExtract, hrun₁, ok_bind, hrun₂, ok_bind]
  exact hrun₃

end Loops

/-! ### Variables -/

section Variables

variable {n : ℕ}

theorem fst_mergeDownVarFrom (start count : ℕ) (lines : List Line) (curr : ℕ) (merged : Line) :
    Prod.fst <$> mergeDownVarFrom start (count + 1) lines curr merged =
      lineAt lines curr >>= fun row => setLine lines curr [] >>= fun lines =>
        if ';' ∈ row then setLine lines start (merged ++ row)
        else Prod.fst <$>
          mergeDownVarFrom start count lines (curr + 1) (merged ++ strip row ++ " ".toList) := by
  rw [mergeDownVarFrom]
  cases lineAt lines curr with
  | error err => rfl
  | ok row =>
    cases setLine lines curr [] with
    | error err => rfl
    | ok lines =>
      show Prod.fst <$> (if ';' ∈ row then _ else _) = if ';' ∈ row then _ else _
      split
      · cases setLine lines start (merged ++ row) <;> rfl
      · rfl

theorem above_mergeDownVarFrom (start count curr : ℕ) (merged : Line) :
    Above fun lines => Prod.fst <$> mergeDownVarFrom start count lines curr merged := by
  induction count generalizing curr merged with
  | zero =>
    intro above above' rest h
    cases h
  | succ count ih =>
    simp only [fst_mergeDownVarFrom]
    exact .read fun row => (above_setLine []).bind (.ite (above_setLine _) (ih _ _))

theorem below_mergeDownVarFrom (start count curr : ℕ) (merged : Line) :
    Below n (fun lines => Prod.fst <$> mergeDownVarFrom start count lines curr merged)
      fun lines =>
        Prod.fst <$> mergeDownVarFrom (n + 1 + start) count lines (n + 1 + curr) merged := by
  induction count generalizing curr merged with
  | zero =>
    intro above below below' _ h
    cases h
  | succ count ih =>
    simp only [fst_mergeDownVarFrom]
    exact .read fun row => (below_setLine []).bind (.ite (below_setLine _) (ih _ _))

/-- More rows to go do not matter. -/
theorem mergeDownVarFrom_mono {start count count' curr : ℕ} {lines lines' : List Line}
    {merged : Line} (hle : count ≤ count')
    (h : Prod.fst <$> mergeDownVarFrom start count lines curr merged = .ok lines') :
    Prod.fst <$> mergeDownVarFrom start count' lines curr merged = .ok lines' := by
  induction count generalizing count' lines curr merged with
  | zero => cases h
  | succ count ih =>
    obtain ⟨count', rfl⟩ : ∃ k, count' = k + 1 := ⟨count' - 1, by omega⟩
    rw [fst_mergeDownVarFrom] at h ⊢
    obtain ⟨row, hrow, h⟩ := bind_eq_ok h
    obtain ⟨lines₁, hset, h⟩ := bind_eq_ok h
    rw [hrow, ok_bind, hset, ok_bind]
    by_cases hsemi : ';' ∈ row
    · rw [if_pos hsemi] at h ⊢
      exact h
    · rw [if_neg hsemi] at h ⊢
      exact ih (by omega) h

theorem above_mergeDownVar (curr : ℕ) :
    Above fun lines => Prod.fst <$> mergeDownVar lines curr := by
  intro above above' rest h
  obtain ⟨hlen, hrun⟩ := above_mergeDownVarFrom curr _ curr [] above above' rest h
  refine ⟨hlen, mergeDownVarFrom_mono ?_ hrun⟩
  rw [List.length_append]
  omega

theorem below_mergeDownVar (curr : ℕ) :
    Below n (fun lines => Prod.fst <$> mergeDownVar lines curr)
      fun lines => Prod.fst <$> mergeDownVar lines (n + 1 + curr) := by
  intro above below below' hlen h
  have hrun := below_mergeDownVarFrom curr _ curr [] above below below' hlen h
  refine mergeDownVarFrom_mono ?_ hrun
  rw [List.length_append, List.length_cons]
  omega

/-- `extract_var` in front of the look at the joined row. -/
def joinVar (var : VarProp) : RowOp := fun lines =>
  blankRows lines (var.declStartLine + 1) (var.nameLoc.1 - (var.declStartLine + 1)) >>=
    fun lines => Prod.fst <$> mergeDownVar lines var.declStartLine

theorem above_joinVar (var : VarProp) : Above (joinVar var) :=
  (above_blankRows _ _).bind (above_mergeDownVar _)

theorem below_joinVar (var : VarProp) : Below n (joinVar var) (joinVar (var.shift (n + 1))) := by
  have hcount : (n + 1 + var.nameLoc.1) - (n + 1 + var.declStartLine + 1) =
      var.nameLoc.1 - (var.declStartLine + 1) := by
    omega
  unfold joinVar VarProp.shift
  rw [hcount]
  exact (below_blankRows _ _).bind (below_mergeDownVar _)

theorem extractVar_eq (lines : List Line) (shared : List VarProp) (var : VarProp) :
    extractVar (lines, shared) var =
      joinVar var lines >>= fun joined => lineAt joined var.declStartLine >>= fun row =>
        (declareLine row).elim (.ok (joined, shared)) fun row =>
          setLine joined var.declStartLine row >>= fun lines => .ok (lines, shared.erase var) := by
  rw [extractVar, joinVar]
  cases blankRows lines (var.declStartLine + 1) (var.nameLoc.1 - (var.declStartLine + 1)) with
  | error err => rfl
  | ok blanked =>
    show (mergeDownVar blanked _ >>= _) = (Prod.fst <$> mergeDownVar blanked _) >>= _
    cases mergeDownVar blanked var.declStartLine with
    | error err => rfl
    | ok joined =>
      show lineAt joined.1 var.declStartLine >>= _ = lineAt joined.1 var.declStartLine >>= _
      refine bind_congr fun row => ?_
      cases declareLine row <;> rfl

/-- The rows and the list after a variable; what was found in its row says whether it stays in the
list. -/
theorem extractVar_ok_iff {lines lines' : List Line} {shared shared' : List VarProp}
    {var : VarProp} :
    extractVar (lines, shared) var = .ok (lines', shared') ↔
      ∃ joined row, joinVar var lines = .ok joined ∧ joined[var.declStartLine]? = some row ∧
        lines' = joined.set var.declStartLine ((declareLine row).getD row) ∧
        shared' = if (declareLine row).isSome then shared.erase var else shared := by
  rw [extractVar_eq]
  constructor
  · intro h
    obtain ⟨joined, hjoin, h⟩ := bind_eq_ok h
    obtain ⟨row, hrow, h⟩ := bind_eq_ok h
    have hi := getElem?_of_lineAt hrow
    refine ⟨joined, row, hjoin, hi, ?_⟩
    cases hdecl : declareLine row with
    | some row' =>
      rw [hdecl] at h
      obtain ⟨lines₁, hset, h⟩ := bind_eq_ok h
      obtain ⟨rfl, rfl⟩ := Prod.mk.inj (Except.ok.inj h)
      exact ⟨(setLine_ok hset).2, rfl⟩
    | none =>
      rw [hdecl] at h
      obtain ⟨rfl, rfl⟩ := Prod.mk.inj (Except.ok.inj h)
      obtain ⟨hlt, hget⟩ := List.getElem?_eq_some_iff.mp hi
      refine ⟨?_, rfl⟩
      rw [Option.getD_none, ← hget, List.set_getElem_self]
  · rintro ⟨joined, row, hjoin, hi, rfl, rfl⟩
    rw [hjoin, ok_bind, lineAt_eq hi, ok_bind]
    obtain ⟨hlt, hget⟩ := List.getElem?_eq_some_iff.mp hi
    cases hdecl : declareLine row with
    | some row' =>
      show setLine joined var.declStartLine row' >>= _ = _
      rw [setLine_eq hlt]
      rfl
    | none =>
      show Except.ok (joined, shared) = _
      rw [Option.getD_none, ← hget, List.set_getElem_self]
      rfl

theorem lt_of_extractVar {lines lines' : List Line} {shared shared' : List VarProp} {var : VarProp}
    (h : extractVar (lines, shared) var = .ok (lines', shared')) :
    var.declStartLine < lines.length ∧ lines'.length = lines.length := by
  obtain ⟨joined, row, hjoin, hi, rfl, -⟩ := extractVar_ok_iff.mp h
  have hlen := (above_joinVar var lines joined [] hjoin).1
  have hlt := (List.getElem?_eq_some_iff.mp hi).1
  rw [List.length_set]
  omega

theorem extractVar_above {above above' : List Line} {shared shared' : List VarProp} {var : VarProp}
    (h : extractVar (above, shared) var = .ok (above', shared')) :
    ∃ gone : Bool, shared' = (if gone then shared.erase var else shared) ∧
      ∀ rest list, extractVar (above ++ rest, list) var =
        .ok (above' ++ rest, if gone then list.erase var else list) := by
  obtain ⟨joined, row, hjoin, hi, rfl, rfl⟩ := extractVar_ok_iff.mp h
  have hlt := (List.getElem?_eq_some_iff.mp hi).1
  refine ⟨(declareLine row).isSome, rfl, fun rest list => ?_⟩
  refine extractVar_ok_iff.mpr ⟨joined ++ rest, row, ?_, ?_, ?_, rfl⟩
  · exact (above_joinVar var above joined rest hjoin).2
  · rw [List.getElem?_append_left hlt]
    exact hi
  · rw [List.set_append_left _ _ hlt]

theorem extractVar_below {above below below' : List Line} {shared shared' : List VarProp}
    {var : VarProp} (hlen : above.length = n)
    (h : extractVar (below, shared) var = .ok (below', shared')) :
    ∃ gone : Bool, shared' = (if gone then shared.erase var else shared) ∧
      ∀ list, extractVar (above ++ blankRow :: below, list) (var.shift (n + 1)) =
        .ok (above ++ blankRow :: below',
          if gone then list.erase (var.shift (n + 1)) else list) := by
  obtain ⟨joined, row, hjoin, hi, rfl, rfl⟩ := extractVar_ok_iff.mp h
  have hlt := (List.getElem?_eq_some_iff.mp hi).1
  have hrow : (var.shift (n + 1)).declStartLine = above.length + 1 + var.declStartLine := by
    rw [hlen]
    rfl
  refine ⟨(declareLine row).isSome, rfl, fun list => ?_⟩
  refine extractVar_ok_iff.mpr ⟨above ++ blankRow :: joined, row, ?_, ?_, ?_, rfl⟩
  · exact below_joinVar var above below joined hlen hjoin
  · rw [hrow, getElem?_below]
    exact hi
  · rw [hrow, List.set_append_right _ _ (by omega)]
    rw [show above.length + 1 + var.declStartLine - above.length = var.declStartLine + 1 by omega]
    rfl

theorem VarProp.shift_injective (n : ℕ) : Function.Injective (VarProp.shift n) := by
  intro v w h
  obtain ⟨name, file, ⟨row, col⟩, start, external, isPublic, declStr⟩ := v
  obtain ⟨name', file', ⟨row', col'⟩, start', external', isPublic', declStr'⟩ := w
  simpa [VarProp.shift] using h

theorem above_addUsed (var : VarProp) : Above fun lines => addUsed lines var :=
  above_replaceLine _ _ _

theorem below_addUsed (var : VarProp) :
    Below n (fun lines => addUsed lines var) fun lines => addUsed lines (var.shift (n + 1)) :=
  below_replaceLine _ _ _

theorem above_declareVar (var : VarProp) : Above fun lines => declareVar lines var := by
  simp only [declareVar]
  cases var.declStr with
  | none =>
    intro above above' rest h
    cases h
  | some d => exact above_appendLine _ _

theorem below_declareVar (var : VarProp) :
    Below n (fun lines => declareVar lines var)
      fun lines => declareVar lines (var.shift (n + 1)) := by
  simp only [declareVar, VarProp.shift, declText]
  cases var.declStr with
  | none =>
    intro above below below' _ h
    cases h
  | some d => exact below_appendLine _ _

/-- What the loop over the shared variables has done to the file, and what is left in its list. -/
def VarsJoined (n : ℕ) (stA stB st : List Line × List VarProp) : Prop :=
  stA.1.length = n ∧ st.1 = stA.1 ++ blankRow :: stB.1 ∧
    Shuffle (VarProp.shift (n + 1)) stA.2 stB.2 st.2 ∧ ∀ a ∈ stA.2, a.declStartLine < n

theorem VarsJoined.above {stA stA' stB st : List Line × List VarProp} {var : VarProp}
    (h : VarsJoined n stA stB st) (hop : extractVar stA var = .ok stA') :
    ∃ st', extractVar st var = .ok st' ∧ VarsJoined n stA' stB st' := by
  obtain ⟨above, sharedA⟩ := stA
  obtain ⟨above', sharedA'⟩ := stA'
  obtain ⟨lines, shared⟩ := st
  obtain ⟨hlen, hlines, hshared, hlt⟩ := h
  obtain ⟨hvar, hlen'⟩ := lt_of_extractVar hop
  obtain ⟨gone, rfl, hrun⟩ := extractVar_above hop
  obtain rfl : lines = above ++ blankRow :: stB.1 := hlines
  refine ⟨_, hrun (blankRow :: stB.1) shared, hlen'.trans hlen, rfl, ?_, ?_⟩
  · cases gone with
    | false => exact hshared
    | true =>
      -- the variables below stand in other rows
      refine hshared.erase_left fun b _ heq => ?_
      have hrow := congrArg VarProp.declStartLine heq
      change n + 1 + b.declStartLine = var.declStartLine at hrow
      change above.length = n at hlen
      omega
  · cases gone with
    | false => exact hlt
    | true => exact fun a ha => hlt a (List.mem_of_mem_erase ha)

theorem VarsJoined.below {stA stB stB' st : List Line × List VarProp} {var : VarProp}
    (h : VarsJoined n stA stB st) (hop : extractVar stB var = .ok stB') :
    ∃ st', extractVar st (var.shift (n + 1)) = .ok st' ∧ VarsJoined n stA stB' st' := by
  obtain ⟨below, sharedB⟩ := stB
  obtain ⟨below', sharedB'⟩ := stB'
  obtain ⟨lines, shared⟩ := st
  obtain ⟨hlen, hlines, hshared, hlt⟩ := h
  obtain ⟨gone, rfl, hrun⟩ := extractVar_below hlen hop
  obtain rfl : lines = stA.1 ++ blankRow :: below := hlines
  refine ⟨_, hrun shared, hlen, rfl, ?_, hlt⟩
  cases gone with
  | false => exact hshared
  | true =>
    refine hshared.erase_right (VarProp.shift_injective _) fun a ha heq => ?_
    have hrow := congrArg VarProp.declStartLine heq
    change a.declStartLine = n + 1 + var.declStartLine at hrow
    have hrow' := hlt a ha
    omega

/-- The loop over the shared variables. -/
theorem VarsJoined.loop {stA stA' stB stB' st : List Line × List VarProp}
    {sharedA sharedB shared : List VarProp}
    (hshared : Shuffle (VarProp.shift (n + 1)) sharedA sharedB shared)
    (hA : sharedA.foldlM extractVar stA = .ok stA') (hB : sharedB.foldlM extractVar stB = .ok stB')
    (h : VarsJoined n stA stB st) :
    ∃ st', shared.foldlM extractVar st = .ok st' ∧ VarsJoined n stA' stB' st' := by
  refine hshared.foldlM (R := VarsJoined n) ?_ ?_ hA hB h
  · intro var _ sA sA' sB s hR hop
    exact hR.above hop
  · intro var _ sA sB sB' s hR hop
    exact hR.below hop

/-- A loop that does not fail finds each of its variables in a row of the file. -/
theorem lt_of_extractVars {lines : List Line} {shared : List VarProp}
    {st : List Line × List VarProp} {vars : List VarProp}
    (h : vars.foldlM extractVar (lines, shared) = .ok st) :
    ∀ var ∈ vars, var.declStartLine < lines.length := by
  refine foldlM_forall_mem (I := fun st => st.1.length = lines.length) h rfl ?_
  intro var _ st₁ st₂ hop hst
  obtain ⟨hrow, hlen⟩ := lt_of_extractVar hop
  exact ⟨hst ▸ hrow, hlen.trans hst⟩

/-- `var_extract` works on the parts. -/
theorem varExtract_append {staticsA staticsB statics sharedA sharedB shared : List VarProp}
    (hstatics : Shuffle (VarProp.shift (n + 1)) staticsA staticsB statics)
    (hshared : Shuffle (VarProp.shift (n + 1)) sharedA sharedB shared)
    {above above' below below' : List Line} (hlen : above.length = n)
    (habove : varExtract staticsA sharedA above = .ok above')
    (hbelow : varExtract staticsB sharedB below = .ok below') :
    above'.length = n ∧ varExtract statics shared (above ++ blankRow :: below) =
      .ok (above' ++ blankRow :: below') := by
  obtain ⟨above₁, ha₁, habove⟩ := bind_eq_ok habove
  obtain ⟨⟨above₂, restA⟩, ha₂, habove⟩ := bind_eq_ok habove
  obtain ⟨above₃, ha₃, ha₄⟩ := bind_eq_ok habove
  obtain ⟨below₁, hb₁, hbelow⟩ := bind_eq_ok hbelow
  obtain ⟨⟨below₂, restB⟩, hb₂, hbelow⟩ := bind_eq_ok hbelow
  obtain ⟨below₃, hb₃, hb₄⟩ := bind_eq_ok hbelow
  obtain ⟨hlen₁, hrun₁⟩ := foldlM_shuffle hstatics above_addUsed below_addUsed hlen ha₁ hb₁
  have hlt : ∀ a ∈ sharedA, a.declStartLine < n := hlen₁ ▸ lt_of_extractVars ha₂
  have hjoined : VarsJoined n (above₁, sharedA) (below₁, sharedB)
      (above₁ ++ blankRow :: below₁, shared) := ⟨hlen₁, rfl, hshared, hlt⟩
  obtain ⟨⟨lines₂, rest⟩, hrun₂, hlen₂, hlines₂, hrest, -⟩ := hjoined.loop hshared ha₂ hb₂
  obtain rfl : lines₂ = above₂ ++ blankRow :: below₂ := hlines₂
  obtain ⟨hlen₃, hrun₃⟩ := foldlM_shuffle hrest (fun var => above_setLine [])
    (fun var => below_setLine []) hlen₂ ha₃ hb₃
  obtain ⟨hlen₄, hrun₄⟩ := foldlM_shuffle hrest above_declareVar below_declareVar hlen₃ ha₄ hb₄
  refine ⟨hlen₄, ?_⟩
  rw [varExtract, hrun₁, ok_bind, hrun₂, ok_bind]
  show (rest.foldlM (fun lines var => setLine lines var.declStartLine []) _ >>= _) = _
  rw [hrun₃, ok_bind]
  exact hrun₄

end Variables

/-! ### Init functions -/

section FixUp

variable {n : ℕ}

theorem fst_mergeDownFrom (start fuel : ℕ) (lines : List Line) (curr lBrace rBrace : ℕ)
    (merged : Line) :
    Prod.fst <$> mergeDownFrom start (fuel + 1) lines curr lBrace rBrace merged =
      lineAt lines curr >>= fun row => setLine lines curr [] >>= fun lines =>
        if lBrace = 0 ∨ rBrace < lBrace then
          lineAt lines (curr + 1) >>= fun next =>
            Prod.fst <$> mergeDownFrom start fuel lines (curr + 1) (lBrace + next.count '\x7b')
              (rBrace + next.count '\x7d') (merged ++ strip row ++ " ".toList)
        else setLine lines start (merged ++ row) := by
  rw [mergeDownFrom]
  cases lineAt lines curr with
  | error err => rfl
  | ok row =>
    cases setLine lines curr [] with
    | error err => rfl
    | ok lines =>
      show Prod.fst <$> (if lBrace = 0 ∨ rBrace < lBrace then _ else _) =
        if lBrace = 0 ∨ rBrace < lBrace then _ else _
      split
      · cases lineAt lines (curr + 1) <;> rfl
      · cases setLine lines start (merged ++ row) <;> rfl

theorem above_mergeDownFrom (start fuel curr lBrace rBrace : ℕ) (merged : Line) :
    Above fun lines => Prod.fst <$> mergeDownFrom start fuel lines curr lBrace rBrace merged := by
  induction fuel generalizing curr lBrace rBrace merged with
  | zero =>
    intro above above' rest h
    cases h
  | succ fuel ih =>
    simp only [fst_mergeDownFrom]
    refine .read fun row => (above_setLine []).bind (.ite (.read fun next => ?_) (above_setLine _))
    exact ih _ _ _ _

theorem below_mergeDownFrom (start fuel curr lBrace rBrace : ℕ) (merged : Line) :
    Below n (fun lines => Prod.fst <$> mergeDownFrom start fuel lines curr lBrace rBrace merged)
      fun lines => Prod.fst <$>
        mergeDownFrom (n + 1 + start) fuel lines (n + 1 + curr) lBrace rBrace merged := by
  induction fuel generalizing curr lBrace rBrace merged with
  | zero =>
    intro above below below' _ h
    cases h
  | succ fuel ih =>
    simp only [fst_mergeDownFrom]
    refine .read fun row => (below_setLine []).bind (.ite (.read fun next => ?_) (below_setLine _))
    exact ih _ _ _ _

theorem mergeDownFrom_mono {start fuel fuel' curr lBrace rBrace : ℕ} {lines lines' : List Line}
    {merged : Line} (hle : fuel ≤ fuel')
    (h : Prod.fst <$> mergeDownFrom start fuel lines curr lBrace rBrace merged = .ok lines') :
    Prod.fst <$> mergeDownFrom start fuel' lines curr lBrace rBrace merged = .ok lines' := by
  induction fuel generalizing fuel' lines curr lBrace rBrace merged with
  | zero => cases h
  | succ fuel ih =>
    obtain ⟨fuel', rfl⟩ : ∃ k, fuel' = k + 1 := ⟨fuel' - 1, by omega⟩
    rw [fst_mergeDownFrom] at h ⊢
    obtain ⟨row, hrow, h⟩ := bind_eq_ok h
    obtain ⟨lines₁, hset, h⟩ := bind_eq_ok h
    rw [hrow, ok_bind, hset, ok_bind]
    by_cases hopen : lBrace = 0 ∨ rBrace < lBrace
    · rw [if_pos hopen] at h ⊢
      obtain ⟨next, hnext, h⟩ := bind_eq_ok h
      rw [hnext, ok_bind]
      exact ih (by omega) h
    · rw [if_neg hopen] at h ⊢
      exact h

theorem fst_mergeDownFn (lines : List Line) (curr : ℕ) :
    Prod.fst <$> mergeDownFn lines curr = lineAt lines curr >>= fun row => Prod.fst <$>
      mergeDownFrom curr (lines.length - curr) lines curr (row.count '\x7b') (row.count '\x7d')
        [] := by
  rw [mergeDownFn]
  cases lineAt lines curr <;> rfl

theorem above_mergeDownFn (curr : ℕ) : Above fun lines => Prod.fst <$> mergeDownFn lines curr := by
  simp only [fst_mergeDownFn]
  refine .read fun row above above' rest h => ?_
  obtain ⟨hlen, hrun⟩ := above_mergeDownFrom curr _ curr _ _ [] above above' rest h
  refine ⟨hlen, mergeDownFrom_mono ?_ hrun⟩
  rw [List.length_append]
  omega

theorem below_mergeDownFn (curr : ℕ) :
    Below n (fun lines => Prod.fst <$> mergeDownFn lines curr)
      fun lines => Prod.fst <$> mergeDownFn lines (n + 1 + curr) := by
  simp only [fst_mergeDownFn]
  refine .read fun row above below below' hlen h => ?_
  have hrun := below_mergeDownFrom curr _ curr _ _ [] above below below' hlen h
  refine mergeDownFrom_mono ?_ hrun
  rw [List.length_append, List.length_cons]
  omega

namespace Extraction

variable (e : Extraction)

theorem fixUpRow_eq (lines : List Line) (i : ℕ) :
    e.fixUpRow lines i = lineAt lines i >>= fun row =>
      if isInclude row then e.fixInclude row >>= fun row => setLine lines i row
      else if deleteSearch row then
        (if opensFn row then Prod.fst <$> mergeDownFn lines i else .ok lines) >>= fun lines =>
          setLine lines i []
      else setLine lines i (replaceList row) := by
  rw [fixUpRow]
  refine bind_congr fun row => if_congr Iff.rfl rfl (if_congr Iff.rfl ?_ rfl)
  cases opensFn row <;> rfl

theorem above_fixUpRow (i : ℕ) : Above fun lines => e.fixUpRow lines i := by
  simp only [fixUpRow_eq]
  refine .read fun row => .ite (.lift fun row => above_setLine row) (.ite ?_ (above_setLine _))
  exact Above.bind (.ite (above_mergeDownFn i) above_ok) (above_setLine [])

theorem below_fixUpRow (i : ℕ) :
    Below n (fun lines => e.fixUpRow lines i) fun lines => e.fixUpRow lines (n + 1 + i) := by
  simp only [fixUpRow_eq]
  refine .read fun row => .ite (.lift fun row => below_setLine row) (.ite ?_ (below_setLine _))
  exact Below.bind (.ite (below_mergeDownFn i) below_ok) (below_setLine [])

/-- A blank row stays. -/
theorem fixUpRow_blankRow (above below : List Line) :
    e.fixUpRow (above ++ blankRow :: below) above.length = .ok (above ++ blankRow :: below) := by
  have hrow : (above ++ blankRow :: below)[above.length]? = some blankRow := by
    rw [List.getElem?_append_right le_rfl, Nat.sub_self]
    rfl
  have hlt := (List.getElem?_eq_some_iff.mp hrow).1
  rw [fixUpRow_eq, lineAt_eq hrow, ok_bind]
  show setLine _ _ blankRow = _
  rw [setLine_eq hlt, List.set_append_right _ _ le_rfl, Nat.sub_self]
  rfl

theorem above_fixUpRows (first count : ℕ) :
    Above fun lines => (List.range' first count).foldlM e.fixUpRow lines := by
  induction count generalizing first with
  | zero => exact above_ok
  | succ count ih =>
    simp only [List.range'_succ, List.foldlM_cons]
    exact (e.above_fixUpRow first).bind (ih (first + 1))

theorem below_fixUpRows (first count : ℕ) :
    Below n (fun lines => (List.range' first count).foldlM e.fixUpRow lines)
      fun lines => (List.range' (n + 1 + first) count).foldlM e.fixUpRow lines := by
  induction count generalizing first with
  | zero => exact below_ok
  | succ count ih =>
    simp only [List.range'_succ, List.foldlM_cons]
    exact (e.below_fixUpRow first).bind (ih (first + 1))

/-- `fix_up` works on the parts. -/
theorem fixUp_append {above above' below below' : List Line} (habove : e.fixUp above = .ok above')
    (hbelow : e.fixUp below = .ok below') :
    e.fixUp (above ++ blankRow :: below) = .ok (above' ++ blankRow :: below') := by
  obtain ⟨hlen, hrun⟩ := e.above_fixUpRows 0 above.length above above' (blankRow :: below) habove
  have hrun' := e.below_fixUpRows 0 below.length above' below below' hlen hbelow
  have hrange : List.range' 0 (above ++ blankRow :: below).length =
      List.range' 0 above.length ++
        (above.length :: List.range' (above.length + 1) below.length) := by
    have happ := List.range'_append_1 (s := 0) (m := above.length) (n := below.length + 1)
    rw [Nat.zero_add, List.range'_succ] at happ
    rw [List.length_append, List.length_cons, happ]
  change List.foldlM e.fixUpRow (above ++ blankRow :: below)
    (List.range' 0 above.length) = _ at hrun
  rw [fixUp, hrange, List.foldlM_append, hrun, ok_bind, List.foldlM_cons, ← hlen, fixUpRow_blankRow,
    ok_bind, hlen]
  exact hrun'

end Extraction

end FixUp

/-! ### Cutting a file -/

theorem locatedVars_shuffle {n : ℕ} (srcFile : String) {varA varB vars : List VarProp}
    (h : Shuffle (VarProp.shift n) varA varB vars) :
    Shuffle (VarProp.shift n) (locatedVars srcFile varA) (locatedVars srcFile varB)
      (locatedVars srcFile vars) :=
  h.filter fun _ => rfl

theorem staticVars_shuffle {n : ℕ} (config : Config) (varConfig : GlobalVarConfig)
    (srcFile : String)
    {varA varB vars : List VarProp} (h : Shuffle (VarProp.shift n) varA varB vars) :
    Shuffle (VarProp.shift n) (staticVars config varConfig srcFile varA)
      (staticVars config varConfig srcFile varB) (staticVars config varConfig srcFile vars) := by
  rw [staticVars, staticVars, staticVars]
  by_cases hsdcr : srcFile ∈ config.sdcrSrcs
  · rw [if_pos hsdcr, if_pos hsdcr, if_pos hsdcr]
    exact .nil
  · rw [if_neg hsdcr, if_neg hsdcr, if_neg hsdcr]
    exact (locatedVars_shuffle srcFile h).filter fun _ => rfl

theorem sharedVars_shuffle {n : ℕ} (config : Config) (varConfig : GlobalVarConfig)
    (srcFile : String)
    {varA varB vars : List VarProp} (h : Shuffle (VarProp.shift n) varA varB vars) :
    Shuffle (VarProp.shift n) (sharedVars config varConfig srcFile varA)
      (sharedVars config varConfig srcFile varB) (sharedVars config varConfig srcFile vars) := by
  rw [sharedVars, sharedVars, sharedVars]
  by_cases hsdcr : srcFile ∈ config.sdcrSrcs
  · rw [if_pos hsdcr, if_pos hsdcr, if_pos hsdcr]
    exact locatedVars_shuffle srcFile h
  · rw [if_neg hsdcr, if_neg hsdcr, if_neg hsdcr]
    exact (locatedVars_shuffle srcFile h).filter fun _ => rfl

/-- **Cutting a file.**  What is extracted from the rows above a blank row and from those below
it is extracted from the file, if the parts have different functions; the functions and the
variables of the file may come in any order that keeps those of each part. -/
theorem Extraction.extractFile_append (e : Extraction) (fc : FuncClass)
    (varConfig : GlobalVarConfig)
    (interfacePrefix : List String) {fnA fnB fns : List SourceFn} {varA varB vars : List VarProp}
    {above above' below below' : List Line}
    (hfn : Shuffle (SourceFn.shift (above.length + 1)) fnA fnB fns)
    (hvar : Shuffle (VarProp.shift (above.length + 1)) varA varB vars)
    (honce : ∀ f ∈ fnA, ∀ g ∈ fnB, f.signature ≠ g.signature)
    (habove : e.extractFile fc varConfig interfacePrefix fnA varA above = .ok above')
    (hbelow : e.extractFile fc varConfig interfacePrefix fnB varB below = .ok below') :
    e.extractFile fc varConfig interfacePrefix fns vars (above ++ blankRow :: below) =
      .ok (above' ++ blankRow :: below') := by
  obtain ⟨above₁, ha₁, habove⟩ := bind_eq_ok habove
  obtain ⟨above₂, ha₂, ha₃⟩ := bind_eq_ok habove
  obtain ⟨below₁, hb₁, hbelow⟩ := bind_eq_ok hbelow
  obtain ⟨below₂, hb₂, hb₃⟩ := bind_eq_ok hbelow
  have hlists := fnLists_shuffled fc e.srcFile hfn honce
  have hstatics := staticVars_shuffle e.config varConfig e.srcFile hvar
  have hshared := sharedVars_shuffle e.config varConfig e.srcFile hvar
  obtain ⟨hlen₁, hrun₁⟩ := functionExtract_append fc.outsiderOpt interfacePrefix hlists rfl ha₁ hb₁
  obtain ⟨-, hrun₂⟩ := varExtract_append hstatics hshared hlen₁ ha₂ hb₂
  rw [extractFile, hrun₁, ok_bind, hrun₂, ok_bind]
  exact e.fixUp_append ha₃ hb₃

/-- An interface function, and a variable below it. -/
def scheduleRows : List Line :=
  ["int schedule(void)\n".toList, "\x7b\n".toList, "\treturn pick_next();\n".toList,
    "\x7d\n".toList]

def scheduleFn : SourceFn :=
  { plainFn "schedule" "kernel/sched/core.c" with
    lBraceLoc := (1, 0)
    rBraceLoc := (3, 0)
    nameLoc := (0, 4)
    declStr := none }

def levelRows : List Line := ["int level\n".toList, "\t= 2;\n".toList]

def levelVar : VarProp where
  name := "level"
  file := "kernel/sched/core.c"
  nameLoc := (0, 4)
  declStartLine := 0
  external := false
  isPublic := true
  declStr := some "extern int level;".toList

/-- Only the function of the upper part is there, and only the variable of the lower one. -/
theorem extractFile_append_level : (linuxExtraction "kernel/sched/core.c").extractFile smallClass
    ⟨[], []⟩ [] [scheduleFn] [levelVar.shift 5] (scheduleRows ++ blankRow :: levelRows) =
      .ok (scheduleRows.set 3 ("\x7d\n".toList ++ ifWarn "schedule") ++
        blankRow :: ["extern int level;\n".toList, []]) :=
  Extraction.extractFile_append _ _ _ _ (.left _ .nil) (.right levelVar .nil)
    (fun _ _ _ hg => absurd hg List.not_mem_nil) (by decide +kernel) (by decide +kernel)

end Plugsched
