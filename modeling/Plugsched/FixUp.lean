/-
`fix_up`: the last pass over an extracted file.

The functions that the metadata marks as `__init` were left alone until here.  A row in
which one of five patterns stands is deleted; if it looks like the head of a function,
the rows below are deleted with it, until the braces are closed.

* `Segment` — what the pass takes in at a time: a row that it keeps, a row or a
  block that it deletes; `fixUpRow_segment`, the step lemma;
* `cleansUp_iff` — when the init functions go, and nothing else that should stay;
* `HeadedLayout.tidy` — a simple layout for which the pass is right; `Tidy.mayGo`,
  `not_tidy_of_head`, the rows for which it is wrong.
-/
import Plugsched.FixInclude

open ExceptRules TextLines Paths

namespace Plugsched

/-! ### The pass -/

/-- `delete.search(line)`. -/
def deleteSearch (row : Line) : Bool :=
  "initcall".toList <:+: row || "early_param".toList <:+: row || "__init ".toList <:+: row ||
    "__initdata ".toList <:+: row || "__setup".toList <:+: row

/-- `'__init ' in line and ';' not in line`. -/
def opensFn (row : Line) : Bool := "__init ".toList <:+: row && !(';' ∈ row)

/-- `'#include "' in line`. -/
def isInclude (row : Line) : Bool := "#include \"".toList <:+: row

/-- The scheduling classes, as the pattern of `replace_list` spells them. -/
def schedClasses : List Line :=
  ["stop", "dl", "rt", "fair", "idle"].map fun name => name.toList ++ "_sched_class".toList

/-- The class that is defined at the front of the text, and the text behind it. -/
def classAt (s : Line) : Option (Line × Line) :=
  (schedClasses.find? fun name => ("struct sched_class ".toList ++ name).isPrefixOf s).map
    fun name => (name, s.drop ("struct sched_class ".toList ++ name).length)

/-- The last class in the first line of the text. -/
def lastClass : Line → Option (Line × Line)
  | [] => none
  | c :: s => (if c = '\n' then none else lastClass s) <|> classAt (c :: s)

/-- The second pair of `replace_list`: what stands in front of the class is lost. -/
def shadowClass (row : Line) : Line :=
  if "extern ".toList <+: row then row
  else
    match lastClass row with
    | some (name, rest) => "struct sched_class shadow_".toList ++ name ++ rest
    | none => row

/-- The loop over `replace_list`. -/
def replaceList (row : Line) : Line :=
  if "struct atomic_t".toList <:+: row then
    replaceAll "struct atomic_t".toList "atomic_t".toList row
  else shadowClass row

/-- The loop of `merge_down_fn`, with the braces counted so far; the first argument bounds
the rows from `curr` on. -/
def mergeDownFrom (start : ℕ) :
    ℕ → List Line → ℕ → ℕ → ℕ → Line → Except ExtractFailure (List Line × ℕ)
  | 0, _, _, _, _, _ => .error .indexError
  | fuel + 1, lines, curr, lBrace, rBrace, merged => do
    let line ← lineAt lines curr
    let lines ← setLine lines curr []
    if lBrace = 0 ∨ rBrace < lBrace then
      let next ← lineAt lines (curr + 1)
      mergeDownFrom start fuel lines (curr + 1) (lBrace + next.count '\x7b')
        (rBrace + next.count '\x7d') (merged ++ strip line ++ " ".toList)
    else
      let lines ← setLine lines start (merged ++ line)
      return (lines, curr)

/-- `merge_down_fn`. -/
def mergeDownFn (lines : List Line) (curr : ℕ) : Except ExtractFailure (List Line × ℕ) := do
  let line ← lineAt lines curr
  mergeDownFrom curr (lines.length - curr) lines curr (line.count '\x7b') (line.count '\x7d') []

namespace Extraction

variable (e : Extraction)

/-- The loop body of `fix_up`. -/
def fixUpRow (lines : List Line) (i : ℕ) : Except ExtractFailure (List Line) := do
  let line ← lineAt lines i
  if isInclude line then
    let line ← e.fixInclude line
    setLine lines i line
  else if deleteSearch line then
    let lines ← if opensFn line then Prod.fst <$> mergeDownFn lines i else pure lines
    setLine lines i []
  else
    setLine lines i (replaceList line)

/-- `fix_up`. -/
def fixUp (lines : List Line) : Except ExtractFailure (List Line) :=
  (List.range' 0 lines.length).foldlM e.fixUpRow lines

end Extraction

/-! ### Braces -/

/-- The braces of a character from row `i` to row `j`. -/
def bracesIn (c : Char) (lines : List Line) (i j : ℕ) : ℕ := (rows lines i (j + 1)).flatten.count c

/-- From row `i` to row `j` a brace is opened, and all are closed. -/
def Closed (lines : List Line) (i j : ℕ) : Prop :=
  0 < bracesIn '\x7b' lines i j ∧ bracesIn '\x7b' lines i j ≤ bracesIn '\x7d' lines i j

/-- Row `j` is the first in which the braces from row `i` on are closed. -/
structure FirstClosed (lines : List Line) (i j : ℕ) : Prop where
  le : i ≤ j
  lt : j < lines.length
  closed : Closed lines i j
  first : ∀ k, i ≤ k → k < j → ¬ Closed lines i k

section Braces

variable {lines lines₀ : List Line} {i j : ℕ}

theorem FirstClosed.unique {j' : ℕ} (h : FirstClosed lines i j) (h' : FirstClosed lines i j') :
    j = j' := by
  rcases lt_trichotomy j j' with hlt | heq | hlt
  · exact absurd h.closed (h'.first j h.le hlt)
  · exact heq
  · exact absurd h'.closed (h.first j' h'.le hlt)

theorem bracesIn_self (c : Char) {row : Line} (h : lines[i]? = some row) :
    bracesIn c lines i i = row.count c := by
  rw [bracesIn, rows_succ h, List.flatten_singleton]

theorem bracesIn_succ (c : Char) {row : Line} (hij : i ≤ j) (h : lines[j + 1]? = some row) :
    bracesIn c lines i (j + 1) = bracesIn c lines i j + row.count c := by
  rw [bracesIn, rows_append lines (by omega : i ≤ j + 1) (Nat.le_succ (j + 1)), rows_succ h,
    List.flatten_append, List.count_append, List.flatten_singleton]
  rfl

/-- What the loop of `merge_down_fn` does to the rows. -/
structure MergedDown (lines : List Line) (start curr : ℕ) (lines' : List Line) (j : ℕ) : Prop where
  length : lines'.length = lines.length
  blank : ∀ k, k ≠ start → curr ≤ k → k ≤ j → lines'[k]? = some []
  frame : ∀ k, k ≠ start → k < curr ∨ j < k → lines'[k]? = lines[k]?

/-- One round of the loop. -/
theorem mergeDownFrom_succ {start fuel curr lBrace rBrace : ℕ} {merged row : Line}
    (hrow : lines[curr]? = some row) :
    mergeDownFrom start (fuel + 1) lines curr lBrace rBrace merged =
      if lBrace = 0 ∨ rBrace < lBrace then
        lineAt (lines.set curr []) (curr + 1) >>= fun next =>
          mergeDownFrom start fuel (lines.set curr []) (curr + 1) (lBrace + next.count '\x7b')
            (rBrace + next.count '\x7d') (merged ++ strip row ++ " ".toList)
      else
        setLine (lines.set curr []) start (merged ++ row) >>= fun lines => .ok (lines, curr) := by
  rw [mergeDownFrom, lineAt_eq hrow]
  show (setLine lines curr [] >>= _) = _
  rw [setLine_eq (List.getElem?_eq_some_iff.mp hrow).1]
  rfl

/-- The loop stops where the braces are closed first, or runs past the end. -/
theorem mergeDownFrom_cases {fuel start curr lBrace rBrace : ℕ} (merged : Line)
    (hlen : lines.length = lines₀.length) (hle : start ≤ curr) (hcurr : curr < lines.length)
    (hfuel : lines.length ≤ curr + fuel) (hrest : ∀ k, curr ≤ k → lines[k]? = lines₀[k]?)
    (hl : lBrace = bracesIn '\x7b' lines₀ start curr)
    (hr : rBrace = bracesIn '\x7d' lines₀ start curr) :
    (∃ j lines', mergeDownFrom start fuel lines curr lBrace rBrace merged = .ok (lines', j) ∧
      curr ≤ j ∧ j < lines.length ∧ Closed lines₀ start j ∧
      (∀ k, curr ≤ k → k < j → ¬ Closed lines₀ start k) ∧ MergedDown lines start curr lines' j) ∨
    (mergeDownFrom start fuel lines curr lBrace rBrace merged = .error .indexError ∧
      ∀ k, curr ≤ k → k < lines.length → ¬ Closed lines₀ start k) := by
  induction fuel generalizing lines curr lBrace rBrace merged with
  | zero => omega
  | succ fuel ih =>
    have hline := List.getElem?_eq_getElem hcurr
    have hset : (lines.set curr []).length = lines.length := List.length_set
    rw [mergeDownFrom_succ hline]
    by_cases hopen : lBrace = 0 ∨ rBrace < lBrace
    · -- the loop goes on, as the braces are not closed here
      have hnot : ¬ Closed lines₀ start curr := by
        rintro ⟨hpos, hclosed⟩
        omega
      rw [if_pos hopen]
      by_cases hnext : curr + 1 < lines.length
      · have hbelow : ∀ k, curr + 1 ≤ k → (lines.set curr [])[k]? = lines₀[k]? := by
          intro k hk
          rw [List.getElem?_set_ne (by omega), hrest k (by omega)]
        have hrow : (lines.set curr [])[curr + 1]? = some lines[curr + 1] := by
          rw [List.getElem?_set_ne (by omega), List.getElem?_eq_getElem hnext]
        have hrow₀ : lines₀[curr + 1]? = some lines[curr + 1] := by
          rw [← hbelow (curr + 1) le_rfl, hrow]
        have hl' := congrArg (· + lines[curr + 1].count '\x7b') hl
        have hr' := congrArg (· + lines[curr + 1].count '\x7d') hr
        rw [← bracesIn_succ _ hle hrow₀] at hl' hr'
        rw [lineAt_eq hrow]
        rcases ih (merged ++ strip lines[curr] ++ " ".toList) (hset.trans hlen) (by omega)
            (by omega : curr + 1 < (lines.set curr []).length) (by omega) hbelow hl' hr' with
          ⟨j, lines', hrun, hj, hjlen, hclosed, hfirst, hmerged⟩ | ⟨hrun, hnone⟩
        · refine Or.inl ⟨j, lines', hrun, by omega, by omega, hclosed, fun k h1 h2 => ?_,
            hmerged.length.trans hset, fun k hk h1 h2 => ?_, fun k hk h => ?_⟩
          · rcases Nat.eq_or_lt_of_le h1 with rfl | hlt
            · exact hnot
            · exact hfirst k hlt h2
          · rcases Nat.eq_or_lt_of_le h1 with rfl | hlt
            · rw [hmerged.frame curr hk (by omega), List.getElem?_set_self hcurr]
            · exact hmerged.blank k hk hlt h2
          · rw [hmerged.frame k hk (by omega), List.getElem?_set_ne (by omega)]
        · refine Or.inr ⟨hrun, fun k h1 h2 => ?_⟩
          rcases Nat.eq_or_lt_of_le h1 with rfl | hlt
          · exact hnot
          · exact hnone k hlt (by omega)
      · -- the file ends here
        refine Or.inr ⟨?_, fun k h1 h2 => ?_⟩
        · rw [lineAt, List.getElem?_eq_none (by omega)]
          rfl
        · obtain rfl : k = curr := by omega
          exact hnot
    · -- the loop ends, and row `start` gets the joined text
      have hclosed : Closed lines₀ start curr := by
        constructor
        · omega
        · omega
      rw [if_neg hopen, setLine_eq (by omega : start < (lines.set curr []).length)]
      refine Or.inl ⟨curr, _, rfl, le_rfl, hcurr, hclosed, fun k h1 h2 => by omega, ?_,
        fun k hk h1 h2 => ?_, fun k hk h => ?_⟩
      · rw [List.length_set, hset]
      · obtain rfl : k = curr := by omega
        rw [List.getElem?_set_ne (Ne.symm hk), List.getElem?_set_self hcurr]
      · rw [List.getElem?_set_ne (Ne.symm hk), List.getElem?_set_ne (by omega)]

theorem mergeDownFn_cases (hlen : lines.length = lines₀.length) (hi : i < lines.length)
    (hrest : ∀ k, i ≤ k → lines[k]? = lines₀[k]?) :
    (∃ j lines', mergeDownFn lines i = .ok (lines', j) ∧ FirstClosed lines₀ i j ∧
      MergedDown lines i i lines' j) ∨
    (mergeDownFn lines i = .error .indexError ∧ ∀ j, ¬ FirstClosed lines₀ i j) := by
  have hrow := List.getElem?_eq_getElem hi
  have hrow₀ : lines₀[i]? = some lines[i] := by rw [← hrest i le_rfl, hrow]
  rw [mergeDownFn, lineAt_eq hrow]
  rcases mergeDownFrom_cases [] hlen le_rfl hi
    (by omega : lines.length ≤ i + (lines.length - i)) hrest
      (bracesIn_self _ hrow₀).symm (bracesIn_self _ hrow₀).symm with
    ⟨j, lines', hrun, hj, hjlen, hclosed, hfirst, hmerged⟩ | ⟨hrun, hnone⟩
  · exact Or.inl ⟨j, lines', hrun, ⟨hj, by omega, hclosed, hfirst⟩, hmerged⟩
  · exact Or.inr ⟨hrun, fun j hj => hnone j hj.le (by have := hj.lt; omega) hj.closed⟩

end Braces

/-! ### What the pass takes in at a time -/

/-- The rows from `i` up to the next one that the pass reads, and whether it deletes them. -/
inductive Segment (e : Extraction) (lines : List Line) (i : ℕ) : ℕ → Bool → Prop
  | header {row : Line} (hrow : lines[i]? = some row) (hincl : isInclude row = true)
      (hheader : e.HasHeader row) : Segment e lines i (i + 1) false
  | kept {row : Line} (hrow : lines[i]? = some row) (hincl : isInclude row = false)
      (hdelete : deleteSearch row = false) : Segment e lines i (i + 1) false
  | single {row : Line} (hrow : lines[i]? = some row) (hincl : isInclude row = false)
      (hdelete : deleteSearch row = true) (hopens : opensFn row = false) :
      Segment e lines i (i + 1) true
  | block {row : Line} {j : ℕ} (hrow : lines[i]? = some row) (hincl : isInclude row = false)
      (hdelete : deleteSearch row = true) (hopens : opensFn row = true)
      (hclosed : FirstClosed lines i j) : Segment e lines i (j + 1) true

section Segments

variable {e : Extraction} {lines lines₀ lines₁ : List Line} {i m m' : ℕ} {gone gone' : Bool}
  {row : Line}

theorem Segment.lt (h : Segment e lines i m gone) : i < m := by
  cases h with
  | header => exact Nat.lt_succ_self i
  | kept => exact Nat.lt_succ_self i
  | single => exact Nat.lt_succ_self i
  | block _ _ _ _ hclosed => exact Nat.lt_succ_of_le hclosed.le

/-- A row that is kept is taken in alone. -/
theorem Segment.eq_succ (h : Segment e lines i m false) : m = i + 1 := by
  cases h with
  | header => rfl
  | kept => rfl

/-- The first row decides what is deleted. -/
theorem Segment.gone_iff (h : Segment e lines i m gone) (hrow : lines[i]? = some row) :
    gone = true ↔ isInclude row = false ∧ deleteSearch row = true := by
  cases h with
  | header hget hincl =>
    obtain rfl := Option.some.inj (hget.symm.trans hrow)
    simp [hincl]
  | kept hget _ hdelete =>
    obtain rfl := Option.some.inj (hget.symm.trans hrow)
    simp [hdelete]
  | single hget hincl hdelete =>
    obtain rfl := Option.some.inj (hget.symm.trans hrow)
    simp [hincl, hdelete]
  | block hget hincl hdelete =>
    obtain rfl := Option.some.inj (hget.symm.trans hrow)
    simp [hincl, hdelete]

theorem Segment.unique (h : Segment e lines i m gone) (h' : Segment e lines i m' gone') :
    m = m' ∧ gone = gone' := by
  cases h with
  | block hrow hincl hdelete hopens hclosed =>
    cases h' with
    | block _ _ _ _ hclosed' => exact ⟨congrArg (· + 1) (hclosed.unique hclosed'), rfl⟩
    | _ => simp_all
  | _ => cases h' <;> simp_all

theorem shadowClass_ne_nil (h : row ≠ []) : shadowClass row ≠ [] := by
  rw [shadowClass]
  by_cases hextern : "extern ".toList <+: row
  · rwa [if_pos hextern]
  · rw [if_neg hextern]
    cases lastClass row with
    | none => exact h
    | some found =>
      obtain ⟨name, rest⟩ := found
      have hne : "struct sched_class shadow_".toList ≠ [] := by decide
      intro hnil
      simp only [List.append_eq_nil_iff] at hnil
      exact hne hnil.1.1

theorem replaceList_ne_nil (h : row ≠ []) : replaceList row ≠ [] := by
  by_cases hatomic : "struct atomic_t".toList <:+: row
  · have heq : replaceList row =
        replaceAll "struct atomic_t".toList "atomic_t".toList row := if_pos hatomic
    have hne : "atomic_t".toList ≠ [] := by decide
    rw [heq]
    exact replaceAll_ne_nil hne h
  · have heq : replaceList row = shadowClass row := if_neg hatomic
    rw [heq]
    exact shadowClass_ne_nil h

theorem replaceList_nil : replaceList [] = [] := rfl

theorem ne_nil_of_isInclude (h : isInclude row = true) : row ≠ [] := by
  rintro rfl
  exact absurd h (by decide)

theorem fixUpRow_include (hrow : lines[i]? = some row) (hincl : isInclude row = true) :
    e.fixUpRow lines i = e.fixInclude row >>= setLine lines i := by
  rw [Extraction.fixUpRow, lineAt_eq hrow]
  show (if isInclude row then _ else _) = _
  rw [if_pos hincl]

theorem fixUpRow_delete (hrow : lines[i]? = some row) (hincl : isInclude row = false)
    (hdelete : deleteSearch row = true) : e.fixUpRow lines i =
      (if opensFn row then Prod.fst <$> mergeDownFn lines i else pure lines) >>= fun lines =>
        setLine lines i [] := by
  rw [Extraction.fixUpRow, lineAt_eq hrow]
  show (if isInclude row then _ else if deleteSearch row then _ else _) = _
  rw [hincl, if_neg Bool.false_ne_true, if_pos hdelete]
  cases opensFn row with
  | true => rfl
  | false => rfl

theorem fixUpRow_keep (hrow : lines[i]? = some row) (hincl : isInclude row = false)
    (hdelete : deleteSearch row = false) :
    e.fixUpRow lines i = setLine lines i (replaceList row) := by
  rw [Extraction.fixUpRow, lineAt_eq hrow]
  show (if isInclude row then _ else if deleteSearch row then _ else _) = _
  rw [hincl, hdelete, if_neg Bool.false_ne_true, if_neg Bool.false_ne_true]

/-- The state of the loop at row `i`, when the rows up to `m` are deleted already and
the others below are as they were. -/
structure PassAt (lines₀ lines : List Line) (i m : ℕ) : Prop where
  length : lines.length = lines₀.length
  le : i ≤ m
  le_length : m ≤ lines₀.length
  blank : ∀ k, i ≤ k → k < m → lines[k]? = some []
  rest : ∀ k, m ≤ k → lines[k]? = lines₀[k]?

/-- Nothing happens to a deleted row. -/
theorem fixUpRow_blank (h : PassAt lines₀ lines i m) (him : i < m) :
    ∃ lines₁, e.fixUpRow lines i = .ok lines₁ ∧ PassAt lines₀ lines₁ (i + 1) m ∧
      ∀ k, k ≤ i → lines₁[k]? = lines[k]? := by
  have hlt : i < lines.length := by
    have h1 := h.length
    have h2 := h.le_length
    omega
  have hrow := h.blank i le_rfl him
  have hself : ∀ k : ℕ, (lines.set i [])[k]? = lines[k]? := by
    intro k
    by_cases hk : k = i
    · rw [hk, List.getElem?_set_self hlt, hrow]
    · rw [List.getElem?_set_ne (Ne.symm hk)]
  have hincl : isInclude [] = false := by decide
  have hdelete : deleteSearch [] = false := by decide
  refine ⟨lines.set i [], ?_, ⟨?_, him, h.le_length, fun k h1 h2 => ?_, fun k hk => ?_⟩,
    fun k _ => hself k⟩
  · rw [fixUpRow_keep hrow hincl hdelete, replaceList_nil]
    exact setLine_eq hlt []
  · rw [List.length_set, h.length]
  · rw [hself, h.blank k (by omega) h2]
  · rw [hself, h.rest k hk]

/-- The step of the loop at a row that is as it was: it takes in a segment, or raises an
exception. -/
theorem fixUpRow_segment (h : PassAt lines₀ lines i i) (hi : i < lines₀.length) :
    (∃ m gone lines₁ new, Segment e lines₀ i m gone ∧ e.fixUpRow lines i = .ok lines₁ ∧
      PassAt lines₀ lines₁ (i + 1) m ∧ (∀ k, k < i → lines₁[k]? = lines[k]?) ∧
      lines₁[i]? = some new ∧ (gone = true → new = []) ∧
      (gone = false → (new = [] ↔ lines₀[i]? = some []))) ∨
    ((∃ err, e.fixUpRow lines i = .error err) ∧ ∀ m gone, ¬ Segment e lines₀ i m gone) := by
  have hlt : i < lines.length := by rwa [h.length]
  have hrow := List.getElem?_eq_getElem hlt
  have hrow₀ : lines₀[i]? = some lines[i] := by rw [← h.rest i le_rfl, hrow]
  generalize lines[i] = row at hrow hrow₀
  -- a step that sets this row only
  have hset : ∀ new : Line, PassAt lines₀ (lines.set i new) (i + 1) (i + 1) ∧
      (∀ k, k < i → (lines.set i new)[k]? = lines[k]?) ∧ (lines.set i new)[i]? = some new := by
    intro new
    refine ⟨⟨by rw [List.length_set, h.length], le_rfl, hi, fun k h1 h2 => by omega,
      fun k hk => ?_⟩, fun k hk => ?_, List.getElem?_set_self hlt⟩
    · rw [List.getElem?_set_ne (by omega), h.rest k (by omega)]
    · rw [List.getElem?_set_ne (by omega)]
  by_cases hincl : isInclude row = true
  · -- an include, which `fix_include` can or cannot read
    rw [fixUpRow_include hrow hincl]
    rcases e.fixInclude_cases row with ⟨hheader, row', hrun, hne⟩ | ⟨hheader, err, hrun⟩
    · obtain ⟨hpass, hframe, hnew⟩ := hset row'
      have hrow' := hne (ne_nil_of_isInclude hincl)
      refine Or.inl ⟨i + 1, false, lines.set i row', row', .header hrow₀ hincl hheader, ?_, hpass,
        hframe, hnew, by simp, fun _ => iff_of_false hrow' ?_⟩
      · rw [hrun]
        exact setLine_eq hlt row'
      · rw [hrow₀, Option.some.injEq]
        exact ne_nil_of_isInclude hincl
    · refine Or.inr ⟨⟨err, by rw [hrun]; rfl⟩, fun m gone hseg => ?_⟩
      cases hseg <;> simp_all
  · have hincl' : isInclude row = false := by simpa using hincl
    by_cases hdelete : deleteSearch row = true
    · rw [fixUpRow_delete hrow hincl' hdelete]
      by_cases hopens : opensFn row = true
      · -- the head of a function: the rows below go with it
        rw [if_pos hopens]
        rcases mergeDownFn_cases h.length hlt h.rest with
          ⟨j, lines₁, hrun, hclosed, hmerged⟩ | ⟨hrun, hnone⟩
        · have hlen₁ : lines₁.length = lines₀.length := hmerged.length.trans h.length
          have hlt₁ : i < lines₁.length := by rwa [hlen₁]
          refine Or.inl ⟨j + 1, true, lines₁.set i [], [],
            .block hrow₀ hincl' hdelete hopens hclosed,
            ?_, ⟨by rw [List.length_set, hlen₁], Nat.succ_le_succ hclosed.le, hclosed.lt,
              fun k h1 h2 => ?_, fun k hk => ?_⟩, fun k hk => ?_, List.getElem?_set_self hlt₁,
            fun _ => rfl, by simp⟩
          · rw [hrun]
            exact setLine_eq hlt₁ []
          · rw [List.getElem?_set_ne (by omega), hmerged.blank k (by omega) (by omega) (by omega)]
          · have hle := hclosed.le
            rw [List.getElem?_set_ne (by omega), hmerged.frame k (by omega) (by omega),
              h.rest k (by omega)]
          · rw [List.getElem?_set_ne (by omega), hmerged.frame k (by omega) (by omega)]
        · refine Or.inr ⟨⟨.indexError, by rw [hrun]; rfl⟩, fun m gone hseg => ?_⟩
          cases hseg <;> simp_all
      · obtain ⟨hpass, hframe, hnew⟩ := hset []
        have hopens' : opensFn row = false := by simpa using hopens
        rw [if_neg hopens]
        exact Or.inl ⟨i + 1, true, lines.set i [], [], .single hrow₀ hincl' hdelete hopens',
          setLine_eq hlt [], hpass, hframe, hnew, fun _ => rfl, by simp⟩
    · obtain ⟨hpass, hframe, hnew⟩ := hset (replaceList row)
      have hdelete' : deleteSearch row = false := by simpa using hdelete
      rw [fixUpRow_keep hrow hincl' hdelete']
      -- `replace_list` may change the row, but does not empty it
      refine Or.inl ⟨i + 1, false, lines.set i (replaceList row), replaceList row,
        .kept hrow₀ hincl' hdelete', setLine_eq hlt _, hpass, hframe, hnew, by simp, fun _ => ?_⟩
      rw [hrow₀, Option.some.injEq]
      refine ⟨fun hnil => by_contra fun hne => replaceList_ne_nil hne hnil, ?_⟩
      rintro rfl
      exact replaceList_nil

end Segments

/-! ### Init functions -/

/-- A function with the row on which its definition starts. -/
structure DefinedFn extends SourceFn where
  startRow : ℕ

/-- The functions of a file, and the rows of the `__initdata` definitions and of the
registrations in it, from the first to the last. -/
structure SourceRows where
  fns : List DefinedFn
  initData : List (ℕ × ℕ)
  registrations : List (ℕ × ℕ)

namespace SourceRows

variable (src : SourceRows)

/-- Row `k` belongs to a function that the metadata marks as `__init`. -/
def InitRow (k : ℕ) : Prop :=
  ∃ fn ∈ src.fns, fn.init = true ∧ fn.startRow ≤ k ∧ k ≤ fn.rBraceLoc.1

/-- Row `k` may be deleted. -/
def MayGo (k : ℕ) : Prop :=
  src.InitRow k ∨ ∃ d ∈ src.initData ++ src.registrations, d.1 ≤ k ∧ k ≤ d.2

instance (k : ℕ) : Decidable (src.InitRow k) :=
  inferInstanceAs (Decidable (∃ fn ∈ src.fns, _))

instance (k : ℕ) : Decidable (src.MayGo k) := inferInstanceAs (Decidable (_ ∨ _))

end SourceRows

/-- From row `a` up to row `b`, the rows of init functions are deleted, and no row that may
not be. -/
def CleanRows (src : SourceRows) (lines lines' : List Line) (a b : ℕ) : Prop :=
  ∀ k row, a ≤ k → k < b → lines[k]? = some row →
    (src.InitRow k → lines'[k]? = some []) ∧ (row ≠ [] → lines'[k]? = some [] → src.MayGo k)

/-- `fix_up` ends without running past the end of the file, each init function is deleted
as a whole, and every row that is deleted may be. -/
def Extraction.CleansUp (e : Extraction) (src : SourceRows) (lines : List Line) : Prop :=
  ∃ lines', e.fixUp lines = .ok lines' ∧ CleanRows src lines lines' 0 lines.length

/-- From row `i` on, the file is a sequence of rows to keep, in which no init function
stands, and of rows and blocks to delete, in which nothing else stands. -/
inductive Tidy (e : Extraction) (src : SourceRows) (lines : List Line) : ℕ → Prop
  | done {i : ℕ} (hend : lines.length ≤ i) : Tidy e src lines i
  | keep {i m : ℕ} (hseg : Segment e lines i m false)
      (hrows : ∀ k row, i ≤ k → k < m → lines[k]? = some row → src.InitRow k → row = [])
      (hrest : Tidy e src lines m) : Tidy e src lines i
  | delete {i m : ℕ} (hseg : Segment e lines i m true)
      (hrows : ∀ k row, i ≤ k → k < m → lines[k]? = some row → row ≠ [] → src.MayGo k)
      (hrest : Tidy e src lines m) : Tidy e src lines i

section Pass

variable {e : Extraction} {src : SourceRows} {lines lines₀ lines₁ lines' : List Line} {i m n : ℕ}

theorem CleanRows.split {a b c : ℕ} (hab : a ≤ b) (hbc : b ≤ c) :
    CleanRows src lines lines' a c ↔
      CleanRows src lines lines' a b ∧ CleanRows src lines lines' b c := by
  constructor
  · intro h
    exact ⟨fun k row h1 h2 => h k row h1 (h2.trans_le hbc),
      fun k row h1 h2 => h k row (hab.trans h1) h2⟩
  · rintro ⟨hfront, hback⟩ k row h1 h2
    by_cases hk : k < b
    · exact hfront k row h1 hk
    · exact hback k row (not_lt.mp hk) h2

theorem PassAt.step_of_segment (h : PassAt lines₀ lines i m) (hi : i < lines₀.length)
    (hrun : e.fixUpRow lines i = .ok lines₁) :
    ∃ m', m ≤ m' ∧ PassAt lines₀ lines₁ (i + 1) m' ∧ (∀ k, k < i → lines₁[k]? = lines[k]?) ∧
      (i < m → m' = m ∧ lines₁[i]? = some []) := by
  rcases Nat.eq_or_lt_of_le h.le with rfl | hlt
  · rcases fixUpRow_segment h hi with
      ⟨m', gone, lines₂, new, hseg, hrun₂, hpass, hframe, -⟩ | ⟨⟨err, herr⟩, -⟩
    · obtain rfl := Except.ok.inj (hrun.symm.trans hrun₂)
      exact ⟨m', hseg.lt.le, hpass, hframe, fun h => absurd h (lt_irrefl i)⟩
    · rw [herr] at hrun
      cases hrun
  · obtain ⟨lines₂, hrun₂, hpass, hframe⟩ := fixUpRow_blank (e := e) h hlt
    obtain rfl := Except.ok.inj (hrun.symm.trans hrun₂)
    exact ⟨m, le_rfl, hpass, fun k hk => hframe k hk.le, fun _ =>
      ⟨rfl, (hframe i le_rfl).trans (h.blank i le_rfl hlt)⟩⟩

/-- The rest of the loop leaves the rows above alone, and the deleted rows deleted. -/
theorem PassAt.run (h : PassAt lines₀ lines i m) (hn : i + n = lines₀.length)
    (hrun : (List.range' i n).foldlM e.fixUpRow lines = .ok lines') :
    (∀ k, k < i → lines'[k]? = lines[k]?) ∧ ∀ k, i ≤ k → k < m → lines'[k]? = some [] := by
  induction n generalizing i m lines with
  | zero =>
    obtain rfl := Except.ok.inj hrun
    exact ⟨fun k _ => rfl, h.blank⟩
  | succ n ih =>
    rw [List.range'_succ, List.foldlM_cons] at hrun
    obtain ⟨lines₁, hrun₁, hrun⟩ := bind_eq_ok hrun
    obtain ⟨m', hm', hpass, hframe, hblank⟩ := h.step_of_segment (by omega) hrun₁
    obtain ⟨habove, hbelow⟩ := ih hpass (by omega) hrun
    refine ⟨fun k hk => (habove k (by omega)).trans (hframe k hk), fun k h1 h2 => ?_⟩
    rcases Nat.eq_or_lt_of_le h1 with rfl | hlt
    · rw [habove i (Nat.lt_succ_self i)]
      exact (hblank h2).2
    · exact hbelow k hlt (h2.trans_le hm')

/-- The pass is right from row `m` on exactly if the file is tidy there. -/
theorem PassAt.clean_iff (h : PassAt lines₀ lines i m) (hn : i + n = lines₀.length) :
    (∃ lines', (List.range' i n).foldlM e.fixUpRow lines = .ok lines' ∧
      CleanRows src lines₀ lines' m lines₀.length) ↔ Tidy e src lines₀ m := by
  induction n generalizing i m lines with
  | zero =>
    have hend : lines₀.length ≤ m := by
      have hle := h.le
      omega
    exact iff_of_true ⟨lines, rfl, fun k row h1 h2 => by omega⟩ (.done hend)
  | succ n ih =>
    rw [List.range'_succ, List.foldlM_cons]
    rcases Nat.eq_or_lt_of_le h.le with rfl | hlt
    · -- the pass takes in the next segment
      rcases fixUpRow_segment (e := e) h (by omega) with
        ⟨m, gone, lines₁, new, hseg, hrun₁, hpass, -, hnew, hgone, hkept⟩ | ⟨⟨err, herr⟩, hnone⟩
      · rw [hrun₁]
        show (∃ lines', (List.range' (i + 1) n).foldlM e.fixUpRow lines₁ = .ok lines' ∧ _) ↔ _
        have hlen := hpass.le_length
        constructor
        · -- what is right of the whole rest is right of the segment and of the rows below it
          rintro ⟨lines', hrun, hclean⟩
          obtain ⟨hfront, hback⟩ := (CleanRows.split hseg.lt.le hlen).mp hclean
          have htidy := (ih hpass (by omega)).mp ⟨lines', hrun, hback⟩
          obtain ⟨habove, hbelow⟩ := hpass.run (by omega) hrun
          have hrow : lines'[i]? = some new := (habove i (Nat.lt_succ_self i)).trans hnew
          cases gone with
          | false =>
            refine .keep hseg (fun k row h1 h2 hk hinit => ?_) htidy
            have hblank := (hfront k row h1 h2 hk).1 hinit
            obtain rfl : k = i := by
              have hm := hseg.eq_succ
              omega
            rw [hrow] at hblank
            have hnil := (hkept rfl).mp (Option.some.inj hblank)
            exact Option.some.inj (hk.symm.trans hnil)
          | true =>
            refine .delete hseg (fun k row h1 h2 hk hne => (hfront k row h1 h2 hk).2 hne ?_) htidy
            rcases Nat.eq_or_lt_of_le h1 with rfl | hlt
            · rw [hrow, hgone rfl]
            · exact hbelow k hlt h2
        · intro htidy
          cases htidy with
          | done hend => omega
          | keep hseg' hrows hrest =>
            obtain ⟨rfl, rfl⟩ := hseg.unique hseg'
            obtain ⟨lines', hrun, hclean⟩ := (ih hpass (by omega)).mpr hrest
            obtain ⟨habove, -⟩ := hpass.run (by omega) hrun
            have hrow : lines'[i]? = some new := (habove i (Nat.lt_succ_self i)).trans hnew
            refine ⟨lines', hrun, (CleanRows.split hseg.lt.le hlen).mpr
              ⟨fun k row h1 h2 hk => ?_, hclean⟩⟩
            obtain rfl : k = i := by
              have hm := hseg.eq_succ
              omega
            rw [hrow]
            constructor
            · intro hinit
              rw [hrows k row le_rfl h2 hk hinit] at hk
              rw [(hkept rfl).mpr hk]
            · intro hne hblank
              have hnil := (hkept rfl).mp (Option.some.inj hblank)
              exact absurd (Option.some.inj (hk.symm.trans hnil)) hne
          | delete hseg' hrows hrest =>
            obtain ⟨rfl, rfl⟩ := hseg.unique hseg'
            obtain ⟨lines', hrun, hclean⟩ := (ih hpass (by omega)).mpr hrest
            obtain ⟨habove, hbelow⟩ := hpass.run (by omega) hrun
            refine ⟨lines', hrun, (CleanRows.split hseg.lt.le hlen).mpr
              ⟨fun k row h1 h2 hk => ⟨fun _ => ?_, fun hne _ => hrows k row h1 h2 hk hne⟩, hclean⟩⟩
            rcases Nat.eq_or_lt_of_le h1 with rfl | hlt
            · rw [habove i (Nat.lt_succ_self i), hnew, hgone rfl]
            · exact hbelow k hlt h2
      · -- an exception, and no segment to take in
        refine iff_of_false ?_ fun htidy => ?_
        · rw [herr]
          rintro ⟨lines', hrun, -⟩
          cases hrun
        · cases htidy with
          | done hend => omega
          | keep hseg | delete hseg => exact hnone _ _ hseg
    · -- a row of the last segment, deleted already
      obtain ⟨lines₁, hrun₁, hpass, -⟩ := fixUpRow_blank (e := e) h hlt
      rw [hrun₁]
      exact ih hpass (by omega)

end Pass

/-- **The init functions.**  `fix_up` ends, deletes the init functions as a whole and no row
besides that should stay, exactly if the file is tidy from its first row on. -/
theorem cleansUp_iff (e : Extraction) (src : SourceRows) (lines : List Line) :
    e.CleansUp src lines ↔ Tidy e src lines 0 := by
  have hstart : PassAt lines lines 0 0 :=
    ⟨rfl, le_rfl, Nat.zero_le _, fun k _ h => absurd h (Nat.not_lt_zero k), fun k _ => rfl⟩
  exact hstart.clean_iff (Nat.zero_add _)

/-! ### Tidy files -/

section Layout

variable {e : Extraction} {src : SourceRows} {lines : List Line} {i k s : ℕ} {row above : Line}

theorem deleteSearch_of_opensFn (h : opensFn row = true) : deleteSearch row = true := by
  unfold opensFn at h
  unfold deleteSearch
  rw [(Bool.and_eq_true_iff.mp h).1, Bool.or_true, Bool.true_or, Bool.true_or]

theorem ne_nil_of_deleteSearch (h : deleteSearch row = true) : row ≠ [] := by
  rintro rfl
  exact absurd h (by decide)

/-- Every row with one of the patterns is deleted, and so must be one that may be. -/
theorem Tidy.mayGo (h : Tidy e src lines i) (hik : i ≤ k) (hrow : lines[k]? = some row)
    (hincl : isInclude row = false) (hdelete : deleteSearch row = true) : src.MayGo k := by
  induction h with
  | done hend =>
    have hlt := (List.getElem?_eq_some_iff.mp hrow).1
    omega
  | @keep i m hseg hrows hrest ih =>
    rcases Nat.eq_or_lt_of_le hik with rfl | hlt
    · exact absurd ((hseg.gone_iff hrow).mpr ⟨hincl, hdelete⟩) Bool.false_ne_true
    · refine ih ?_
      rw [hseg.eq_succ]
      exact hlt
  | @delete i m hseg hrows hrest ih =>
    by_cases hkm : k < m
    · exact hrows k row hik hkm hrow (ne_nil_of_deleteSearch hdelete)
    · exact ih (not_lt.mp hkm)

/-- An init function stays, if its first row has none of the patterns (as when `__init` ends
the row) and lies below a row that must stay. -/
theorem not_tidy_of_head (hinit : src.InitRow s) (hrow : lines[s]? = some row) (hne : row ≠ [])
    (hdelete : deleteSearch row = false) (his : i ≤ s)
    (habove : i < s → lines[s - 1]? = some above ∧ above ≠ [] ∧ ¬ src.MayGo (s - 1)) :
    ¬ Tidy e src lines i := by
  intro h
  induction h with
  | done hend =>
    have hlt := (List.getElem?_eq_some_iff.mp hrow).1
    omega
  | @keep i m hseg hrows hrest ih =>
    have hm := hseg.eq_succ
    rcases Nat.eq_or_lt_of_le his with rfl | hlt
    · exact hne (hrows i row le_rfl hseg.lt hrow hinit)
    · exact ih (by omega) fun _ => habove hlt
  | @delete i m hseg hrows hrest ih =>
    rcases Nat.eq_or_lt_of_le his with rfl | hlt
    · have hgone := ((hseg.gone_iff hrow).mp rfl).2
      rw [hdelete] at hgone
      exact absurd hgone Bool.false_ne_true
    · -- a block that reaches `s` takes in the row above as well
      obtain ⟨hget, hne', hstay⟩ := habove hlt
      by_cases hsm : s ≤ m
      · exact hstay (hrows (s - 1) above (by omega) (by omega) hget hne')
      · exact ih (by omega) fun _ => habove hlt

/-- A simple layout.  Each init function starts with a row in which `__init` stands with a
blank behind it, and its braces are closed first in the row of its closing brace; other
rows have one of the patterns only if they may be deleted, and do not look like the head
of a function. -/
structure HeadedLayout (e : Extraction) (src : SourceRows) (lines : List Line) : Prop where
  heads : ∀ fn ∈ src.fns, fn.init = true → ∃ row, lines[fn.startRow]? = some row ∧
    isInclude row = false ∧ opensFn row = true
  bodies : ∀ fn ∈ src.fns, fn.init = true → FirstClosed lines fn.startRow fn.rBraceLoc.1
  apart : ∀ f ∈ src.fns, ∀ g ∈ src.fns, f.init = true → g.init = true → f.startRow < g.startRow →
    f.rBraceLoc.1 < g.startRow
  includes : ∀ (k : ℕ) (row : Line), lines[k]? = some row → isInclude row = true → e.HasHeader row
  others : ∀ (k : ℕ) (row : Line), lines[k]? = some row → ¬ src.InitRow k → isInclude row = false →
    deleteSearch row = true → opensFn row = false ∧ src.MayGo k

/-- A file with the simple layout is tidy at every row that is not inside an init
function. -/
theorem HeadedLayout.tidy (h : HeadedLayout e src lines)
    (hi : ∀ fn ∈ src.fns, fn.init = true → fn.startRow < i → fn.rBraceLoc.1 < i) :
    Tidy e src lines i := by
  induction hn : lines.length - i using Nat.strong_induction_on generalizing i with
  | _ n ih =>
    subst hn
    by_cases hend : lines.length ≤ i
    · exact .done hend
    · have hrow : lines[i]? = some lines[i] := List.getElem?_eq_getElem (not_le.mp hend)
      by_cases hstart : ∃ fn ∈ src.fns, fn.init = true ∧ fn.startRow = i
      · -- an init function, whose block ends with its closing brace
        obtain ⟨fn, hfn, hinit, rfl⟩ := hstart
        obtain ⟨row, hget, hincl, hopens⟩ := h.heads fn hfn hinit
        have hclosed := h.bodies fn hfn hinit
        refine .delete (.block hget hincl (deleteSearch_of_opensFn hopens) hopens hclosed)
          (fun k row h1 h2 _ _ => Or.inl ⟨fn, hfn, hinit, h1, Nat.le_of_lt_succ h2⟩)
          (ih _ ?_ (fun g hg hginit hlt => ?_) rfl)
        · have hle := hclosed.le
          have hlt := hclosed.lt
          omega
        · rcases lt_trichotomy fn.startRow g.startRow with hbelow | heq | habove
          · have := h.apart fn hfn g hg hinit hginit hbelow
            omega
          · have hsame := (heq ▸ h.bodies g hg hginit).unique hclosed
            omega
          · have hle := hclosed.le
            have := h.apart g hg fn hfn hginit hinit habove
            omega
      · -- a row outside the init functions, taken in alone
        have hno : ¬ src.InitRow i := by
          rintro ⟨fn, hfn, hinit, h1, h2⟩
          rcases Nat.eq_or_lt_of_le h1 with heq | hlt
          · exact hstart ⟨fn, hfn, hinit, heq⟩
          · exact absurd (hi fn hfn hinit hlt) (not_lt.mpr h2)
        have hnext : Tidy e src lines (i + 1) := by
          refine ih _ (by omega) (fun fn hfn hinit hlt => ?_) rfl
          have hne : fn.startRow ≠ i := fun heq => hstart ⟨fn, hfn, hinit, heq⟩
          have := hi fn hfn hinit (by omega)
          omega
        have honly : ∀ k row, i ≤ k → k < i + 1 → lines[k]? = some row → src.InitRow k →
            row = [] := by
          intro k row h1 h2 _ hk
          obtain rfl : k = i := by omega
          exact absurd hk hno
        by_cases hincl : isInclude lines[i] = true
        · exact .keep (.header hrow hincl (h.includes i _ hrow hincl)) honly hnext
        · have hincl' : isInclude lines[i] = false := by simpa using hincl
          by_cases hdelete : deleteSearch lines[i] = true
          · obtain ⟨hopens, hgo⟩ := h.others i _ hrow hno hincl' hdelete
            refine .delete (.single hrow hincl' hdelete hopens) (fun k row h1 h2 _ _ => ?_) hnext
            obtain rfl : k = i := by omega
            exact hgo
          · exact .keep (.kept hrow hincl' (by simpa using hdelete)) honly hnext

end Layout

/-! ### One init function -/

/-- An init function with `__init` at the end of its first row. -/
def setupFile : List Line :=
  ["static int __init\n".toList, "setup_level(char *str)\n".toList, "\x7b\n".toList,
    "\treturn 1;\n".toList, "\x7d\n".toList]

def setupRows : SourceRows where
  fns :=
    [ { plainFn "setup_level" "kernel/sched/core.c" with
        init := true
        lBraceLoc := (2, 0)
        rBraceLoc := (4, 0)
        nameLoc := (1, 0)
        declStr := none
        startRow := 0 } ]
  initData := []
  registrations := []

/-- It is left as it is. -/
theorem split_head_kept :
    (linuxExtraction "kernel/sched/core.c").fixUp setupFile = .ok setupFile ∧
      ¬ (linuxExtraction "kernel/sched/core.c").CleansUp setupRows setupFile := by
  have hrun : (linuxExtraction "kernel/sched/core.c").fixUp setupFile = .ok setupFile := by rfl
  refine ⟨hrun, ?_⟩
  rintro ⟨lines', hrun', hclean⟩
  obtain rfl := Except.ok.inj (hrun.symm.trans hrun')
  have hgone := (hclean 0 _ le_rfl (by decide) rfl).1 (by decide)
  cases hgone

end Plugsched
