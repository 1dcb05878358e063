/-
`function_extract` over `fn_list`: the bodies of the functions that stay in the
kernel are cut away.

The signature of a function is joined upwards into one row, over rows that
earlier functions have left blank, and the rows of the body are blanked.  What
keeps two functions apart is the closing brace of the upper one, or, when that
one was cut first, the semicolon in its place.

* `Cutting` — the invariant of the loop: the text up to the opening row of every
  function still to come is right, and these functions are untouched;
* `extractOutsiders_text` — the text that the loop leaves, in whatever order.
-/
import Plugsched.Extract

open ExceptRules TextLines

namespace Plugsched

/-! ### The text without the bodies -/

/-- The body of the function, from its opening to its closing brace; what follows the
closing brace in its row is white space. -/
structure HasBody (lines : List Line) (fn : SourceFn) : Prop where
  opening : ∃ row, lines[fn.lBraceLoc.1]? = some row ∧ row[fn.lBraceLoc.2]? = some '{'
  closing : ∃ row, lines[fn.rBraceLoc.1]? = some row ∧ row[fn.rBraceLoc.2]? = some '}' ∧
    ∀ c ∈ row.drop (fn.rBraceLoc.2 + 1), isSpace c = true
  rows_le : fn.lBraceLoc.1 ≤ fn.rBraceLoc.1
  cols_lt : fn.lBraceLoc.1 = fn.rBraceLoc.1 → fn.lBraceLoc.2 < fn.rBraceLoc.2

/-- The rows of the bodies are disjoint. -/
def SourceFn.Apart (f g : SourceFn) : Prop :=
  f.rBraceLoc.1 < g.lBraceLoc.1 ∨ g.rBraceLoc.1 < f.lBraceLoc.1

/-- Row `i` of the text in which the body of `fn` is replaced by a semicolon. -/
def SourceFn.cutRow (fn : SourceFn) (i : ℕ) (line : Line) : Line :=
  (if i = fn.lBraceLoc.1 then line.take fn.lBraceLoc.2 ++ ";".toList else []) ++
    if i = fn.rBraceLoc.1 then line.drop (fn.rBraceLoc.2 + 1) else []

/-- Row `i` of the text in which each of the bodies is replaced by a semicolon. -/
def cutRow (fns : List SourceFn) (i : ℕ) (line : Line) : Line :=
  match fns.find? fun fn => fn.lBraceLoc.1 ≤ i ∧ i ≤ fn.rBraceLoc.1 with
  | some fn => fn.cutRow i line
  | none => line

/-- The text in which each of the bodies is replaced by a semicolon. -/
def bodiesCut (fns : List SourceFn) (lines : List Line) : List Line :=
  lines.mapIdx (cutRow fns)

section Cut

variable {fns done : List SourceFn} {fn : SourceFn} {lines : List Line} {i : ℕ}

theorem getElem?_bodiesCut : (bodiesCut fns lines)[i]? = lines[i]?.map (cutRow fns i) :=
  List.getElem?_mapIdx

theorem cutRow_cons_of_mem (h : fn.lBraceLoc.1 ≤ i ∧ i ≤ fn.rBraceLoc.1) :
    cutRow (fn :: done) i = fn.cutRow i := by
  funext line
  rw [cutRow, List.find?_cons_of_pos (by simpa using h)]

theorem cutRow_cons_of_notMem (h : ¬ (fn.lBraceLoc.1 ≤ i ∧ i ≤ fn.rBraceLoc.1)) :
    cutRow (fn :: done) i = cutRow done i := by
  funext line
  rw [cutRow, List.find?_cons_of_neg (by simpa using h), cutRow]

theorem cutRow_eq_self (h : ∀ g ∈ done, ¬ (g.lBraceLoc.1 ≤ i ∧ i ≤ g.rBraceLoc.1)) (line : Line) :
    cutRow done i line = line := by
  have hnone : (done.find? fun g => g.lBraceLoc.1 ≤ i ∧ i ≤ g.rBraceLoc.1) = none :=
    List.find?_eq_none.mpr fun g hg => by simpa using h g hg
  rw [cutRow, hnone]

theorem bodiesCut_nil (lines : List Line) : bodiesCut [] lines = lines := by
  refine List.ext_getElem? fun i => ?_
  rw [getElem?_bodiesCut]
  exact Option.map_id_apply

theorem length_bodiesCut : (bodiesCut fns lines).length = lines.length := List.length_mapIdx

/-- Of functions that are apart one at most has a row in its body. -/
theorem cutRow_of_mem (hapart : fns.Pairwise SourceFn.Apart) (hfn : fn ∈ fns)
    (h : fn.lBraceLoc.1 ≤ i ∧ i ≤ fn.rBraceLoc.1) : cutRow fns i = fn.cutRow i := by
  induction fns with
  | nil => cases hfn
  | cons g fns ih =>
    obtain ⟨hg, hfns⟩ := List.pairwise_cons.mp hapart
    rcases List.mem_cons.mp hfn with rfl | hfn
    · exact cutRow_cons_of_mem h
    · have hno : ¬ (g.lBraceLoc.1 ≤ i ∧ i ≤ g.rBraceLoc.1) := by
        intro hin
        rcases hg fn hfn with hlt | hlt
        · omega
        · omega
      rw [cutRow_cons_of_notMem hno, ih hfns hfn]

/-- The order of the functions does not matter. -/
theorem bodiesCut_perm {fns' : List SourceFn} (hperm : fns'.Perm fns)
    (hapart : fns.Pairwise SourceFn.Apart) (lines : List Line) :
    bodiesCut fns' lines = bodiesCut fns lines := by
  have hsymm : ∀ f g : SourceFn, f.Apart g → g.Apart f := fun f g h => h.symm
  have hapart' : fns'.Pairwise SourceFn.Apart := hperm.symm.pairwise hapart (hsymm _ _)
  refine List.ext_getElem? fun i => ?_
  rw [getElem?_bodiesCut, getElem?_bodiesCut]
  congr 1
  by_cases hin : ∃ fn ∈ fns, fn.lBraceLoc.1 ≤ i ∧ i ≤ fn.rBraceLoc.1
  · obtain ⟨fn, hfn, h⟩ := hin
    rw [cutRow_of_mem hapart hfn h, cutRow_of_mem hapart' (hperm.mem_iff.mpr hfn) h]
  · push Not at hin
    funext line
    rw [cutRow_eq_self fun g hg hrow => absurd hrow.2 (not_le.mpr (hin g hg hrow.1)),
      cutRow_eq_self fun g hg hrow =>
        absurd hrow.2 (not_le.mpr (hin g (hperm.mem_iff.mp hg) hrow.1))]

/-- The text of the rows of one body. -/
theorem squeezeLines_rows_cut (hbody : HasBody lines fn) {line : Line}
    (hline : lines[fn.lBraceLoc.1]? = some line) :
    squeezeLines (rows (bodiesCut (fn :: done) lines) fn.lBraceLoc.1 (fn.rBraceLoc.1 + 1)) =
      squeeze (line.take fn.lBraceLoc.2 ++ ";".toList) := by
  obtain ⟨last, hlast, -, hspace⟩ := hbody.closing
  have hle := hbody.rows_le
  have htail : squeeze (last.drop (fn.rBraceLoc.2 + 1)) = [] := squeeze_eq_nil_iff.mpr hspace
  have hfirst : (bodiesCut (fn :: done) lines)[fn.lBraceLoc.1]? =
      some (fn.cutRow fn.lBraceLoc.1 line) := by
    rw [getElem?_bodiesCut, hline, cutRow_cons_of_mem ⟨le_rfl, hle⟩]
    rfl
  -- the rows below the opening one are empty, but for what follows the closing brace
  have hrest : squeezeLines (rows (bodiesCut (fn :: done) lines) (fn.lBraceLoc.1 + 1)
      (fn.rBraceLoc.1 + 1)) = [] := by
    refine squeezeLines_eq_nil fun row hrow => ?_
    obtain ⟨k, hk⟩ := List.mem_iff_getElem?.mp hrow
    rw [getElem?_rows] at hk
    split at hk
    · next hlt =>
      rw [getElem?_bodiesCut, cutRow_cons_of_mem ⟨by omega, by omega⟩] at hk
      obtain ⟨old, hold, rfl⟩ := Option.map_eq_some_iff.mp hk
      rw [SourceFn.cutRow, if_neg (by omega), List.nil_append]
      split
      · next heq =>
        rw [heq, hlast] at hold
        cases hold
        exact htail
      · rfl
    · cases hk
  rw [rows_append _ (Nat.le_succ fn.lBraceLoc.1) (by omega : fn.lBraceLoc.1 + 1 ≤ _),
    squeezeLines_append, hrest, List.append_nil, rows_succ hfirst, squeezeLines_cons,
    squeezeLines_nil, List.append_nil, SourceFn.cutRow, if_pos rfl, squeeze_append]
  split
  · next heq =>
    rw [heq, hlast] at hline
    cases hline
    rw [htail, List.append_nil]
  · rw [squeeze_nil, List.append_nil]

end Cut

/-! ### The loop -/

/-- The state of the loop over `fn_list`, where `done` are cut and `todo` are not. -/
structure Cutting (lines₀ : List Line) (todo done : List SourceFn) (lines : List Line) : Prop where
  length : lines.length = lines₀.length
  untouched : ∀ fn ∈ todo, ∀ i, fn.lBraceLoc.1 ≤ i → i ≤ fn.rBraceLoc.1 → lines[i]? = lines₀[i]?
  upTo : ∀ fn ∈ todo, squeezeLines (rows lines 0 fn.lBraceLoc.1) =
    squeezeLines (rows (bodiesCut done lines₀) 0 fn.lBraceLoc.1)
  whole : squeezeLines (rows lines 0 lines₀.length) =
    squeezeLines (rows (bodiesCut done lines₀) 0 lines₀.length)

section Loop

variable {lines₀ lines lines' : List Line} {todo done : List SourceFn} {fn : SourceFn} {line : Line}
  {j : ℕ}

/-- The text up to a place below the body stays right. -/
theorem BodyCut.text_below (hcut : BodyCut lines fn line lines' j) (hbody : HasBody lines₀ fn)
    (hline : lines₀[fn.lBraceLoc.1]? = some line) (hdone : ∀ g ∈ done, fn.Apart g)
    (huntouched : ∀ i, fn.lBraceLoc.1 ≤ i → i ≤ fn.rBraceLoc.1 → lines[i]? = lines₀[i]?)
    (hstart : squeezeLines (rows lines 0 fn.lBraceLoc.1) =
      squeezeLines (rows (bodiesCut done lines₀) 0 fn.lBraceLoc.1))
    {c : ℕ} (hc : fn.rBraceLoc.1 < c) (htext : squeezeLines (rows lines 0 c) =
      squeezeLines (rows (bodiesCut done lines₀) 0 c)) :
    squeezeLines (rows lines' 0 c) = squeezeLines (rows (bodiesCut (fn :: done) lines₀) 0 c) := by
  have hle := hbody.rows_le
  have hsplit : ∀ L : List Line,
      squeezeLines (rows L 0 c) = squeezeLines (rows L 0 fn.lBraceLoc.1) ++
      (squeezeLines (rows L fn.lBraceLoc.1 (fn.rBraceLoc.1 + 1)) ++
        squeezeLines (rows L (fn.rBraceLoc.1 + 1) c)) := by
    intro L
    rw [rows_append L (Nat.zero_le fn.lBraceLoc.1) (by omega : fn.lBraceLoc.1 ≤ c),
      rows_append L (by omega : fn.lBraceLoc.1 ≤ fn.rBraceLoc.1 + 1) (by omega : _ ≤ c),
      squeezeLines_append, squeezeLines_append]
  have hmid : rows lines fn.lBraceLoc.1 (fn.rBraceLoc.1 + 1) =
      rows (bodiesCut done lines₀) fn.lBraceLoc.1 (fn.rBraceLoc.1 + 1) := by
    refine rows_congr _ _ fun i h1 h2 => ?_
    have hself : cutRow done i = id := by
      funext row
      refine cutRow_eq_self (fun g hg hin => ?_) row
      rcases hdone g hg with hlt | hlt
      · omega
      · omega
    rw [huntouched i h1 (by omega), getElem?_bodiesCut, hself, Option.map_id_apply]
  have hother : ∀ i, i < fn.lBraceLoc.1 ∨ fn.rBraceLoc.1 < i →
      (bodiesCut (fn :: done) lines₀)[i]? = (bodiesCut done lines₀)[i]? := by
    intro i hi
    rw [getElem?_bodiesCut, getElem?_bodiesCut, cutRow_cons_of_notMem (by omega)]
  -- the rows below the body hold the right text, and stay as they are
  have hrest : squeezeLines (rows lines (fn.rBraceLoc.1 + 1) c) =
      squeezeLines (rows (bodiesCut done lines₀) (fn.rBraceLoc.1 + 1) c) := by
    have heq := htext
    rw [hsplit lines, hsplit (bodiesCut done lines₀), hstart, hmid] at heq
    exact List.append_cancel_left (List.append_cancel_left heq)
  have hkept : rows lines' (fn.rBraceLoc.1 + 1) c = rows lines (fn.rBraceLoc.1 + 1) c :=
    rows_congr _ _ fun i h1 _ => hcut.frame i (by omega)
  rw [hsplit (bodiesCut (fn :: done) lines₀), squeezeLines_rows_cut hbody hline,
    rows_append lines' (Nat.zero_le (fn.rBraceLoc.1 + 1)) (by omega : _ ≤ c), squeezeLines_append,
    hcut.text, hkept, hrest, hstart, List.append_assoc,
    rows_congr _ (bodiesCut done lines₀) (b := fn.lBraceLoc.1) fun i _ hi => hother i (by omega),
    rows_congr _ (bodiesCut done lines₀) (b := c) fun i hi _ => hother i (by omega)]

/-- Cutting one body keeps the invariant. -/
theorem Cutting.step {outsiderOpt : Finset Signature} (h : Cutting lines₀ (fn :: todo) done lines)
    (hopt : fn.signature ∉ outsiderOpt) (hbody : ∀ g ∈ fn :: todo, HasBody lines₀ g)
    (htodo : ∀ g ∈ todo, fn.Apart g) (hdone : ∀ g ∈ done, fn.Apart g) :
    ∃ lines', extractOutsider outsiderOpt lines fn = .ok lines' ∧
      Cutting lines₀ todo (fn :: done) lines' := by
  obtain ⟨hfn, hrest⟩ := List.forall_mem_cons.mp hbody
  obtain ⟨line, hline, -⟩ := hfn.opening
  obtain ⟨last, hlast, -⟩ := hfn.closing
  have hlen := (List.getElem?_eq_some_iff.mp hlast).1
  have huntouched := h.untouched fn List.mem_cons_self
  have hstart := h.upTo fn List.mem_cons_self
  obtain ⟨lines', j, hrun, hcut⟩ := exists_extractOutsider hopt
    ((huntouched _ le_rfl hfn.rows_le).trans hline) hfn.rows_le (by rw [h.length]; exact hlen)
  have hbelow := fun {c : ℕ} => hcut.text_below (c := c) hfn hline hdone huntouched hstart
  have habove : ∀ g ∈ todo, g.rBraceLoc.1 < fn.lBraceLoc.1 → g.rBraceLoc.1 < j := by
    -- the closing brace of `g` has stopped the joining
    intro g hg hlt
    obtain ⟨row, hrow, hbrace, -⟩ := (hrest g hg).closing
    have hsame := h.untouched g (List.mem_cons_of_mem fn hg) _ (hrest g hg).rows_le le_rfl
    exact hcut.lt_of_closing hlt (hsame.trans hrow) (List.mem_of_getElem? hbrace)
  refine ⟨lines', hrun, ⟨by rw [hcut.length, h.length], fun g hg i h1 h2 => ?_, fun g hg => ?_, ?_⟩⟩
  · have hle := (hrest g hg).rows_le
    rw [hcut.frame i, h.untouched g (List.mem_cons_of_mem fn hg) i h1 h2]
    rcases htodo g hg with hlt | hlt
    · right
      omega
    · have := habove g hg hlt
      left
      omega
  · -- the text up to the next functions: below this one it is cut, above it is as before
    have hle := (hrest g hg).rows_le
    have hg' := h.upTo g (List.mem_cons_of_mem fn hg)
    rcases htodo g hg with hlt | hlt
    · exact hbelow hlt hg'
    · have hj := habove g hg hlt
      rw [rows_congr lines' lines fun i _ hi => hcut.frame i (by omega), hg',
        rows_congr (bodiesCut (fn :: done) lines₀) (bodiesCut done lines₀)
          fun i _ hi => by
            rw [getElem?_bodiesCut, getElem?_bodiesCut, cutRow_cons_of_notMem (by omega)]]
  · exact hbelow hlen h.whole

theorem Cutting.run {outsiderOpt : Finset Signature} (h : Cutting lines₀ todo done lines)
    (hopt : ∀ fn ∈ todo, fn.signature ∉ outsiderOpt) (hbody : ∀ fn ∈ todo, HasBody lines₀ fn)
    (hapart : todo.Pairwise SourceFn.Apart) (hdone : ∀ fn ∈ todo, ∀ g ∈ done, fn.Apart g) :
    ∃ lines', todo.foldlM (extractOutsider outsiderOpt) lines = .ok lines' ∧
      Cutting lines₀ [] (todo.reverse ++ done) lines' := by
  induction todo generalizing done lines with
  | nil => exact ⟨lines, rfl, h⟩
  | cons fn todo ih =>
    obtain ⟨hfn, htodo⟩ := List.pairwise_cons.mp hapart
    obtain ⟨hopt₁, hopt₂⟩ := List.forall_mem_cons.mp hopt
    obtain ⟨hdone₁, hdone₂⟩ := List.forall_mem_cons.mp hdone
    obtain ⟨lines₁, hrun₁, h₁⟩ := h.step hopt₁ hbody hfn hdone₁
    obtain ⟨lines', hrun, h'⟩ := ih h₁ hopt₂ (List.forall_mem_cons.mp hbody).2 htodo
      fun g hg => List.forall_mem_cons.mpr ⟨(hfn g hg).symm, hdone₂ g hg⟩
    refine ⟨lines', ?_, ?_⟩
    · rw [List.foldlM_cons, hrun₁]
      exact hrun
    · rwa [List.reverse_cons, List.append_assoc]

end Loop

/-- **The text that is left.**  For functions with disjoint bodies, in whatever order
they are listed, no row index goes out of range, and the text is the original one with
each body replaced by a semicolon, white space apart. -/
theorem extractOutsiders_text (outsiderOpt : Finset Signature) (lines : List Line)
    (fnList : List SourceFn) (hopt : ∀ fn ∈ fnList, fn.signature ∉ outsiderOpt)
    (hbody : ∀ fn ∈ fnList, HasBody lines fn) (hapart : fnList.Pairwise SourceFn.Apart) :
    ∀ order : List SourceFn, order.Perm fnList →
      ∃ lines', order.foldlM (extractOutsider outsiderOpt) lines = .ok lines' ∧
        squeezeLines lines' = squeezeLines (bodiesCut fnList lines) := by
  intro order hperm
  have hsymm : ∀ f g : SourceFn, f.Apart g → g.Apart f := fun f g h => h.symm
  have hstart : Cutting lines order [] lines := by
    refine ⟨rfl, fun fn _ i _ _ => rfl, fun fn _ => ?_, ?_⟩
    · rw [bodiesCut_nil]
    · rw [bodiesCut_nil]
  obtain ⟨lines', hrun, h⟩ := hstart.run (fun fn hfn => hopt fn (hperm.mem_iff.mp hfn))
    (fun fn hfn => hbody fn (hperm.mem_iff.mp hfn)) (hperm.symm.pairwise hapart (hsymm _ _))
    fun fn _ g hg => by cases hg
  refine ⟨lines', hrun, ?_⟩
  have htext := h.whole
  rw [List.append_nil, bodiesCut_perm ((List.reverse_perm order).trans hperm) hapart, rows_zero,
    rows_zero] at htext
  rwa [List.take_of_length_le h.length.le, List.take_of_length_le length_bodiesCut.le] at htext

/-! ### Two functions -/

/-- A function on several rows, with its name on a row of its own, and one on a single row. -/
def twoBodies : List Line :=
  ["static int\n".toList, "foo(int a)\n".toList, "\x7b\n".toList, "\treturn a;\n".toList,
    "\x7d\n".toList,
    "int bar(void) \x7b return 1; \x7d\n".toList]

/-- A public function of `core.c`. -/
def coreFn (name : String) (nameLoc lBraceLoc rBraceLoc : ℕ × ℕ) : SourceFn :=
  { plainFn name "core.c" with
    lBraceLoc := lBraceLoc
    rBraceLoc := rBraceLoc
    nameLoc := nameLoc
    declStr := none }

def fooFn : SourceFn := coreFn "foo" (1, 0) (2, 0) (4, 0)

def barFn : SourceFn := coreFn "bar" (5, 4) (5, 14) (5, 26)

/-- The lower function may come first. -/
theorem extractOutsiders_text_two :
    ∃ lines', [barFn, fooFn].foldlM (extractOutsider ∅) twoBodies = .ok lines' ∧
      squeezeLines lines' = "staticintfoo(inta);intbar(void);".toList := by
  have hfoo : HasBody twoBodies fooFn :=
    ⟨⟨_, rfl, rfl⟩, ⟨_, rfl, rfl, List.all_eq_true.mp rfl⟩, by decide, by decide⟩
  have hbar : HasBody twoBodies barFn :=
    ⟨⟨_, rfl, rfl⟩, ⟨_, rfl, rfl, List.all_eq_true.mp rfl⟩, by decide, by decide⟩
  obtain ⟨lines', hrun, htext⟩ := extractOutsiders_text ∅ twoBodies [fooFn, barFn]
    (fun fn _ => Finset.notMem_empty _)
    (List.forall_mem_cons.mpr ⟨hfoo, List.forall_mem_cons.mpr ⟨hbar, by simp⟩⟩)
    (List.pairwise_pair.mpr (by decide : (4 : ℕ) < 5 ∨ (5 : ℕ) < 2))
    [barFn, fooFn] (List.Perm.swap fooFn barFn [])
  refine ⟨lines', hrun, htext.trans ?_⟩
  decide

end Plugsched
