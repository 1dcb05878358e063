/-
`function_extract` over the callbacks, interfaces and sidecars: their names get
`__used`, a callback also the prefix `__cb_`.

The name is replaced in its whole row, wherever it stands in it.

* `exists_outsiders` — cutting the other functions leaves the rows of these alone;
* `exists_border` — what the two loops make of each row;
* `renamesOnly_iff` — when only the declared name is changed.
-/
import Plugsched.Extract

open ExceptRules TextLines

namespace Plugsched

/-! ### Edits -/

/-- A function of the border, with the loop that it belongs to. -/
structure BorderFn where
  isCallback : Bool
  fn : SourceFn

/-- The functions of the last two loops, in their order. -/
def FnLists.border (located : FnLists) : List BorderFn :=
  located.callbackList.map (⟨true, ·⟩) ++
    (located.interfaceList ++ located.sidecarList).map (⟨false, ·⟩)

namespace BorderFn

variable (interfacePrefix : List String) (b : BorderFn)

/-- The functions that the interface loop skips. -/
def skipped : Bool := !b.isCallback && interfacePrefix.any (startsWith b.fn.name)

/-- `used_name`, if the function is renamed. -/
def usedName : Option Line :=
  if b.isCallback then some ("__used ".toList ++ ("__cb_".toList ++ b.fn.name.toList))
  else if b.skipped interfacePrefix || b.fn.isPublic then none
  else some ("__used ".toList ++ b.fn.name.toList)

/-- What is written below the closing brace. -/
def added : Line :=
  if b.isCallback then
    b.fn.declStr.elim [] fun d =>
      "\n".toList ++ cbWarn ("__cb_".toList ++ b.fn.name.toList) ++ declFmt d
  else if b.skipped interfacePrefix then []
  else ifWarn b.fn.name

/-- The row of the name after the renaming. -/
def change (row : Line) : Line :=
  (b.usedName interfacePrefix).elim row fun used => replaceAll b.fn.name.toList used row

/-- Row `i` after the loop body. -/
def editRow (i : ℕ) (row : Line) : Line :=
  (if i = b.fn.nameLoc.1 then b.change interfacePrefix row else row) ++
    if i = b.fn.rBraceLoc.1 then b.added interfacePrefix else []

/-- The body of the loop that the function belongs to. -/
def extract (lines : List Line) : Except ExtractFailure (List Line) :=
  if b.isCallback then extractCallback lines b.fn else extractInterface interfacePrefix lines b.fn

/-- The rows of the function. -/
def Owns (i : ℕ) : Prop := b.fn.nameLoc.1 ≤ i ∧ i ≤ b.fn.rBraceLoc.1

instance (i : ℕ) : Decidable (b.Owns i) := inferInstanceAs (Decidable (_ ∧ _))

/-- The rows of the functions are disjoint. -/
def Apart (c : BorderFn) : Prop :=
  b.fn.rBraceLoc.1 < c.fn.nameLoc.1 ∨ c.fn.rBraceLoc.1 < b.fn.nameLoc.1

variable {b} in
theorem Apart.not_owns {c : BorderFn} {i : ℕ} (h : b.Apart c) (hb : b.Owns i) : ¬ c.Owns i := by
  intro hc
  have h1 := hb.1
  have h2 := hb.2
  have h3 := hc.1
  have h4 := hc.2
  rcases h with hlt | hlt
  · omega
  · omega

/-- The function lies in the file, and has a declaration if it is a callback. -/
structure InFile (lines : List Line) : Prop where
  rows_le : b.fn.nameLoc.1 ≤ b.fn.rBraceLoc.1
  rows_lt : b.fn.rBraceLoc.1 < lines.length
  declared : b.isCallback = true → b.fn.declStr.isSome = true

end BorderFn

theorem functionExtract_eq (outsiderOpt : Finset Signature) (interfacePrefix : List String)
    (located : FnLists) (lines : List Line) :
    functionExtract outsiderOpt interfacePrefix located lines =
      located.fnList.foldlM (extractOutsider outsiderOpt) lines >>= fun lines =>
        located.border.foldlM (fun lines b => b.extract interfacePrefix lines) lines := by
  rw [functionExtract]
  refine bind_congr fun lines => ?_
  rw [FnLists.border, List.foldlM_append, List.foldlM_map]
  refine bind_congr fun lines => ?_
  rw [List.foldlM_map]
  rfl

/-! ### One function -/

section One

variable {interfacePrefix : List String} {b : BorderFn} {lines : List Line}

/-- What the loop body makes of the file. -/
theorem extract_eq (interfacePrefix : List String) (h : b.InFile lines) :
    b.extract interfacePrefix lines =
    .ok ((lines.modify b.fn.nameLoc.1 (b.change interfacePrefix)).modify b.fn.rBraceLoc.1
      (· ++ b.added interfacePrefix)) := by
  have hname : b.fn.nameLoc.1 < lines.length := by
    have h1 := h.rows_le
    have h2 := h.rows_lt
    omega
  have hend : ∀ f : Line → Line, b.fn.rBraceLoc.1 < (lines.modify b.fn.nameLoc.1 f).length := by
    intro f
    rw [List.length_modify]
    exact h.rows_lt
  rw [BorderFn.extract]
  split
  · next hcb =>
    obtain ⟨d, hd⟩ := Option.isSome_iff_exists.mp (h.declared hcb)
    have hchange : b.change interfacePrefix =
        replaceAll b.fn.name.toList ("__used ".toList ++ ("__cb_".toList ++ b.fn.name.toList)) := by
      funext row
      rw [BorderFn.change, BorderFn.usedName, if_pos hcb]
      rfl
    have hadded : b.added interfacePrefix =
        "\n".toList ++ cbWarn ("__cb_".toList ++ b.fn.name.toList) ++ declFmt d := by
      rw [BorderFn.added, if_pos hcb, hd]
      rfl
    rw [extractCallback, replaceLine_eq hname, hd, hchange, hadded]
    exact appendLine_eq (hend _) _
  · next hcb =>
    rw [extractInterface]
    split
    · next hskip =>
      -- a skipped function is left as it is
      have hskipped : b.skipped interfacePrefix = true := by simp [BorderFn.skipped, hcb, hskip]
      have hchange : b.change interfacePrefix = id := by
        funext row
        rw [BorderFn.change, BorderFn.usedName, if_neg hcb, hskipped]
        rfl
      have hadded : b.added interfacePrefix = [] := by
        rw [BorderFn.added, if_neg hcb, if_pos hskipped]
      rw [hchange, hadded, List.modify_id]
      simp only [List.append_nil]
      exact congrArg Except.ok (List.modify_id _ _).symm
    · next hskip =>
      have hskipped : b.skipped interfacePrefix = false := by simp [BorderFn.skipped, hskip]
      have hadded : b.added interfacePrefix = ifWarn b.fn.name := by
        rw [BorderFn.added, if_neg hcb, hskipped]
        rfl
      rw [hadded]
      split
      · next hpub =>
        have hchange : b.change interfacePrefix = id := by
          funext row
          rw [BorderFn.change, BorderFn.usedName, if_neg hcb, hskipped, hpub]
          rfl
        rw [hchange, List.modify_id]
        exact appendLine_eq h.rows_lt _
      · next hstatic =>
        have hchange : b.change interfacePrefix =
            replaceAll b.fn.name.toList ("__used ".toList ++ b.fn.name.toList) := by
          funext row
          rw [BorderFn.change, BorderFn.usedName, if_neg hcb, hskipped,
            if_neg (by simpa using hstatic)]
          rfl
        rw [replaceLine_eq hname, hchange]
        exact appendLine_eq (hend _) _

/-- The rows after the loop body. -/
theorem getElem?_edit (interfacePrefix : List String) (b : BorderFn) (lines : List Line) (i : ℕ) :
    ((lines.modify b.fn.nameLoc.1 (b.change interfacePrefix)).modify b.fn.rBraceLoc.1
      (· ++ b.added interfacePrefix))[i]? = lines[i]?.map (b.editRow interfacePrefix i) := by
  rw [List.getElem?_modify, List.getElem?_modify]
  cases lines[i]? with
  | none => rfl
  | some row =>
    show some _ = some _
    congr 1
    rw [BorderFn.editRow]
    by_cases hname : b.fn.nameLoc.1 = i
    · by_cases hend : b.fn.rBraceLoc.1 = i
      · simp [hname, hend]
      · simp [hname, hend, Ne.symm hend]
    · by_cases hend : b.fn.rBraceLoc.1 = i
      · simp [hname, hend, Ne.symm hname]
      · simp [hname, hend, Ne.symm hname, Ne.symm hend]

theorem editRow_of_not_owns {i : ℕ} (h : ¬ b.Owns i) (hrows : b.fn.nameLoc.1 ≤ b.fn.rBraceLoc.1)
    (row : Line) : b.editRow interfacePrefix i row = row := by
  have h1 : i ≠ b.fn.nameLoc.1 := fun heq => h ⟨heq.ge, by omega⟩
  have h2 : i ≠ b.fn.rBraceLoc.1 := fun heq => h ⟨by omega, heq.le⟩
  rw [BorderFn.editRow, if_neg h1, if_neg h2, List.append_nil]

end One

/-! ### The loops -/

section Loops

variable {interfacePrefix : List String} {border : List BorderFn} {lines : List Line}

/-- Each function edits its own rows, once. -/
theorem exists_border (interfacePrefix : List String) (hfile : ∀ b ∈ border, b.InFile lines)
    (hapart : border.Pairwise BorderFn.Apart) :
    ∃ lines', border.foldlM (fun lines b => b.extract interfacePrefix lines) lines = .ok lines' ∧
      (∀ b ∈ border, ∀ i, b.Owns i → lines'[i]? = lines[i]?.map (b.editRow interfacePrefix i)) ∧
      ∀ i, (∀ b ∈ border, ¬ b.Owns i) → lines'[i]? = lines[i]? := by
  induction border generalizing lines with
  | nil => exact ⟨lines, rfl, by simp, fun i _ => rfl⟩
  | cons c border ih =>
    obtain ⟨hc, hborder⟩ := List.forall_mem_cons.mp hfile
    obtain ⟨hfirst, hrest⟩ := List.pairwise_cons.mp hapart
    have hedit := getElem?_edit interfacePrefix c lines
    have hrun₁ := extract_eq interfacePrefix hc
    have hlen : ((lines.modify c.fn.nameLoc.1 (c.change interfacePrefix)).modify c.fn.rBraceLoc.1
        (· ++ c.added interfacePrefix)).length = lines.length := by
      rw [List.length_modify, List.length_modify]
    generalize (lines.modify c.fn.nameLoc.1 (c.change interfacePrefix)).modify c.fn.rBraceLoc.1
      (· ++ c.added interfacePrefix) = lines₁ at hedit hrun₁ hlen
    obtain ⟨lines', hrun, howned, hother⟩ := @ih lines₁
      (fun b hb => ⟨(hborder b hb).rows_le, hlen.symm ▸ (hborder b hb).rows_lt,
        (hborder b hb).declared⟩) hrest
    refine ⟨lines', ?_, List.forall_mem_cons.mpr ⟨fun i hi => ?_, fun b hb i hi => ?_⟩,
      fun i hi => ?_⟩
    · rw [List.foldlM_cons, hrun₁]
      exact hrun
    · -- a row of this function, which no later one edits
      rw [hother i fun b hb => (hfirst b hb).not_owns hi, hedit]
    · -- a row of a later function, which this one leaves alone
      have hno : ¬ c.Owns i := fun hown => (hfirst b hb).not_owns hown hi
      rw [howned b hb i hi, hedit]
      rw [show c.editRow interfacePrefix i = id from
        funext (editRow_of_not_owns hno hc.rows_le), Option.map_id_apply]
    · obtain ⟨hci, hrest⟩ := List.forall_mem_cons.mp hi
      rw [hother i hrest, hedit, show c.editRow interfacePrefix i = id from
        funext (editRow_of_not_owns hci hc.rows_le), Option.map_id_apply]

/-- Cutting the functions that stay in the kernel leaves the rows from `a` to `e` alone,
if none of the bodies has a row among them and `e` is the row of a closing brace. -/
theorem exists_outsiders (outsiderOpt : Finset Signature) {fnList : List SourceFn}
    (hrows : ∀ fn ∈ fnList, fn.lBraceLoc.1 ≤ fn.rBraceLoc.1 ∧ fn.rBraceLoc.1 < lines.length) :
    ∃ lines', fnList.foldlM (extractOutsider outsiderOpt) lines = .ok lines' ∧
      lines'.length = lines.length ∧
      ∀ a e, (∀ fn ∈ fnList, e < fn.lBraceLoc.1 ∨ fn.rBraceLoc.1 < a) →
        (∃ row, lines[e]? = some row ∧ '}' ∈ row) →
        ∀ i, a ≤ i → i ≤ e → lines'[i]? = lines[i]? := by
  induction fnList generalizing lines with
  | nil => exact ⟨lines, rfl, rfl, fun a e _ _ i _ _ => rfl⟩
  | cons fn fnList ih =>
    obtain ⟨⟨hle, hlt⟩, hrest⟩ := List.forall_mem_cons.mp hrows
    have hstep : ∃ lines₁, extractOutsider outsiderOpt lines fn = .ok lines₁ ∧
        lines₁.length = lines.length ∧
        ∀ a e, (e < fn.lBraceLoc.1 ∨ fn.rBraceLoc.1 < a) →
          (∃ row, lines[e]? = some row ∧ '}' ∈ row) →
          ∀ i, a ≤ i → i ≤ e → lines₁[i]? = lines[i]? := by
      by_cases hopt : fn.signature ∈ outsiderOpt
      · refine ⟨_, by rw [extractOutsider, if_pos hopt, appendLine_eq hlt],
          List.length_modify .., ?_⟩
        intro a e hae _ i h1 h2
        rw [List.getElem?_modify_ne]
        omega
      · have hstart : fn.lBraceLoc.1 < lines.length := by omega
        obtain ⟨lines₁, j, hrun, hcut⟩ := exists_extractOutsider hopt
          (List.getElem?_eq_getElem hstart) hle hlt
        refine ⟨lines₁, hrun, hcut.length, fun a e hae hbrace i h1 h2 => hcut.frame i ?_⟩
        rcases hae with habove | hbelow
        · -- the closing brace in row `e` has stopped the joining
          left
          obtain ⟨row, hrow, hmem⟩ := hbrace
          exact h2.trans_lt (hcut.lt_of_closing habove hrow hmem)
        · right
          omega
    obtain ⟨lines₁, hrun₁, hlen₁, hframe₁⟩ := hstep
    obtain ⟨lines', hrun, hlen, hframe⟩ := @ih lines₁ fun g hg => by
      rw [hlen₁]
      exact hrest g hg
    refine ⟨lines', ?_, hlen.trans hlen₁, fun a e hae hbrace i h1 h2 => ?_⟩
    · rw [List.foldlM_cons, hrun₁]
      exact hrun
    · obtain ⟨hfn, hfns⟩ := List.forall_mem_cons.mp hae
      have hsame := hframe₁ a e hfn hbrace
      have hbrace₁ : ∃ row, lines₁[e]? = some row ∧ '}' ∈ row := by
        obtain ⟨row, hrow, hmem⟩ := hbrace
        exact ⟨row, (hsame e (by omega) le_rfl).trans hrow, hmem⟩
      rw [hframe a e hfns hbrace₁ i h1 h2, hsame i h1 h2]

end Loops

/-! ### Names -/

/-- The name stands in its row at the place that the compiler reports. -/
structure BorderFn.NameAt (b : BorderFn) (before after row : Line) : Prop where
  row_eq : row = before ++ (b.fn.name.toList ++ after)
  col : before.length = b.fn.nameLoc.2
  ident : ∀ c ∈ b.fn.name.toList, isIdent c = true
  ne_nil : b.fn.name.toList ≠ []
  left : ∀ c, before.getLast? = some c → isIdent c = false
  right : ∀ c, after.head? = some c → isIdent c = false

/-- The functions lie in the file as the compiler reports, each on rows of its own. -/
structure Layout (located : FnLists) (lines : List Line) : Prop where
  outsiders : ∀ fn ∈ located.fnList,
    fn.lBraceLoc.1 ≤ fn.rBraceLoc.1 ∧ fn.rBraceLoc.1 < lines.length
  inFile : ∀ b ∈ located.border, b.InFile lines
  named : ∀ b ∈ located.border, ∃ before after row,
    lines[b.fn.nameLoc.1]? = some row ∧ b.NameAt before after row
  closing : ∀ b ∈ located.border, ∃ row, lines[b.fn.rBraceLoc.1]? = some row ∧ '}' ∈ row
  apart : located.border.Pairwise BorderFn.Apart
  apartFromOutsiders : ∀ b ∈ located.border, ∀ fn ∈ located.fnList,
    b.fn.rBraceLoc.1 < fn.lBraceLoc.1 ∨ fn.rBraceLoc.1 < b.fn.nameLoc.1

/-- In the row of each name only the declared name is changed, and in its other rows
nothing; a text may follow the row of the closing brace. -/
def RenamesOnly (interfacePrefix : List String) (located : FnLists) (lines lines' : List Line) :
    Prop :=
  ∀ b ∈ located.border,
    (∀ before after row, lines[b.fn.nameLoc.1]? = some row → b.NameAt before after row →
      lines'[b.fn.nameLoc.1]? = some
        (before ++ ((b.usedName interfacePrefix).getD b.fn.name.toList ++ after) ++
          if b.fn.nameLoc.1 = b.fn.rBraceLoc.1 then b.added interfacePrefix else [])) ∧
    ∀ i, b.fn.nameLoc.1 < i → i ≤ b.fn.rBraceLoc.1 → lines'[i]? = lines[i]?.map
      (· ++ if i = b.fn.rBraceLoc.1 then b.added interfacePrefix else [])

/-- A name that is replaced does not occur in its row besides, not even inside another
word. -/
def NamesOnce (interfacePrefix : List String) (located : FnLists) (lines : List Line) : Prop :=
  ∀ b ∈ located.border, (b.usedName interfacePrefix).isSome = true →
    ∀ before after row, lines[b.fn.nameLoc.1]? = some row → b.NameAt before after row →
      ¬ b.fn.name.toList <:+: before ∧ ¬ b.fn.name.toList <:+: after

section Names

variable {interfacePrefix : List String} {b : BorderFn} {before after row used : Line}

theorem length_lt_of_usedName (h : b.usedName interfacePrefix = some used) :
    b.fn.name.toList.length < used.length := by
  rw [BorderFn.usedName] at h
  split at h
  · cases h
    simp only [List.length_append]
    have : 0 < "__used ".toList.length := by decide
    omega
  · split at h
    · cases h
    · cases h
      simp only [List.length_append]
      have : 0 < "__used ".toList.length := by decide
      omega

/-- When the replacement changes the declared name only. -/
theorem change_eq_iff (h : b.NameAt before after row) :
    b.change interfacePrefix row =
        before ++ ((b.usedName interfacePrefix).getD b.fn.name.toList ++ after) ↔
      ((b.usedName interfacePrefix).isSome = true →
        ¬ b.fn.name.toList <:+: before ∧ ¬ b.fn.name.toList <:+: after) := by
  rw [BorderFn.change]
  cases hused : b.usedName interfacePrefix with
  | none => exact iff_of_true h.row_eq (by simp)
  | some used =>
    rw [h.row_eq, Option.elim_some, Option.getD_some, replaceAll_eq_iff h.ne_nil
      (length_lt_of_usedName hused) (separated_of_isIdent h.ident h.left)]
    simp

end Names

/-- **The names of the border functions.**  `function_extract` ends, and changes in the
rows of callbacks, interfaces and sidecars only the declared names of those that it
renames, exactly if none of these names occurs in its row a second time; rows of no such
function stay as the cutting of the bodies has left them. -/
theorem renamesOnly_iff (outsiderOpt : Finset Signature) (interfacePrefix : List String)
    (located : FnLists) (lines : List Line) (h : Layout located lines) :
    (∃ lines₁ lines', located.fnList.foldlM (extractOutsider outsiderOpt) lines = .ok lines₁ ∧
      functionExtract outsiderOpt interfacePrefix located lines = .ok lines' ∧
      RenamesOnly interfacePrefix located lines lines' ∧
      ∀ i, (∀ b ∈ located.border, ¬ b.Owns i) → lines'[i]? = lines₁[i]?) ↔
    NamesOnce interfacePrefix located lines := by
  obtain ⟨lines₁, hrun₁, hlen₁, hframe₁⟩ := exists_outsiders outsiderOpt h.outsiders
  -- the first loop leaves the rows of these functions as they are
  have hsame : ∀ b ∈ located.border, ∀ i, b.Owns i → lines₁[i]? = lines[i]? := fun b hb i hi =>
    hframe₁ b.fn.nameLoc.1 b.fn.rBraceLoc.1 (h.apartFromOutsiders b hb) (h.closing b hb) i hi.1 hi.2
  obtain ⟨lines', hrun, howned, hother⟩ := exists_border interfacePrefix
    (fun b hb => ⟨(h.inFile b hb).rows_le, hlen₁.symm ▸ (h.inFile b hb).rows_lt,
      (h.inFile b hb).declared⟩) h.apart
  have hall : functionExtract outsiderOpt interfacePrefix located lines = .ok lines' := by
    rw [functionExtract_eq, hrun₁]
    exact hrun
  -- so the row of a name is the original one, changed once
  have hrow : ∀ b ∈ located.border, ∀ row, lines[b.fn.nameLoc.1]? = some row →
      lines'[b.fn.nameLoc.1]? = some (b.change interfacePrefix row ++
        if b.fn.nameLoc.1 = b.fn.rBraceLoc.1 then b.added interfacePrefix else []) := by
    intro b hb row hget
    have hown : b.Owns b.fn.nameLoc.1 := ⟨le_rfl, (h.inFile b hb).rows_le⟩
    rw [howned b hb _ hown, hsame b hb _ hown, hget, Option.map_some, BorderFn.editRow, if_pos rfl]
  constructor
  · rintro ⟨_, lines'', -, hall', honly, -⟩ b hb hused before after row hget hname
    obtain rfl : lines' = lines'' := Except.ok.inj (hall.symm.trans hall')
    have heq := (honly b hb).1 before after row hget hname
    rw [hrow b hb row hget] at heq
    exact (change_eq_iff hname).mp (List.append_cancel_right (Option.some.inj heq)) hused
  · intro honce
    refine ⟨lines₁, lines', hrun₁, hall, fun b hb => ⟨fun before after row hget hname => ?_,
      fun i h1 h2 => ?_⟩, hother⟩
    · rw [hrow b hb row hget, (change_eq_iff hname).mpr fun hused =>
        honce b hb hused before after row hget hname]
    · have hown : b.Owns i := ⟨h1.le, h2⟩
      rw [howned b hb i hown, hsame b hb i hown]
      congr 1
      funext row
      rw [BorderFn.editRow, if_neg h1.ne']

/-! ### One callback -/

/-- The parts before and after the name follow from its column. -/
theorem BorderFn.NameAt.parts {b : BorderFn} {before after row : Line}
    (h : b.NameAt before after row) :
    before = row.take b.fn.nameLoc.2 ∧
      after = row.drop (b.fn.nameLoc.2 + b.fn.name.toList.length) := by
  rw [← h.col, h.row_eq]
  constructor
  · rw [List.take_left]
  · rw [← List.drop_drop, List.drop_left, List.drop_left]

/-- The callback `tick` of `core.c` with its parameters. -/
def tickFn (params : String) : SourceFn :=
  { plainFn "tick" "core.c" with
    lBraceLoc := (1, 0)
    rBraceLoc := (2, 0)
    nameLoc := (0, 12)
    declStr := some ⟨"tick", "void", params⟩ }

def tickLists (params : String) : FnLists where
  fnList := []
  callbackList := [tickFn params]
  interfaceList := []
  sidecarList := []

def tickFile (params : String) : List Line :=
  [("static void tick(" ++ params ++ ")\n").toList, "\x7b\n".toList, "\x7d\n".toList]

theorem layout_tick (params : String) : Layout (tickLists params) (tickFile params) where
  outsiders fn hfn := by cases hfn
  inFile b hb := by
    obtain rfl := List.mem_singleton.mp hb
    exact ⟨Nat.zero_le _, (by decide : 2 < 3), fun _ => rfl⟩
  named b hb := by
    obtain rfl := List.mem_singleton.mp hb
    refine ⟨"static void ".toList, '(' :: (params.toList ++ ")\n".toList), _, rfl, ?_⟩
    refine ⟨?_, rfl, List.all_eq_true.mp (rfl : "tick".toList.all isIdent = true),
      (by decide : "tick".toList ≠ []), ?_, ?_⟩
    · simp [tickFn, plainFn]
    · intro c hc
      cases hc
      rfl
    · intro c hc
      cases hc
      rfl
  closing b hb := by
    obtain rfl := List.mem_singleton.mp hb
    exact ⟨_, rfl, by decide⟩
  apart := List.pairwise_singleton _ _
  apartFromOutsiders b hb fn hfn := by cases hfn

/-- A name that stands in its row once is renamed there. -/
theorem renamesOnly_iff_tick : ∃ lines₁ lines',
    (tickLists "int cpu").fnList.foldlM (extractOutsider ∅) (tickFile "int cpu") = .ok lines₁ ∧
    functionExtract ∅ [] (tickLists "int cpu") (tickFile "int cpu") = .ok lines' ∧
    RenamesOnly [] (tickLists "int cpu") (tickFile "int cpu") lines' ∧
    ∀ i, (∀ b ∈ (tickLists "int cpu").border, ¬ b.Owns i) → lines'[i]? = lines₁[i]? := by
  refine (renamesOnly_iff ∅ [] (tickLists "int cpu") (tickFile "int cpu")
    (layout_tick "int cpu")).mpr ?_
  intro b hb _ before after row hrow hname
  obtain rfl := List.mem_singleton.mp hb
  obtain ⟨rfl, rfl⟩ := hname.parts
  cases hrow
  decide

/-- The parameter `struct tick_device *tick` is renamed with the callback `tick`. -/
theorem parameter_renamed :
    Layout (tickLists "struct tick_device *tick") (tickFile "struct tick_device *tick") ∧
    ∃ lines', functionExtract ∅ [] (tickLists "struct tick_device *tick")
        (tickFile "struct tick_device *tick") = .ok lines' ∧
      lines'[0]? = some
        "static void __used __cb_tick(struct __used __cb_tick_device *__used __cb_tick)\n".toList ∧
      ¬ RenamesOnly [] (tickLists "struct tick_device *tick")
        (tickFile "struct tick_device *tick") lines' := by
  refine ⟨layout_tick _, _, rfl, by decide, fun honly => ?_⟩
  obtain ⟨before, after, row, hget, hname⟩ := (layout_tick "struct tick_device *tick").named
    ⟨true, tickFn "struct tick_device *tick"⟩ List.mem_cons_self
  have hrow := (honly ⟨true, tickFn "struct tick_device *tick"⟩ List.mem_cons_self).1
    before after row hget hname
  obtain ⟨rfl, rfl⟩ := hname.parts
  cases hget
  exact absurd hrow (by decide)

end Plugsched
