/-
`var_extract`: the variables of a file, and what its passes do to a row.

A private variable is made `__used`.  The definition of a shared variable is joined downwards
into the row it starts on, up to the next row with a semicolon; a second pass deletes these
rows, a third puts the declarations there.

* `varExtract` — the passes;
* `extractVar_cases` — what one shared variable does to the rows;
* `exists_addUsed` — what the private variables do to them.
-/
import Mathlib.Data.Finset.Basic
import Plugsched.Extract
import Plugsched.Insertions

open ExceptRules Insertions TextLines

namespace Plugsched

/-! ### Variables -/

/-- The properties of a variable that the extraction reads. -/
structure VarProp where
  name : String
  file : String
  nameLoc : ℕ × ℕ
  declStartLine : ℕ
  external : Bool
  isPublic : Bool
  declStr : Option Line
  deriving DecidableEq

/-- `config['global_var']`. -/
structure GlobalVarConfig where
  extraPublic : List String
  forcePrivate : List String

/-- The variables that `var_location` looks at. -/
def locatedVars (srcFile : String) (metaVar : List VarProp) : List VarProp :=
  metaVar.filter fun var => var.file == srcFile && !var.external

/-- `static_var_list`. -/
def staticVars (config : Config) (varConfig : GlobalVarConfig) (srcFile : String)
    (metaVar : List VarProp) : List VarProp :=
  if srcFile ∈ config.sdcrSrcs then []
  else (locatedVars srcFile metaVar).filter fun var =>
    !(var.isPublic || var.name ∈ varConfig.extraPublic)

/-- `shared_var_list`. -/
def sharedVars (config : Config) (varConfig : GlobalVarConfig) (srcFile : String)
    (metaVar : List VarProp) : List VarProp :=
  if srcFile ∈ config.sdcrSrcs then locatedVars srcFile metaVar
  else (locatedVars srcFile metaVar).filter fun var =>
    (var.isPublic || var.name ∈ varConfig.extraPublic) && !(var.name ∈ varConfig.forcePrivate)

/-- No variable is both made `__used` and turned into a declaration. -/
theorem notMem_sharedVars_of_mem_staticVars {config : Config} {varConfig : GlobalVarConfig}
    {srcFile : String} {metaVar : List VarProp} {var : VarProp}
    (h : var ∈ staticVars config varConfig srcFile metaVar) :
    var ∉ sharedVars config varConfig srcFile metaVar := by
  intro hshared
  rw [staticVars] at h
  rw [sharedVars] at hshared
  by_cases hsdcr : srcFile ∈ config.sdcrSrcs
  · rw [if_pos hsdcr] at h
    cases h
  · rw [if_neg hsdcr] at h hshared
    have hprivate := (List.mem_filter.mp h).2
    have hpublic := (List.mem_filter.mp hshared).2
    rw [Bool.and_eq_true] at hpublic
    rw [hpublic.1] at hprivate
    cases hprivate

/-! ### Extraction -/

/-- The body of the loop over the private static variables. -/
def addUsed (lines : List Line) (var : VarProp) : Except ExtractFailure (List Line) :=
  replaceLine lines var.nameLoc.1 "static ".toList "static __used ".toList

/-- The loop of `merge_down_var`; the first argument counts the rows from `curr` on. -/
def mergeDownVarFrom (start : ℕ) : ℕ → List Line → ℕ → Line → Except ExtractFailure (List Line × ℕ)
  | 0, _, _, _ => .error .indexError
  | count + 1, lines, curr, merged => do
    let line ← lineAt lines curr
    let lines ← setLine lines curr []
    if ';' ∈ line then
      let lines ← setLine lines start (merged ++ line)
      return (lines, curr)
    else mergeDownVarFrom start count lines (curr + 1) (merged ++ strip line ++ " ".toList)

/-- `merge_down_var`. -/
def mergeDownVar (lines : List Line) (curr : ℕ) : Except ExtractFailure (List Line × ℕ) :=
  mergeDownVarFrom curr (lines.length - curr) lines curr []

/-- The loop over `replace_list`, if one of the patterns stands in the row. -/
def declareLine (line : Line) : Option Line :=
  if "DEFINE_PER_CPU".toList <:+: line then
    some (replaceAll "static ".toList []
      (replaceAll "DEFINE_PER_CPU".toList "DECLARE_PER_CPU".toList line))
  else if "DEFINE_STATIC_KEY".toList <:+: line then
    some (replaceAll "static ".toList []
      (replaceAll "DEFINE_STATIC_KEY".toList "DECLARE_STATIC_KEY".toList line))
  else none

/-- The body of the loop over the shared variables; the second component is
`shared_var_list`. -/
def extractVar (st : List Line × List VarProp) (var : VarProp) :
    Except ExtractFailure (List Line × List VarProp) := do
  let lines ← blankRows st.1 (var.declStartLine + 1) (var.nameLoc.1 - (var.declStartLine + 1))
  let (lines, _) ← mergeDownVar lines var.declStartLine
  let line ← lineAt lines var.declStartLine
  match declareLine line with
  | some line => do
    let lines ← setLine lines var.declStartLine line
    -- `remove` finds the variable: the loop runs over a copy of the list
    return (lines, st.2.erase var)
  | none => return (lines, st.2)

/-- The text of the declaration. -/
def declText (var : VarProp) : Line := var.declStr.getD [] ++ "\n".toList

/-- The body of the last loop. -/
def declareVar (lines : List Line) (var : VarProp) : Except ExtractFailure (List Line) :=
  match var.declStr with
  | none => throw (.typeError "unsupported operand type(s) for +: 'NoneType' and 'str'")
  | some _ => appendLine lines var.declStartLine (declText var)

/-- `var_extract`. -/
def varExtract (staticVarList sharedVarList : List VarProp) (lines : List Line) :
    Except ExtractFailure (List Line) := do
  let lines ← staticVarList.foldlM addUsed lines
  let (lines, sharedVarList) ← sharedVarList.foldlM extractVar (lines, sharedVarList)
  let lines ← sharedVarList.foldlM (fun lines var => setLine lines var.declStartLine []) lines
  sharedVarList.foldlM declareVar lines

/-! ### The rows that a variable takes in -/

/-- The rows in which a semicolon stands. -/
def ends (lines : List Line) : Finset ℕ :=
  (Finset.range lines.length).filter fun k => ';' ∈ (lines[k]?).getD []

/-- Row `e` is the first one with a semicolon from the start of the definition on, the rows
in front of the name apart. -/
structure NextEnd (ends : Finset ℕ) (var : VarProp) (e : ℕ) : Prop where
  mem : e ∈ ends
  ge : var.declStartLine ≤ e
  out : ¬ (var.declStartLine < e ∧ e < var.nameLoc.1)
  first : ∀ k ∈ ends, var.declStartLine ≤ k → ¬ (var.declStartLine < k ∧ k < var.nameLoc.1) → e ≤ k

/-- The variable takes in row `k`, if its definition ends with row `e`. -/
def Takes (var : VarProp) (e k : ℕ) : Prop :=
  var.declStartLine ≤ k ∧ (k ≤ e ∨ k < var.nameLoc.1)

instance (var : VarProp) (e k : ℕ) : Decidable (Takes var e k) :=
  inferInstanceAs (Decidable (_ ∧ _))

/-- The semicolon is moved to the row on which the definition starts. -/
def moveEnd (ends : Finset ℕ) (var : VarProp) (e : ℕ) : Finset ℕ :=
  insert var.declStartLine (ends.filter fun k => ¬ Takes var e k)

/-- The rows after a variable. -/
structure Taken (lines : List Line) (var : VarProp) (e : ℕ) (lines' : List Line) : Prop where
  length : lines'.length = lines.length
  blank : ∀ k, Takes var e k → k ≠ var.declStartLine → lines'[k]? = some []
  frame : ∀ k, ¬ Takes var e k → lines'[k]? = lines[k]?
  semi : ∃ row, lines'[var.declStartLine]? = some row ∧ ';' ∈ row

/-- One of the two macros for declarations stands in the row. -/
def HasDeclare (row : Line) : Prop :=
  "DECLARE_PER_CPU".toList <:+: row ∨ "DECLARE_STATIC_KEY".toList <:+: row

section Steps

variable {lines lines' : List Line} {var : VarProp} {e k : ℕ}

theorem mem_ends : k ∈ ends lines ↔ ∃ row, lines[k]? = some row ∧ ';' ∈ row := by
  rw [ends, Finset.mem_filter, Finset.mem_range]
  constructor
  · rintro ⟨hlt, hsemi⟩
    have hrow := List.getElem?_eq_getElem hlt
    rw [hrow] at hsemi
    exact ⟨_, hrow, hsemi⟩
  · rintro ⟨row, hrow, hsemi⟩
    refine ⟨(List.getElem?_eq_some_iff.mp hrow).1, ?_⟩
    rwa [hrow]

theorem NextEnd.unique {ends : Finset ℕ} {e' : ℕ} (h : NextEnd ends var e)
    (h' : NextEnd ends var e') :
    e = e' :=
  le_antisymm (h.first e' h'.mem h'.ge h'.out) (h'.first e h.mem h.ge h.out)

theorem NextEnd.takes {ends : Finset ℕ} (h : NextEnd ends var e) : Takes var e e :=
  ⟨h.ge, Or.inl le_rfl⟩

theorem NextEnd.takes_start {ends : Finset ℕ} (h : NextEnd ends var e) :
    Takes var e var.declStartLine :=
  ⟨le_rfl, Or.inl h.ge⟩

theorem Taken.ends_eq (h : Taken lines var e lines') :
    ends lines' = moveEnd (ends lines) var e := by
  ext k
  rw [moveEnd, Finset.mem_insert, Finset.mem_filter, mem_ends, mem_ends]
  by_cases hstart : k = var.declStartLine
  · subst hstart
    exact iff_of_true h.semi (Or.inl rfl)
  · by_cases htake : Takes var e k
    · rw [h.blank k htake hstart]
      simp [hstart, htake]
    · rw [h.frame k htake]
      simp [hstart, htake]

/-- One round of the loop of `merge_down_var`. -/
theorem mergeDownVarFrom_succ {start count curr : ℕ} {merged row : Line}
    (hrow : lines[curr]? = some row) : mergeDownVarFrom start (count + 1) lines curr merged =
      if ';' ∈ row then
        setLine (lines.set curr []) start (merged ++ row) >>= fun lines => .ok (lines, curr)
      else mergeDownVarFrom start count (lines.set curr []) (curr + 1)
        (merged ++ strip row ++ " ".toList) := by
  rw [mergeDownVarFrom, lineAt_eq hrow]
  show (setLine lines curr [] >>= _) = _
  rw [setLine_eq (List.getElem?_eq_some_iff.mp hrow).1]
  rfl

/-- The loop of `merge_down_var` stops at the next row with a semicolon, or runs past the
end. -/
theorem mergeDownVarFrom_cases {start curr count : ℕ} (merged : Line) (hle : start ≤ curr)
    (hstart : start < lines.length) (hcount : count = lines.length - curr) :
    (∃ e lines', mergeDownVarFrom start count lines curr merged = .ok (lines', e) ∧
      curr ≤ e ∧ e ∈ ends lines ∧ (∀ k ∈ ends lines, curr ≤ k → e ≤ k) ∧
      lines'.length = lines.length ∧ (∃ row, lines'[start]? = some row ∧ ';' ∈ row) ∧
      (∀ k, k ≠ start → curr ≤ k → k ≤ e → lines'[k]? = some []) ∧
      ∀ k, k ≠ start → k < curr ∨ e < k → lines'[k]? = lines[k]?) ∨
    (mergeDownVarFrom start count lines curr merged = .error .indexError ∧
      ∀ k ∈ ends lines, k < curr) := by
  induction count generalizing lines curr merged with
  | zero =>
    refine Or.inr ⟨rfl, fun k hk => ?_⟩
    obtain ⟨row, hrow, -⟩ := mem_ends.mp hk
    have hlt := (List.getElem?_eq_some_iff.mp hrow).1
    omega
  | succ count ih =>
    have hcurr : curr < lines.length := by omega
    have hrow := List.getElem?_eq_getElem hcurr
    have hset : (lines.set curr []).length = lines.length := List.length_set
    rw [mergeDownVarFrom_succ hrow]
    by_cases hsemi : ';' ∈ lines[curr]
    · -- the definition ends with this row
      have hlen : start < (lines.set curr []).length := by rwa [hset]
      rw [if_pos hsemi, setLine_eq hlen]
      refine Or.inl ⟨curr, _, rfl, le_rfl, mem_ends.mpr ⟨_, hrow, hsemi⟩, fun k _ h => h, ?_, ?_,
        fun k hk h1 h2 => ?_, fun k hk h => ?_⟩
      · rw [List.length_set, hset]
      · exact ⟨_, List.getElem?_set_self hlen, List.mem_append_right merged hsemi⟩
      · obtain rfl : k = curr := by omega
        rw [List.getElem?_set_ne (Ne.symm hk), List.getElem?_set_self hcurr]
      · rw [List.getElem?_set_ne (Ne.symm hk), List.getElem?_set_ne (by omega)]
    · rw [if_neg hsemi]
      -- the rest of the file holds the same semicolons
      have hends : ∀ k, curr < k → (k ∈ ends (lines.set curr []) ↔ k ∈ ends lines) := by
        intro k hk
        rw [mem_ends, mem_ends, List.getElem?_set_ne (by omega)]
      have hno : curr ∉ ends lines := by
        intro h
        obtain ⟨row, hrow', hmem⟩ := mem_ends.mp h
        rw [hrow] at hrow'
        cases hrow'
        exact hsemi hmem
      rcases ih (merged ++ strip lines[curr] ++ " ".toList) (by omega : start ≤ curr + 1)
          (by rwa [hset]) (by omega : count = (lines.set curr []).length - (curr + 1)) with
        ⟨e, lines', hrun, hce, hmem, hfirst, hlen, hrow', hblank, hframe⟩ | ⟨hrun, hnone⟩
      · refine Or.inl ⟨e, lines', hrun, by omega, (hends e (by omega)).mp hmem, fun k hk h => ?_,
          hlen.trans hset, hrow', fun k hk h1 h2 => ?_, fun k hk h => ?_⟩
        · rcases Nat.eq_or_lt_of_le h with rfl | hlt
          · exact absurd hk hno
          · exact hfirst k ((hends k hlt).mpr hk) hlt
        · rcases Nat.eq_or_lt_of_le h1 with rfl | hlt
          · rw [hframe curr hk (by omega), List.getElem?_set_self hcurr]
          · exact hblank k hk hlt h2
        · rw [hframe k hk (by omega), List.getElem?_set_ne (by omega)]
      · -- no semicolon below, and none in this row
        refine Or.inr ⟨hrun, fun k hk => ?_⟩
        by_contra hlt
        rcases Nat.eq_or_lt_of_le (not_lt.mp hlt) with rfl | hlt
        · exact hno hk
        · have := hnone k ((hends k hlt).mpr hk)
          omega

theorem declareLine_spec {line line' : Line} (h : declareLine line = some line') :
    HasDeclare line' ∧ (';' ∈ line → ';' ∈ line') := by
  have hstatic : "static ".toList ≠ [] := by decide
  -- neither replacement touches a semicolon
  have hsemi : ∀ old new s : Line, old ≠ [] → ';' ∉ old → ';' ∈ s → ';' ∈ replaceAll old new s := by
    intro old new s hold hnot hmem
    obtain ⟨a, b, rfl⟩ := List.append_of_mem hmem
    rw [replaceAll_append_cons hold hnot]
    exact List.mem_append_right _ List.mem_cons_self
  unfold declareLine at h
  by_cases hcpu : "DEFINE_PER_CPU".toList <:+: line
  · rw [if_pos hcpu] at h
    cases h
    have hold : "DEFINE_PER_CPU".toList ≠ [] := by decide
    exact ⟨Or.inl (infix_replaceAll_of_disjoint hstatic (disjoint_of_all (by decide))
        (infix_replaceAll hold hcpu)),
      fun hmem => hsemi _ _ _ hstatic (by decide) (hsemi _ _ _ hold (by decide) hmem)⟩
  · rw [if_neg hcpu] at h
    by_cases hkey : "DEFINE_STATIC_KEY".toList <:+: line
    · rw [if_pos hkey] at h
      cases h
      have hold : "DEFINE_STATIC_KEY".toList ≠ [] := by decide
      exact ⟨Or.inr (infix_replaceAll_of_disjoint hstatic (disjoint_of_all (by decide))
          (infix_replaceAll hold hkey)),
        fun hmem => hsemi _ _ _ hstatic (by decide) (hsemi _ _ _ hold (by decide) hmem)⟩
    · rw [if_neg hkey] at h
      cases h

/-- What one variable does: it takes in the rows up to the next semicolon, and is either
declared in its row or left to the passes that follow.  Without a semicolon the file ends
too early. -/
theorem extractVar_cases (shared : List VarProp) (hle : var.declStartLine ≤ var.nameLoc.1)
    (hlt : var.nameLoc.1 < lines.length) :
    (∃ e lines' shared', NextEnd (ends lines) var e ∧
      extractVar (lines, shared) var = .ok (lines', shared') ∧ Taken lines var e lines' ∧
      (shared' = shared ∨ shared' = shared.erase var ∧
        ∃ row, lines'[var.declStartLine]? = some row ∧ HasDeclare row)) ∨
    (extractVar (lines, shared) var = .error .indexError ∧ ∀ e, ¬ NextEnd (ends lines) var e) := by
  set s := var.declStartLine with hs
  set n := var.nameLoc.1 with hn
  -- the rows in front of the name are emptied first, with their semicolons
  obtain ⟨lines₁, hrun₁, hlen₁, hframe₁, hblank₁⟩ := exists_blankRows lines (s + 1) (n - (s + 1))
    (by omega)
  have hends₁ : ∀ k, k ∈ ends lines₁ ↔ k ∈ ends lines ∧ ¬ (s < k ∧ k < n) := by
    intro k
    rw [mem_ends, mem_ends]
    by_cases hk : s < k ∧ k < n
    · rw [hblank₁ k (by omega) (by omega)]
      simp [hk]
    · rw [hframe₁ k (by omega)]
      simp [hk]
  have hstart : s < lines₁.length := by omega
  rw [extractVar, hrun₁]
  show (∃ e lines' shared', _ ∧ (mergeDownVar lines₁ s >>= _) = _ ∧ _) ∨
    ((mergeDownVar lines₁ s >>= _) = _ ∧ _)
  rcases mergeDownVarFrom_cases [] le_rfl hstart rfl with
    ⟨e, lines₂, hrun₂, hse, hmem, hfirst, hlen₂, ⟨row, hrow, hsemi⟩, hblank₂, hframe₂⟩ |
    ⟨hrun₂, hnone⟩
  · obtain ⟨hmem', hout⟩ := (hends₁ e).mp hmem
    have hend : NextEnd (ends lines) var e :=
      ⟨hmem', hse, hout, fun k hk h1 h2 => hfirst k ((hends₁ k).mpr ⟨hk, h2⟩) h1⟩
    -- the rows, whatever is put into the first one
    have htaken : ∀ new, ';' ∈ new → Taken lines var e (lines₂.set s new) := by
      intro new hnew
      refine ⟨?_, fun k htake hk => ?_, fun k htake => ?_, new, ?_, hnew⟩
      · rw [List.length_set, hlen₂, hlen₁]
      · rw [List.getElem?_set_ne (Ne.symm hk)]
        by_cases hke : k ≤ e
        · exact hblank₂ k hk htake.1 hke
        · have h1 := htake.1
          have h2 := htake.2
          rw [hframe₂ k hk (by omega), hblank₁ k (by omega) (by omega)]
      · have hks : k ≠ s := by
          rintro rfl
          exact htake hend.takes_start
        have hnot : ¬ (s ≤ k ∧ (k ≤ e ∨ k < n)) := htake
        rw [List.getElem?_set_ne (Ne.symm hks), hframe₂ k hks (by omega), hframe₁ k (by omega)]
      · exact List.getElem?_set_self (by omega)
    have hself : lines₂.set s row = lines₂ := by
      refine List.ext_getElem? fun k => ?_
      by_cases hk : k = s
      · rw [hk, List.getElem?_set_self (by omega), hrow]
      · rw [List.getElem?_set_ne (Ne.symm hk)]
    rw [mergeDownVar, hrun₂]
    show (∃ e lines' shared', _ ∧ (lineAt lines₂ s >>= _) = _ ∧ _) ∨
      ((lineAt lines₂ s >>= _) = _ ∧ _)
    rw [lineAt_eq hrow]
    refine Or.inl ⟨e, ?_⟩
    cases hdecl : declareLine row with
    | some new =>
      obtain ⟨hhas, hkeep⟩ := declareLine_spec hdecl
      refine ⟨lines₂.set s new, shared.erase var, hend, ?_, htaken new (hkeep hsemi),
        Or.inr ⟨rfl, new,
        List.getElem?_set_self (by omega), hhas⟩⟩
      show ((match declareLine row with | some line => _ | none => _) : Except _ _) = _
      rw [hdecl]
      show (setLine lines₂ s new >>= _) = _
      rw [setLine_eq (by omega : s < lines₂.length)]
      rfl
    | none =>
      refine ⟨lines₂, shared, hend, ?_, hself ▸ htaken row hsemi, Or.inl rfl⟩
      show ((match declareLine row with | some line => _ | none => _) : Except _ _) = _
      rw [hdecl]
      rfl
  · refine Or.inr ⟨by rw [mergeDownVar, hrun₂]; rfl, fun e hend => ?_⟩
    have := hnone e ((hends₁ e).mpr ⟨hend.mem, hend.out⟩)
    have := hend.ge
    omega

end Steps

/-! ### Private variables -/

section Used

variable {own : ℕ → Prop} {row row' : Line} {lines lines' orig : List Line} {statics : List VarProp}
  {m : ℕ → ℕ} {n : ℕ}

/-- `row'` is `row`, with `__used` put in behind words `static` that begin in a column of
`own`. -/
def UsedAdded (own : ℕ → Prop) (row row' : Line) : Prop :=
  InsertedAt "static ".toList "__used ".toList own 0 row row'

/-- `row'` is `row`, with `n` words `__used` behind each word `static`. -/
def UsedEverywhere (n : ℕ) (row row' : Line) : Prop :=
  InsertedAll "static ".toList "__used ".toList n row row'

theorem distinct_used : Distinct "static ".toList "__used ".toList where
  old_ne := by decide
  ins_ne := by decide
  inside_old k h0 hk := by
    have hall : ∀ k < 7, 0 < k → ¬ "static ".toList.drop k <+: "static ".toList := by decide
    exact hall k hk h0
  inside_ins := by decide

/-- The words `__used` of a private variable stand in the right places exactly if each
`static` of the row is one of them. -/
theorem UsedEverywhere.usedAdded_iff (h : UsedEverywhere n row row') (hn : 1 ≤ n) :
    UsedAdded own row row' ↔ ∀ c, "static ".toList <+: row.drop c → own c :=
  insertedAt_iff distinct_used hn h

theorem UsedAdded.refl (own : ℕ → Prop) (row : Line) : UsedAdded own row row :=
  InsertedAt.refl 0 row

theorem UsedAdded.semi_iff (h : UsedAdded own row row') : ';' ∈ row' ↔ ';' ∈ row :=
  h.mem_iff (by decide)

theorem UsedAdded.ne_nil (h : UsedAdded own row row') (hne : row ≠ []) : row' ≠ [] :=
  (not_congr (h.eq_nil_iff (by decide))).mpr hne

theorem UsedEverywhere.usedAdded (h : UsedEverywhere n row row') :
    UsedAdded (fun _ => True) row row' :=
  h.insertedAt fun _ _ => trivial

theorem UsedEverywhere.eq_of_zero (h : UsedEverywhere 0 row row') : row' = row :=
  InsertedAll.eq_of_zero h

theorem countP_name_pos {u : VarProp} (hu : u ∈ statics) :
    1 ≤ statics.countP (·.nameLoc.1 = u.nameLoc.1) :=
  List.countP_pos_iff.mpr ⟨u, hu, decide_eq_true rfl⟩

/-- One more private variable with its name in the row. -/
theorem UsedEverywhere.replaceAll (h : UsedEverywhere n row row') :
    UsedEverywhere (n + 1) row (replaceAll "static ".toList "static __used ".toList row') :=
  InsertedAll.replaceAll distinct_used h

/-- The loop over the private static variables, from rows that have got `m` words each. -/
theorem foldlM_addUsed (h : ∀ u ∈ statics, u.nameLoc.1 < lines.length)
    (hrows : ∀ k row, orig[k]? = some row →
      ∃ row', lines[k]? = some row' ∧ UsedEverywhere (m k) row row') :
    ∃ lines', statics.foldlM addUsed lines = .ok lines' ∧ lines'.length = lines.length ∧
      ∀ k row, orig[k]? = some row → ∃ row', lines'[k]? = some row' ∧
        UsedEverywhere (m k + statics.countP (·.nameLoc.1 = k)) row row' := by
  induction statics generalizing lines m with
  | nil => exact ⟨lines, rfl, rfl, hrows⟩
  | cons u statics ih =>
    obtain ⟨hu, hrest⟩ := List.forall_mem_cons.mp h
    -- the row of `u` has got one more word
    have hnext : ∀ k row, orig[k]? = some row → ∃ row',
        (lines.modify u.nameLoc.1 (replaceAll "static ".toList "static __used ".toList))[k]? =
          some row' ∧ UsedEverywhere (m k + if u.nameLoc.1 = k then 1 else 0) row row' := by
      intro k row hrow
      obtain ⟨row', hrow', hused⟩ := hrows k row hrow
      by_cases hk : u.nameLoc.1 = k
      · rw [hk, List.getElem?_modify_eq, hrow', if_pos rfl]
        exact ⟨_, rfl, hused.replaceAll⟩
      · rw [List.getElem?_modify_ne _ _ hk, if_neg hk]
        exact ⟨row', hrow', hused⟩
    obtain ⟨lines', hrun, hlen, hrows'⟩ := ih
      (fun v hv => by rw [List.length_modify]; exact hrest v hv) hnext
    refine ⟨lines', ?_, by rw [hlen, List.length_modify], fun k row hrow => ?_⟩
    · rw [List.foldlM_cons, addUsed, replaceLine_eq hu]
      exact hrun
    · obtain ⟨row', hrow', hused⟩ := hrows' k row hrow
      refine ⟨row', hrow', ?_⟩
      rw [List.countP_cons, Nat.add_comm (List.countP _ _), ← Nat.add_assoc]
      simpa only [decide_eq_true_eq] using hused

/-- The loop over the private static variables: each `static` of a row gets as many words as
there are names in the row. -/
theorem exists_addUsed (h : ∀ u ∈ statics, u.nameLoc.1 < lines.length) :
    ∃ lines', statics.foldlM addUsed lines = .ok lines' ∧ lines'.length = lines.length ∧
      ∀ k row, lines[k]? = some row → ∃ row', lines'[k]? = some row' ∧
        UsedEverywhere (statics.countP (·.nameLoc.1 = k)) row row' := by
  have hzero : ∀ (k : ℕ) (row : Line), lines[k]? = some row →
      ∃ row', lines[k]? = some row' ∧ UsedEverywhere 0 row row' :=
    fun k row hrow => ⟨row, hrow, insertedAll_zero (by decide) row⟩
  obtain ⟨lines', hrun, hlen, hrows⟩ := foldlM_addUsed (m := fun _ => 0) h hzero
  refine ⟨lines', hrun, hlen, fun k row hrow => ?_⟩
  obtain ⟨row', hrow', hused⟩ := hrows k row hrow
  rw [Nat.zero_add] at hused
  exact ⟨row', hrow', hused⟩

end Used

end Plugsched
