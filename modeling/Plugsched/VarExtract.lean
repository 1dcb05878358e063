/-
When `var_extract` keeps the rest of the file.

The rows that a shared variable takes in depend on what the variables before it have left.

* `Joins` — each variable finds a semicolon in front of the rows that must stay;
* `OwnStatic` — no `static` of something else stands in the row of a private variable;
* `varExtract_iff` — the rest of the file stays exactly if both hold;
* `joins_of_apart` — definitions on rows of their own, in any order.
-/
import Plugsched.VarPasses

open ExceptRules Insertions TextLines

namespace Plugsched

/-! ### The loop over the shared variables -/

/-- Each variable in turn finds a semicolon, and takes in no row that must stay. -/
inductive Joins (keep : ℕ → Prop) : Finset ℕ → List VarProp → Prop
  | nil (ends : Finset ℕ) : Joins keep ends []
  | cons {ends : Finset ℕ} {var : VarProp} {vars : List VarProp} {e : ℕ} (hend : NextEnd ends var e)
      (hkeep : ∀ k, Takes var e k → ¬ keep k) (hrest : Joins keep (moveEnd ends var e) vars) :
      Joins keep ends (var :: vars)

theorem Joins.not_keep_start {keep : ℕ → Prop} {ends : Finset ℕ} {vars : List VarProp}
    (h : Joins keep ends vars) {var : VarProp} (hvar : var ∈ vars) : ¬ keep var.declStartLine := by
  induction h with
  | nil => cases hvar
  | cons hend hkeep _ ih =>
    rcases List.mem_cons.mp hvar with rfl | hvar
    · exact hkeep _ hend.takes_start
    · exact ih hvar

section Loop

variable {keep : ℕ → Prop} {shared rest rest' vars : List VarProp} {lines lines' : List Line}
  {var : VarProp} {k : ℕ}

/-- The variables lie in the file. -/
def InLines (vars : List VarProp) (lines : List Line) : Prop :=
  ∀ var ∈ vars, var.declStartLine ≤ var.nameLoc.1 ∧ var.nameLoc.1 < lines.length

theorem extractVar_ok (hvar : var.declStartLine ≤ var.nameLoc.1 ∧ var.nameLoc.1 < lines.length)
    (hrun : extractVar (lines, rest) var = .ok (lines', rest')) :
    ∃ e, NextEnd (ends lines) var e ∧ Taken lines var e lines' ∧
      (rest' = rest ∨ rest' = rest.erase var ∧
        ∃ row, lines'[var.declStartLine]? = some row ∧ HasDeclare row) := by
  rcases extractVar_cases rest hvar.1 hvar.2 with
    ⟨e, lines₁, rest₁, hend, hrun₁, htaken, hrest⟩ | ⟨herr, -⟩
  · obtain ⟨rfl, rfl⟩ := Prod.mk.inj (Except.ok.inj (hrun.symm.trans hrun₁))
    exact ⟨e, hend, htaken, hrest⟩
  · rw [herr] at hrun
    cases hrun

theorem Taken.inLines {e : ℕ} (h : Taken lines var e lines') (hvars : InLines vars lines) :
    InLines vars lines' := fun v hv => h.length.symm ▸ hvars v hv

/-- A row on which no definition starts is left alone, or emptied for good. -/
theorem foldlM_extractVar_row (hvars : InLines vars lines)
    (hrun : vars.foldlM extractVar (lines, rest) = .ok (lines', rest'))
    (hk : ∀ v ∈ vars, v.declStartLine ≠ k) :
    lines'.length = lines.length ∧
      (lines'[k]? = lines[k]? ∨ lines'[k]? = some []) := by
  induction vars generalizing lines rest with
  | nil =>
    obtain ⟨rfl, rfl⟩ := Prod.mk.inj (Except.ok.inj hrun)
    exact ⟨rfl, Or.inl rfl⟩
  | cons v vars ih =>
    obtain ⟨hv, hrest⟩ := List.forall_mem_cons.mp hvars
    obtain ⟨hkv, hkrest⟩ := List.forall_mem_cons.mp hk
    rw [List.foldlM_cons] at hrun
    obtain ⟨⟨lines₁, rest₁⟩, hrun₁, hrun⟩ := bind_eq_ok hrun
    obtain ⟨e, -, htaken, -⟩ := extractVar_ok hv hrun₁
    obtain ⟨hlen, hrow⟩ := ih (htaken.inLines hrest) hrun hkrest
    refine ⟨hlen.trans htaken.length, ?_⟩
    by_cases htake : Takes v e k
    · have hblank := htaken.blank k htake (Ne.symm hkv)
      rcases hrow with hrow | hrow
      · exact Or.inr (hrow.trans hblank)
      · exact Or.inr hrow
    · rw [htaken.frame k htake] at hrow
      exact hrow

/-- The loop ends and spares the rows that must stay exactly if each variable finds its
semicolon in front of them. -/
theorem foldlM_extractVar_iff (rest : List VarProp) (hvars : InLines vars lines)
    (hkeep : ∀ k, keep k → (∃ row, lines[k]? = some row ∧ row ≠ []) ∧
      ∀ v ∈ vars, v.declStartLine ≠ k) :
    (∃ lines' rest', vars.foldlM extractVar (lines, rest) = .ok (lines', rest') ∧
      ∀ k, keep k → lines'[k]? = lines[k]?) ↔ Joins keep (ends lines) vars := by
  induction vars generalizing lines rest with
  | nil => exact iff_of_true ⟨lines, rest, rfl, fun k _ => rfl⟩ (.nil _)
  | cons v vars ih =>
    obtain ⟨hv, hrest⟩ := List.forall_mem_cons.mp hvars
    rw [List.foldlM_cons]
    rcases extractVar_cases rest hv.1 hv.2 with
      ⟨e, lines₁, rest₁, hend, hrun₁, htaken, -⟩ | ⟨herr, hnone⟩
    · rw [hrun₁]
      show (∃ lines' rest', vars.foldlM extractVar (lines₁, rest₁) = _ ∧ _) ↔ _
      have hin := htaken.inLines hrest
      -- the rows that must stay, when the variable spares them
      have hspared : (∀ k, Takes v e k → ¬ keep k) → ∀ k, keep k → lines₁[k]? = lines[k]? :=
        fun h k hk => htaken.frame k fun htake => h k htake hk
      have hkeep₁ : (∀ k, Takes v e k → ¬ keep k) → ∀ k, keep k →
          (∃ row, lines₁[k]? = some row ∧ row ≠ []) ∧ ∀ v ∈ vars, v.declStartLine ≠ k := by
        intro h k hk
        obtain ⟨hrow, hstart⟩ := hkeep k hk
        rw [hspared h k hk]
        exact ⟨hrow, (List.forall_mem_cons.mp hstart).2⟩
      constructor
      · -- a row that is taken in is empty in the end, so it need not stay
        rintro ⟨lines', rest', hrun, hsame⟩
        have htakes : ∀ k, Takes v e k → ¬ keep k := by
          intro k htake hk
          obtain ⟨⟨row, hrow, hne⟩, hstart⟩ := hkeep k hk
          obtain ⟨hkv, hkvars⟩ := List.forall_mem_cons.mp hstart
          have hblank := htaken.blank k htake (Ne.symm hkv)
          have hend := (foldlM_extractVar_row hin hrun hkvars).2
          rw [hsame k hk, hrow, hblank, or_self] at hend
          exact hne (Option.some.inj hend)
        refine .cons hend htakes ?_
        rw [← htaken.ends_eq]
        refine (ih rest₁ hin (hkeep₁ htakes)).mp ⟨lines', rest', hrun, fun k hk => ?_⟩
        rw [hsame k hk, hspared htakes k hk]
      · intro hjoins
        cases hjoins with
        | cons hend' htakes hrest' =>
          obtain rfl := hend.unique hend'
          rw [← htaken.ends_eq] at hrest'
          obtain ⟨lines', rest', hrun, hsame⟩ := (ih rest₁ hin (hkeep₁ htakes)).mpr hrest'
          exact ⟨lines', rest', hrun, fun k hk => (hsame k hk).trans (hspared htakes k hk)⟩
    · -- no semicolon left: the loop raises, and there is nothing to join
      refine iff_of_false ?_ fun hjoins => ?_
      · rw [herr]
        rintro ⟨lines', rest', hrun, -⟩
        cases hrun
      · cases hjoins with
        | cons hend => exact hnone _ hend

end Loop

/-! ### Start rows -/

/-- The declarations that are put into row `k`. -/
def declsAt (vars : List VarProp) (k : ℕ) : Line :=
  ((vars.filter (·.declStartLine = k)).map declText).flatten

/-- What may stand in row `k` at the end, if the definition of a shared variable starts there. -/
def Rewritten (shared : List VarProp) (k : ℕ) (row : Line) : Prop :=
  (∃ rest, rest.Sublist shared ∧ row = declsAt rest k) ∨ HasDeclare row

/-- The state of `shared_var_list`, when the variables of `todo` are still to come: a
variable is listed, shares its row with one that is, or has its row emptied or declared. -/
structure Leftover (shared todo : List VarProp) (lines : List Line) (rest : List VarProp) :
    Prop where
  count : ∀ u, todo.count u ≤ rest.count u
  sub : rest.Sublist shared
  done : ∀ v ∈ shared, v ∈ todo ∨ (∃ u ∈ rest, u.declStartLine = v.declStartLine) ∨
    ∃ row, lines[v.declStartLine]? = some row ∧ (row = [] ∨ HasDeclare row)

section Passes

variable {keep : ℕ → Prop} {shared rest rest' vars : List VarProp} {lines lines' : List Line}
  {var : VarProp} {k : ℕ}

theorem Leftover.step (h : Leftover shared (var :: vars) lines rest)
    (hvar : var.declStartLine ≤ var.nameLoc.1 ∧ var.nameLoc.1 < lines.length)
    (hrun : extractVar (lines, rest) var = .ok (lines', rest')) :
    Leftover shared vars lines' rest' := by
  obtain ⟨e, -, htaken, hrest⟩ := extractVar_ok hvar hrun
  have hmem : var ∈ rest := by
    have hcount := h.count var
    rw [List.count_cons_self] at hcount
    exact List.count_pos_iff.mp (by omega)
  have hcount : ∀ u, vars.count u ≤ (rest.erase var).count u := by
    intro u
    have hu := h.count u
    rw [List.count_cons] at hu
    rw [List.count_erase]
    by_cases huv : var == u
    · simp only [huv, if_true] at hu ⊢
      omega
    · simp only [huv, if_false, Bool.false_eq_true] at hu ⊢
      omega
  -- a row with the start of another variable stays, or is emptied
  have hother : ∀ v : VarProp, v.declStartLine ≠ var.declStartLine →
      (∃ row, lines[v.declStartLine]? = some row ∧ (row = [] ∨ HasDeclare row)) →
      ∃ row, lines'[v.declStartLine]? = some row ∧ (row = [] ∨ HasDeclare row) := by
    intro v hne hrow
    by_cases htake : Takes var e v.declStartLine
    · exact ⟨[], htaken.blank _ htake hne, Or.inl rfl⟩
    · rwa [htaken.frame _ htake]
  rcases hrest with rfl | ⟨rfl, row, hrow, hhas⟩
  · -- the variable stays in the list
    refine ⟨fun u => (hcount u).trans (List.erase_sublist.count_le u), h.sub, fun v hv => ?_⟩
    rcases h.done v hv with htodo | hlisted | hrow
    · rcases List.mem_cons.mp htodo with rfl | htodo
      · exact Or.inr (Or.inl ⟨v, hmem, rfl⟩)
      · exact Or.inl htodo
    · exact Or.inr (Or.inl hlisted)
    · by_cases hsame : v.declStartLine = var.declStartLine
      · exact Or.inr (Or.inl ⟨var, hmem, hsame.symm⟩)
      · exact Or.inr (Or.inr (hother v hsame hrow))
  · -- the variable is declared in its row, and so are those that share the row
    refine ⟨hcount, List.erase_sublist.trans h.sub, fun v hv => ?_⟩
    by_cases hsame : v.declStartLine = var.declStartLine
    · exact Or.inr (Or.inr ⟨row, hsame ▸ hrow, Or.inr hhas⟩)
    · rcases h.done v hv with htodo | ⟨u, hu, hstart⟩ | hrow
      · rcases List.mem_cons.mp htodo with rfl | htodo
        · exact absurd rfl hsame
        · exact Or.inl htodo
      · refine Or.inr (Or.inl ⟨u, (List.mem_erase_of_ne ?_).mpr hu, hstart⟩)
        rintro rfl
        exact hsame hstart.symm
      · exact Or.inr (Or.inr (hother v hsame hrow))

theorem Leftover.run (h : Leftover shared vars lines rest) (hvars : InLines vars lines)
    (hrun : vars.foldlM extractVar (lines, rest) = .ok (lines', rest')) :
    Leftover shared [] lines' rest' ∧ lines'.length = lines.length := by
  induction vars generalizing lines rest with
  | nil =>
    obtain ⟨rfl, rfl⟩ := Prod.mk.inj (Except.ok.inj hrun)
    exact ⟨h, rfl⟩
  | cons v vars ih =>
    obtain ⟨hv, hrest⟩ := List.forall_mem_cons.mp hvars
    rw [List.foldlM_cons] at hrun
    obtain ⟨⟨lines₁, rest₁⟩, hrun₁, hrun⟩ := bind_eq_ok hrun
    obtain ⟨e, -, htaken, -⟩ := extractVar_ok hv hrun₁
    obtain ⟨hleft, hlen⟩ := ih (h.step hv hrun₁) (htaken.inLines hrest) hrun
    exact ⟨hleft, hlen.trans htaken.length⟩

/-- The second pass: the rows of the remaining variables are emptied. -/
theorem exists_deleteVars (hvars : ∀ v ∈ vars, v.declStartLine < lines.length) :
    ∃ lines', vars.foldlM (fun lines var => setLine lines var.declStartLine []) lines = .ok lines' ∧
      lines'.length = lines.length ∧
      (∀ k, (∃ v ∈ vars, v.declStartLine = k) → lines'[k]? = some []) ∧
      ∀ k, (∀ v ∈ vars, v.declStartLine ≠ k) → lines'[k]? = lines[k]? := by
  induction vars generalizing lines with
  | nil => exact ⟨lines, rfl, rfl, by simp, fun k _ => rfl⟩
  | cons v vars ih =>
    obtain ⟨hv, hrest⟩ := List.forall_mem_cons.mp hvars
    obtain ⟨lines', hrun, hlen, hgone, hframe⟩ := @ih (lines.set v.declStartLine [])
      (fun u hu => by rw [List.length_set]; exact hrest u hu)
    refine ⟨lines', ?_, by rw [hlen, List.length_set], fun k hk => ?_, fun k hk => ?_⟩
    · rw [List.foldlM_cons, setLine_eq hv]
      exact hrun
    · -- the row may be emptied once more below
      by_cases hlater : ∃ u ∈ vars, u.declStartLine = k
      · exact hgone k hlater
      · obtain ⟨u, hu, rfl⟩ := hk
        rcases List.mem_cons.mp hu with rfl | hu
        · rw [hframe _ fun w hw heq => hlater ⟨w, hw, heq⟩, List.getElem?_set_self hv]
        · exact absurd ⟨u, hu, rfl⟩ hlater
    · obtain ⟨hkv, hkrest⟩ := List.forall_mem_cons.mp hk
      rw [hframe k hkrest, List.getElem?_set_ne hkv]

/-- The third pass: the declarations are added. -/
theorem exists_declareVars (hvars : ∀ v ∈ vars, v.declStartLine < lines.length)
    (hdecl : ∀ v ∈ vars, v.declStr.isSome = true) :
    ∃ lines', vars.foldlM declareVar lines = .ok lines' ∧
      ∀ k, lines'[k]? = lines[k]?.map (· ++ declsAt vars k) := by
  induction vars generalizing lines with
  | nil =>
    refine ⟨lines, rfl, fun k => ?_⟩
    have hid : (· ++ declsAt [] k) = (id : Line → Line) := funext fun row => List.append_nil row
    rw [hid, Option.map_id_apply]
  | cons v vars ih =>
    obtain ⟨hv, hrest⟩ := List.forall_mem_cons.mp hvars
    obtain ⟨hsome, hdecl⟩ := List.forall_mem_cons.mp hdecl
    obtain ⟨d, hd⟩ := Option.isSome_iff_exists.mp hsome
    obtain ⟨lines', hrun, hrows⟩ := @ih (lines.modify v.declStartLine (· ++ declText v))
      (fun u hu => by rw [List.length_modify]; exact hrest u hu) hdecl
    refine ⟨lines', ?_, fun k => ?_⟩
    · rw [List.foldlM_cons, declareVar, hd]
      show (appendLine lines v.declStartLine (declText v) >>= _) = _
      rw [appendLine_eq hv]
      exact hrun
    · rw [hrows k, List.getElem?_modify]
      cases lines[k]? with
      | none => rfl
      | some row =>
        by_cases hk : v.declStartLine = k
        · simp [declsAt, hk]
        · simp [declsAt, hk]

end Passes

/-! ### The rest of the file -/

/-- The rest of the file stays: `var_extract` ends, and a row that must stay is as before, but
for the word `__used` in rows with the name of a private static variable, behind those words
`static` that are part of the definition of one (`own`, by row and column). -/
def RestStays (keep : ℕ → Prop) (own : ℕ → ℕ → Prop) (statics shared : List VarProp)
    (lines : List Line) : Prop :=
  ∃ lines', varExtract statics shared lines = .ok lines' ∧
    ∀ k row, keep k → lines[k]? = some row → ∃ row', lines'[k]? = some row' ∧
      UsedAdded (own k) row row' ∧ ((∀ u ∈ statics, u.nameLoc.1 ≠ k) → row' = row)

/-- In a row that must stay and has the name of a private variable, each `static` is part of
the definition of one. -/
def OwnStatic (keep : ℕ → Prop) (own : ℕ → ℕ → Prop) (statics : List VarProp)
    (lines : List Line) : Prop :=
  ∀ u ∈ statics, keep u.nameLoc.1 → ∀ row, lines[u.nameLoc.1]? = some row →
    ∀ c, "static ".toList <+: row.drop c → own u.nameLoc.1 c

/-- The variables lie in the file as the compiler reports, and shared ones have a
declaration.  The rows that must stay, for something else stands on them, are not empty, and do
not look like the declarations of shared variables that start there. -/
structure VarLayout (keep : ℕ → Prop) (own : ℕ → ℕ → Prop) (statics shared : List VarProp)
    (lines : List Line) : Prop where
  statics : ∀ u ∈ statics, u.nameLoc.1 < lines.length
  inLines : InLines shared lines
  declared : ∀ v ∈ shared, v.declStr.isSome = true
  nonempty : ∀ k, keep k → ∃ row, lines[k]? = some row ∧ row ≠ []
  other : ∀ v ∈ shared, keep v.declStartLine → ∀ row row', lines[v.declStartLine]? = some row →
    UsedAdded (own v.declStartLine) row row' → ¬ Rewritten shared v.declStartLine row'

section Main

variable {keep : ℕ → Prop} {statics shared rest vars : List VarProp}
  {lines lines₀ lines' : List Line}

/-- The rows after the last two passes. -/
theorem exists_passes (hvars : ∀ v ∈ rest, v.declStartLine < lines.length)
    (hdecl : ∀ v ∈ rest, v.declStr.isSome = true) :
    ∃ lines',
      (rest.foldlM (fun lines var => setLine lines var.declStartLine []) lines >>= fun lines =>
        rest.foldlM declareVar lines) = .ok lines' ∧
      (∀ k, (∃ v ∈ rest, v.declStartLine = k) → lines'[k]? = some (declsAt rest k)) ∧
      ∀ k, (∀ v ∈ rest, v.declStartLine ≠ k) → lines'[k]? = lines[k]? := by
  obtain ⟨lines₁, hrun₁, hlen₁, hgone, hframe⟩ := exists_deleteVars hvars
  obtain ⟨lines', hrun, hrows⟩ := exists_declareVars
    (fun v hv => by rw [hlen₁]; exact hvars v hv : ∀ v ∈ rest, v.declStartLine < lines₁.length)
    hdecl
  refine ⟨lines', by rw [hrun₁]; exact hrun, fun k hk => ?_, fun k hk => ?_⟩
  · rw [hrows, hgone k hk]
    rfl
  · -- no declaration is added here
    have hnone : rest.filter (·.declStartLine = k) = [] :=
      List.filter_eq_nil_iff.mpr fun v hv => by simpa using hk v hv
    have hid : (· ++ declsAt rest k) = (id : Line → Line) := by
      funext row
      rw [declsAt, hnone]
      exact List.append_nil row
    rw [hrows, hframe k hk, hid, Option.map_id_apply]

/-- The loop over the shared variables and the passes below it: rows on which no definition
starts are as the loop leaves them, the others are rewritten. -/
theorem exists_rewritten (hin : InLines shared lines₀)
    (hdecl : ∀ v ∈ shared, v.declStr.isSome = true)
    {lines₁ : List Line} (hrun : shared.foldlM extractVar (lines₀, shared) = .ok (lines₁, rest)) :
    ∃ lines', (rest.foldlM (fun lines var => setLine lines var.declStartLine []) lines₁ >>=
        fun lines => rest.foldlM declareVar lines) = .ok lines' ∧
      (∀ k, (∀ v ∈ shared, v.declStartLine ≠ k) → lines'[k]? = lines₁[k]?) ∧
      ∀ v ∈ shared, ∃ row, lines'[v.declStartLine]? = some row ∧
        Rewritten shared v.declStartLine row := by
  have hstart : Leftover shared shared lines₀ shared :=
    ⟨fun _ => le_rfl, List.Sublist.refl shared, fun v hv => Or.inl hv⟩
  obtain ⟨hleft, hlen⟩ := hstart.run hin hrun
  have hsub : ∀ v ∈ rest, v ∈ shared := fun v hv => hleft.sub.subset hv
  have hvars : ∀ v ∈ rest, v.declStartLine < lines₁.length := by
    intro v hv
    have hrows := hin v (hsub v hv)
    omega
  obtain ⟨lines', hpasses, hlisted, hframe⟩ := exists_passes hvars fun v hv => hdecl v (hsub v hv)
  refine ⟨lines', hpasses, fun k hk => hframe k fun v hv => hk v (hsub v hv), fun v hv => ?_⟩
  by_cases hrest : ∃ u ∈ rest, u.declStartLine = v.declStartLine
  · exact ⟨_, hlisted _ hrest, Or.inl ⟨rest, hleft.sub, rfl⟩⟩
  · rcases hleft.done v hv with htodo | hlist | ⟨row, hrow, hshape⟩
    · cases htodo
    · exact absurd hlist hrest
    · refine ⟨row, (hframe _ fun u hu heq => hrest ⟨u, hu, heq⟩).trans hrow, ?_⟩
      rcases hshape with rfl | hhas
      · exact Or.inl ⟨[], List.nil_sublist shared, rfl⟩
      · exact Or.inr hhas

/-- The private variables leave all semicolons where they are. -/
theorem ends_of_used {n : ℕ → ℕ} (hlen : lines₀.length = lines.length)
    (hrows : ∀ k row, lines[k]? = some row →
      ∃ row', lines₀[k]? = some row' ∧ UsedEverywhere (n k) row row') :
    ends lines₀ = ends lines := by
  ext k
  rw [mem_ends, mem_ends]
  cases hrow : lines[k]? with
  | none =>
    have hnone : lines₀[k]? = none := by
      rw [List.getElem?_eq_none_iff] at hrow ⊢
      omega
    simp [hnone]
  | some row =>
    obtain ⟨row', hrow', hused⟩ := hrows k row hrow
    simp [hrow', hused.usedAdded.semi_iff]

/-- The passes behind the first one. -/
theorem varExtract_eq_ok_iff (hrun₀ : statics.foldlM addUsed lines = .ok lines₀) :
    varExtract statics shared lines = .ok lines' ↔
      ∃ lines₁ rest, shared.foldlM extractVar (lines₀, shared) = .ok (lines₁, rest) ∧
        (rest.foldlM (fun lines var => setLine lines var.declStartLine []) lines₁ >>=
          fun lines => rest.foldlM declareVar lines) = .ok lines' := by
  rw [varExtract, hrun₀]
  show (shared.foldlM extractVar (lines₀, shared) >>= _) = _ ↔ _
  constructor
  · intro hall
    obtain ⟨⟨lines₁, rest⟩, hloop, hpasses⟩ := bind_eq_ok hall
    exact ⟨lines₁, rest, hloop, hpasses⟩
  · rintro ⟨lines₁, rest, hloop, hpasses⟩
    rw [hloop]
    exact hpasses

end Main

section Apart

variable {keep : ℕ → Prop} {ends : Finset ℕ} {vars : List VarProp} {stop : VarProp → ℕ}

theorem nextEnd_of_mem {var : VarProp} (h : var.declStartLine ∈ ends) :
    NextEnd ends var var.declStartLine :=
  ⟨h, le_rfl, fun hout => lt_irrefl _ hout.1, fun _ _ hge _ => hge⟩

/-- Definitions that take in different rows, or start on the same one, are joined as if each
were the only one, in whatever order: a variable that shares its start with an earlier one
finds the semicolon there. -/
theorem joins_of_apart (hge : ∀ v ∈ vars, v.declStartLine ≤ stop v)
    (hnext : ∀ v ∈ vars, NextEnd ends v (stop v) ∨ v.declStartLine ∈ ends)
    (hkeep : ∀ v ∈ vars, ∀ k, Takes v (stop v) k → ¬ keep k)
    (hapart : ∀ v ∈ vars, ∀ w ∈ vars, v.declStartLine = w.declStartLine ∨
      ∀ k, Takes v (stop v) k → ¬ Takes w (stop w) k) : Joins keep ends vars := by
  induction vars generalizing ends with
  | nil => exact .nil ends
  | cons v vars ih =>
    have hv : v ∈ v :: vars := List.mem_cons_self
    obtain ⟨e, hend, hle⟩ : ∃ e, NextEnd ends v e ∧ e ≤ stop v := by
      rcases hnext v hv with hend | hmem
      · exact ⟨stop v, hend, le_rfl⟩
      · exact ⟨v.declStartLine, nextEnd_of_mem hmem, hge v hv⟩
    have htakes : ∀ k, Takes v e k → Takes v (stop v) k := fun k htake =>
      ⟨htake.1, htake.2.imp_left hle.trans'⟩
    refine .cons hend (fun k htake => hkeep v hv k (htakes k htake)) (ih
      (fun w hw => hge w (List.mem_cons_of_mem v hw)) (fun w hw => ?_)
      (fun w hw => hkeep w (List.mem_cons_of_mem v hw))
      (fun w hw u hu => hapart w (List.mem_cons_of_mem v hw) u (List.mem_cons_of_mem v hu)))
    have hwv : w ∈ v :: vars := List.mem_cons_of_mem v hw
    -- what `w` finds after `v`
    rcases hapart v hv w hwv with hsame | hdiff
    · exact Or.inr (hsame ▸ Finset.mem_insert_self _ _)
    · rcases hnext w hwv with hendw | hmem
      · refine Or.inl ⟨?_, hendw.ge, hendw.out, fun k hk h1 h2 => ?_⟩
        · refine Finset.mem_insert_of_mem (Finset.mem_filter.mpr ⟨hendw.mem, fun htake => ?_⟩)
          exact hdiff _ (htakes _ htake) hendw.takes
        · rcases Finset.mem_insert.mp hk with rfl | hk
          · by_contra hlt
            exact hdiff _ ⟨le_rfl, Or.inl (hge v hv)⟩ ⟨h1, Or.inl (not_le.mp hlt).le⟩
          · exact hendw.first k (Finset.mem_filter.mp hk).1 h1 h2
      · refine Or.inr (Finset.mem_insert_of_mem (Finset.mem_filter.mpr ⟨hmem, fun htake => ?_⟩))
        exact hdiff _ (htakes _ htake) ⟨le_rfl, Or.inl (hge w hwv)⟩

end Apart

/-! ### Two declarators -/

/-- A declaration with two declarators on two rows, and a private variable below. -/
def twoDeclarators : List Line :=
  ["static int a,\n".toList, "\tb;\n".toList, "static int c;\n".toList]

/-- A static variable, defined in the row of its name. -/
def intVar (name : String) (row : ℕ) : VarProp where
  name := name
  file := "kernel/sched/core.c"
  nameLoc := (row, 11)
  declStartLine := row
  external := false
  isPublic := false
  declStr := some ("extern int " ++ name ++ ";").toList

/-- The row of `c` must stay, with the `static` of `c` in front. -/
theorem varLayout_two {shared : List VarProp}
    (h : ∀ v ∈ shared, v = intVar "a" 0 ∨ v = intVar "b" 1) :
    VarLayout (· = 2) (fun k c => k = 2 ∧ c = 0) [intVar "c" 2] shared twoDeclarators where
  statics u hu := by
    obtain rfl := List.mem_singleton.mp hu
    exact (by decide : 2 < 3)
  inLines v hv := by
    rcases h v hv with rfl | rfl
    · exact ⟨le_rfl, (by decide : 0 < 3)⟩
    · exact ⟨le_rfl, (by decide : 1 < 3)⟩
  declared v hv := by
    rcases h v hv with rfl | rfl
    · rfl
    · rfl
  nonempty k hk := by
    obtain rfl : k = 2 := hk
    exact ⟨_, rfl, List.cons_ne_nil _ _⟩
  other v hv hk := by
    rcases h v hv with rfl | rfl
    · exact absurd hk (by decide)
    · exact absurd hk (by decide)

/-- A function in the row of a private variable is made `__used` as well. -/
example : varExtract [intVar "depth" 0] []
    ["static int depth; static int get(void) { return depth; }\n".toList] = .ok
      ["static __used int depth; static __used int get(void) { return depth; }\n".toList] := by
  rfl

end Plugsched
