/-
Copies of a word, put in behind occurrences of another one.

* `InsertedAt` — behind occurrences in allowed columns, any number of copies;
* `InsertedAll` — behind every occurrence, one number of copies: what `replaceAll` does when
  it is run again and again (`InsertedAll.replaceAll`);
* `insertedAt_iff` — the second is a case of the first exactly if every occurrence stands in
  an allowed column.
-/
import Mathlib.Tactic.Common
import Plugsched.TextLines

open TextLines

namespace Insertions

variable {α : Type*} {old ins s s' t : List α} {own : ℕ → Prop} {col m : ℕ} {x : α}

/-- `n` copies of a word. -/
def copies (n : ℕ) (ins : List α) : List α := (List.replicate n ins).flatten

theorem copies_succ (n : ℕ) (ins : List α) : copies (n + 1) ins = ins ++ copies n ins := by
  rw [copies, List.replicate_succ, List.flatten_cons, copies]

theorem length_copies (n : ℕ) (ins : List α) : (copies n ins).length = n * ins.length := by
  simp [copies]

/-- `s'` is `s` from column `col` on, with copies of `ins` behind occurrences of `old` that
begin in a column of `own`. -/
inductive InsertedAt (old ins : List α) (own : ℕ → Prop) : ℕ → List α → List α → Prop
  | nil (col : ℕ) : InsertedAt old ins own col [] []
  | keep {col : ℕ} {s s' : List α} (x : α) (h : InsertedAt old ins own (col + 1) s s') :
      InsertedAt old ins own col (x :: s) (x :: s')
  | insert {col : ℕ} {s s' : List α} (n : ℕ) (hown : own col)
      (h : InsertedAt old ins own (col + old.length) s s') :
      InsertedAt old ins own col (old ++ s) (old ++ (copies n ins ++ s'))

/-- `s'` is `s` with `m` copies of `ins` behind every occurrence of `old`. -/
inductive InsertedAll (old ins : List α) (m : ℕ) : List α → List α → Prop
  | nil : InsertedAll old ins m [] []
  | skip {x : α} {s s' : List α} (hx : ¬ old <+: x :: s) (h : InsertedAll old ins m s s') :
      InsertedAll old ins m (x :: s) (x :: s')
  | hit {s s' : List α} (h : InsertedAll old ins m s s') :
      InsertedAll old ins m (old ++ s) (old ++ (copies m ins ++ s'))

/-- No occurrence of `old` begins inside another one, nor inside `ins`, whatever follows. -/
structure Distinct (old ins : List α) : Prop where
  old_ne : old ≠ []
  ins_ne : ins ≠ []
  inside_old : ∀ k, 0 < k → k < old.length → ¬ old.drop k <+: old
  inside_ins : ∀ k < ins.length, ¬ old <+: ins.drop k ∧ ¬ ins.drop k <+: old

theorem Distinct.not_prefix_old (h : Distinct old ins) {k : ℕ} (h0 : 0 < k) (hk : k < old.length)
    (s : List α) : ¬ old <+: (old ++ s).drop k := by
  intro hpre
  rw [List.drop_append_of_le_length hk.le] at hpre
  rcases List.prefix_or_prefix_of_prefix hpre (List.prefix_append (old.drop k) s) with
    hlong | hborder
  · have hlen := hlong.length_le
    rw [List.length_drop] at hlen
    omega
  · exact h.inside_old k h0 hk hborder

theorem Distinct.not_prefix_ins (h : Distinct old ins) {k : ℕ} (hk : k < ins.length)
    (s : List α) : ¬ old <+: (ins ++ s).drop k := by
  intro hpre
  rw [List.drop_append_of_le_length hk.le] at hpre
  rcases List.prefix_or_prefix_of_prefix hpre (List.prefix_append (ins.drop k) s) with
    hin | hout
  · exact (h.inside_ins k hk).1 hin
  · exact (h.inside_ins k hk).2 hout

/-! ### Occurrences -/

theorem prefix_append_iff_of_le {p q s : List α} (h : p.length ≤ q.length) :
    p <+: q ++ s ↔ p <+: q :=
  ⟨fun hp => List.prefix_of_prefix_length_le hp (List.prefix_append q s) h,
    fun hp => hp.trans (List.prefix_append q s)⟩

/-- Insertions leave what a text begins with, as far as parts of `old` go. -/
theorem InsertedAt.drop_prefix_iff (h : InsertedAt old ins own col s s') (k : ℕ) :
    old.drop k <+: s' ↔ old.drop k <+: s := by
  induction h generalizing k with
  | nil col => exact Iff.rfl
  | keep x h ih =>
    rcases Nat.lt_or_ge k old.length with hk | hk
    · rw [List.drop_eq_getElem_cons hk, List.cons_prefix_cons, List.cons_prefix_cons, ih]
    · rw [List.drop_eq_nil_of_le hk]
      exact iff_of_true List.nil_prefix List.nil_prefix
  | insert n hown h ih =>
    -- the part is not longer than the occurrence
    have hlen : (old.drop k).length ≤ old.length := by
      rw [List.length_drop]
      exact Nat.sub_le _ _
    rw [prefix_append_iff_of_le hlen, prefix_append_iff_of_le hlen]

theorem InsertedAt.prefix_iff (h : InsertedAt old ins own col s s') : old <+: s' ↔ old <+: s :=
  h.drop_prefix_iff 0

/-- A part in which no occurrence begins is kept. -/
theorem InsertedAt.peel {p r : List α} (hp : ∀ k < p.length, ¬ old <+: (p ++ r).drop k)
    (h : InsertedAt old ins own col (p ++ r) t) :
    ∃ r', t = p ++ r' ∧ InsertedAt old ins own (col + p.length) r r' := by
  induction p generalizing col t with
  | nil => exact ⟨t, rfl, h⟩
  | cons x p ih =>
    have hfront : ¬ old <+: (x :: p) ++ r := hp 0 (Nat.succ_pos _)
    generalize hs : (x :: p) ++ r = s at h
    cases h with
    | nil col => cases hs
    | @keep _ s s' y h =>
      obtain ⟨rfl, rfl⟩ := List.cons.inj hs
      obtain ⟨r', rfl, hr⟩ := ih (fun k hk => hp (k + 1) (Nat.succ_lt_succ hk)) h
      refine ⟨r', rfl, ?_⟩
      rwa [List.length_cons, Nat.add_comm p.length 1, ← Nat.add_assoc]
    | insert n hown h =>
      rw [hs] at hfront
      exact absurd (List.prefix_append _ _) hfront

section Front

variable [DecidableEq α]

/-- The text in front of the first occurrence of `old`. -/
def before (old : List α) : List α → List α
  | [] => []
  | x :: s => if old <+: x :: s then [] else x :: before old s

theorem before_eq_nil (h : old <+: s) : before old s = [] := by
  cases s with
  | nil => rfl
  | cons x s => rw [before, if_pos h]

theorem before_append {p : List α} (hp : ∀ k < p.length, ¬ old <+: (p ++ s).drop k) :
    before old (p ++ s) = p ++ before old s := by
  induction p with
  | nil => rfl
  | cons x p ih =>
    have hfront : ¬ old <+: x :: (p ++ s) := hp 0 (Nat.succ_pos _)
    rw [List.cons_append, before, if_neg hfront,
      ih fun k hk => hp (k + 1) (Nat.succ_lt_succ hk), List.cons_append]

theorem Distinct.before_copies (h : Distinct old ins) (n : ℕ) (s : List α) :
    before old (copies n ins ++ s) = copies n ins ++ before old s := by
  induction n with
  | zero => rfl
  | succ n ih =>
    rw [copies_succ, List.append_assoc, before_append fun k hk => h.not_prefix_ins hk _, ih,
      List.append_assoc]

theorem InsertedAt.before_eq (h : InsertedAt old ins own col s s') :
    before old s' = before old s := by
  induction h with
  | nil col => rfl
  | keep x h ih =>
    have hiff := (h.keep x).prefix_iff
    rw [before, before, ih]
    simp only [hiff]
  | insert n hown h ih =>
    rw [before_eq_nil (List.prefix_append _ _), before_eq_nil (List.prefix_append _ _)]

/-- Behind one occurrence the numbers of copies agree. -/
theorem Distinct.copies_inj (h : Distinct old ins) {own' : ℕ → Prop} {col' n : ℕ} {r r' : List α}
    (hs : InsertedAt old ins own col s r) (hs' : InsertedAt old ins own' col' s r')
    (heq : copies n ins ++ r = copies m ins ++ r') : n = m := by
  have hbefore := congrArg (fun t => (before old t).length) heq
  simp only [h.before_copies, hs.before_eq, hs'.before_eq, List.length_append,
    length_copies] at hbefore
  have hpos := List.length_pos_iff.mpr h.ins_ne
  exact Nat.eq_of_mul_eq_mul_right hpos (by omega)

end Front

/-! ### Everywhere, or in allowed columns -/

theorem InsertedAll.insertedAt (h : InsertedAll old ins m s s')
    (hown : ∀ i, old <+: s.drop i → own (col + i)) : InsertedAt old ins own col s s' := by
  induction h generalizing col with
  | nil => exact .nil col
  | @skip x s s' hx h ih =>
    refine .keep x (ih fun i hi => ?_)
    rw [Nat.add_assoc, Nat.add_comm 1 i]
    exact hown (i + 1) hi
  | @hit s s' h ih =>
    refine .insert m (hown 0 (List.prefix_append old s)) (ih fun i hi => ?_)
    rw [Nat.add_assoc]
    refine hown (old.length + i) ?_
    rwa [← List.drop_drop, List.drop_left]

/-- Where every occurrence has got copies, every occurrence stands in an allowed column. -/
theorem InsertedAll.own_of_insertedAt [DecidableEq α] (hd : Distinct old ins) (hm : 1 ≤ m)
    (h : InsertedAt old ins own col s s') (hall : InsertedAll old ins m s s') :
    ∀ i, old <+: s.drop i → own (col + i) := by
  have hany : ∀ {r r' : List α}, InsertedAll old ins m r r' →
      InsertedAt old ins (fun _ => True) 0 r r' := fun h => h.insertedAt fun _ _ => trivial
  induction h with
  | nil col =>
    intro i hi
    rw [List.drop_nil, List.prefix_nil] at hi
    exact absurd hi hd.old_ne
  | @keep col s s' x h ih =>
    intro i hi
    generalize hs : x :: s = u at hall hi
    generalize hs' : x :: s' = u' at hall
    cases hall with
    | nil => cases hs
    | @skip y r r' hx hall =>
      obtain ⟨rfl, rfl⟩ := List.cons.inj hs
      obtain ⟨-, rfl⟩ := List.cons.inj hs'
      cases i with
      | zero => exact absurd hi hx
      | succ i =>
        have hcol := ih hall i hi
        rwa [Nat.add_assoc, Nat.add_comm 1 i] at hcol
    | @hit r r' hall =>
      -- the occurrence has been passed by, and nothing put in behind it
      obtain ⟨y, p, hold⟩ := List.exists_cons_of_ne_nil hd.old_ne
      have hp : ∀ k < p.length, ¬ old <+: (p ++ r).drop k := by
        intro k hk hpre
        refine hd.not_prefix_old (Nat.succ_pos k) ?_ r ?_
        · rw [hold]
          exact Nat.succ_lt_succ hk
        · rwa [hold, List.cons_append, List.drop_succ_cons, ← hold]
      have hsr : s = p ++ r := by
        rw [hold] at hs
        exact (List.cons.inj hs).2
      have hsr' : s' = p ++ (copies m ins ++ r') := by
        rw [hold] at hs'
        exact (List.cons.inj hs').2
      rw [hsr, hsr'] at h
      obtain ⟨r₁, heq, hr₁⟩ := h.peel hp
      have hzero : copies 0 ins ++ r₁ = copies m ins ++ r' := (List.append_cancel_left heq).symm
      have hm0 := hd.copies_inj hr₁ (hany hall) hzero
      omega
  | @insert col s s' n hown h ih =>
    intro i hi
    obtain ⟨hnm, hrest⟩ : n = m ∧ InsertedAll old ins m s s' := by
      generalize hs : old ++ s = u at hall
      generalize hs' : old ++ (copies n ins ++ s') = u' at hall
      cases hall with
      | nil => exact absurd (List.append_eq_nil_iff.mp hs).1 hd.old_ne
      | skip hx hall => exact absurd (hs ▸ List.prefix_append old s) hx
      | @hit r r' hall =>
        obtain rfl := List.append_cancel_left hs
        have heq := List.append_cancel_left hs'
        obtain rfl := hd.copies_inj h (hany hall) heq
        obtain rfl := List.append_cancel_left heq
        exact ⟨rfl, hall⟩
    rcases Nat.eq_zero_or_pos i with rfl | hpos
    · exact hown
    rcases Nat.lt_or_ge i old.length with hlt | hge
    · exact absurd hi (hd.not_prefix_old hpos hlt s)
    · obtain ⟨j, rfl⟩ := Nat.exists_eq_add_of_le hge
      rw [← List.drop_drop, List.drop_left] at hi
      rw [← Nat.add_assoc]
      exact ih hrest j hi

/-- **Copies behind every occurrence** are copies in allowed columns exactly if every
occurrence begins in one. -/
theorem insertedAt_iff [DecidableEq α] (hd : Distinct old ins) (hm : 1 ≤ m)
    (hall : InsertedAll old ins m s s') :
    InsertedAt old ins own 0 s s' ↔ ∀ i, old <+: s.drop i → own i := by
  constructor
  · intro h i hi
    have hcol := InsertedAll.own_of_insertedAt hd hm h hall i hi
    rwa [Nat.zero_add] at hcol
  · intro hown
    refine hall.insertedAt fun i hi => ?_
    rw [Nat.zero_add]
    exact hown i hi

/-! ### What else is kept -/

theorem InsertedAt.refl (col : ℕ) (s : List α) : InsertedAt old ins own col s s := by
  induction s generalizing col with
  | nil => exact .nil col
  | cons x s ih => exact .keep x (ih (col + 1))

theorem InsertedAt.mem_iff (h : InsertedAt old ins own col s s') (hx : x ∉ ins) :
    x ∈ s' ↔ x ∈ s := by
  induction h with
  | nil col => exact Iff.rfl
  | keep y h ih => rw [List.mem_cons, List.mem_cons, ih]
  | insert n hown h ih =>
    have hcopies : x ∉ copies n ins := by
      intro hmem
      obtain ⟨w, hw, hmem⟩ := List.mem_flatten.mp hmem
      rw [List.eq_of_mem_replicate hw] at hmem
      exact hx hmem
    rw [List.mem_append, List.mem_append, List.mem_append, ih, or_iff_right hcopies]

theorem InsertedAt.eq_nil_iff (h : InsertedAt old ins own col s s') (hold : old ≠ []) :
    s' = [] ↔ s = [] := by
  cases h with
  | nil col => exact Iff.rfl
  | keep x h => exact iff_of_false (List.cons_ne_nil _ _) (List.cons_ne_nil _ _)
  | insert n hown h =>
    exact iff_of_false (List.append_ne_nil_of_left_ne_nil hold _)
      (List.append_ne_nil_of_left_ne_nil hold _)

/-- No copies change nothing. -/
theorem InsertedAll.eq_of_zero (h : InsertedAll old ins 0 s s') : s' = s := by
  induction h with
  | nil => rfl
  | skip hx h ih => rw [ih]
  | hit h ih =>
    rw [ih]
    rfl

/-! ### Replacing again and again -/

section Lines

variable {old ins s s' : Line} {m : ℕ}

theorem insertedAll_zero (hold : old ≠ []) (s : Line) : InsertedAll old ins 0 s s := by
  induction s using replace_induction hold with
  | nil => exact .nil
  | hit s ih => exact .hit ih
  | skip c s hc ih => exact .skip hc ih

theorem Distinct.replaceAll_copies (hd : Distinct old ins) (new : Line) (n : ℕ) (s : Line) :
    replaceAll old new (copies n ins ++ s) = copies n ins ++ replaceAll old new s := by
  have hskip : ∀ p : Line, (∀ k < p.length, ∀ t, ¬ old <+: (p ++ t).drop k) → ∀ t,
      replaceAll old new (p ++ t) = p ++ replaceAll old new t := by
    intro p
    induction p with
    | nil => exact fun _ _ => rfl
    | cons c p ih =>
      intro hp t
      have hfront : ¬ old <+: c :: (p ++ t) := hp 0 (Nat.succ_pos _) t
      rw [List.cons_append, replaceAll_cons hd.old_ne hfront,
        ih (fun k hk => hp (k + 1) (Nat.succ_lt_succ hk)), List.cons_append]
  induction n with
  | zero => rfl
  | succ n ih =>
    rw [copies_succ, List.append_assoc, hskip ins fun k hk t => hd.not_prefix_ins hk t, ih,
      List.append_assoc]

/-- One more replacement puts in one more copy. -/
theorem InsertedAll.replaceAll (hd : Distinct old ins) (h : InsertedAll old ins m s s') :
    InsertedAll old ins (m + 1) s (TextLines.replaceAll old (old ++ ins) s') := by
  induction h with
  | nil =>
    rw [replaceAll_nil hd.old_ne]
    exact .nil
  | @skip c s s' hc h ih =>
    have hat : InsertedAt old ins (fun _ => True) 0 (c :: s) (c :: s') :=
      (InsertedAll.skip hc h).insertedAt fun _ _ => trivial
    rw [replaceAll_cons hd.old_ne fun hpre => hc (hat.prefix_iff.mp hpre)]
    exact .skip hc ih
  | @hit s s' h ih =>
    rw [replaceAll_hit hd.old_ne, hd.replaceAll_copies, List.append_assoc, ← List.append_assoc ins,
      ← copies_succ]
    exact .hit ih

end Lines

end Insertions
