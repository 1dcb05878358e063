/-
Texts as lists of characters, and what Python's string methods do with them.

* `strip`, `squeeze` — white space at the ends, and everywhere;
* `replaceAll` — every occurrence of a pattern, from the left, without overlaps;
  `filter_replaceAll`, `replaceAll_eq_self_iff`, `replaceAll_append`: what it keeps,
  when it does nothing, and where a text may be cut in front of it;
* `words`, `words_append`, `isWord_of_mem_words` — the parts of a line between blanks;
* `infix_append_cons_iff`, `infix_around` — patterns in a line that is cut at a separator;
* `rows`, `squeezeLines` — a part of a file, and the text of a file, white space apart.
-/
import Mathlib.Data.List.Infix

namespace TextLines

abbrev Line := List Char

/-! ### White space -/

/-- The characters that `str.strip` removes. -/
def isSpace (c : Char) : Bool :=
  (9 ≤ c.toNat && c.toNat ≤ 13) || (28 ≤ c.toNat && c.toNat ≤ 32) || c.toNat == 0x85 ||
    c.toNat == 0xa0 || c.toNat == 0x1680 || (0x2000 ≤ c.toNat && c.toNat ≤ 0x200a) ||
    c.toNat == 0x2028 || c.toNat == 0x2029 || c.toNat == 0x202f || c.toNat == 0x205f ||
    c.toNat == 0x3000

/-- `s.strip()`. -/
def strip (s : Line) : Line :=
  ((s.dropWhile isSpace).reverse.dropWhile isSpace).reverse

/-- The text without its white space. -/
def squeeze (s : Line) : Line := s.filter fun c => !isSpace c

@[simp] theorem squeeze_nil : squeeze [] = [] := rfl

@[simp] theorem squeeze_append (s t : Line) : squeeze (s ++ t) = squeeze s ++ squeeze t :=
  List.filter_append s t

theorem squeeze_dropWhile (s : Line) : squeeze (s.dropWhile isSpace) = squeeze s := by
  induction s with
  | nil => rfl
  | cons c s ih =>
    rw [List.dropWhile_cons]
    split
    · next hspace => rw [ih, squeeze, squeeze, List.filter_cons_of_neg (by simp [hspace])]
    · rfl

theorem squeeze_reverse (s : Line) : squeeze s.reverse = (squeeze s).reverse := by
  rw [squeeze, List.filter_reverse, squeeze]

/-- Only white space is stripped. -/
@[simp] theorem squeeze_strip (s : Line) : squeeze (strip s) = squeeze s := by
  rw [strip, squeeze_reverse, squeeze_dropWhile, squeeze_reverse, List.reverse_reverse,
    squeeze_dropWhile]

/-- A text of white space. -/
theorem squeeze_eq_nil_iff {s : Line} : squeeze s = [] ↔ ∀ c ∈ s, isSpace c = true := by
  simp [squeeze, List.filter_eq_nil_iff]

/-! ### Words -/

/-- The parts of a split text have none of the characters at which it is split. -/
theorem of_mem_splitOnP {p : Char → Bool} {s w : Line} (h : w ∈ s.splitOnP p) :
    ∀ c ∈ w, p c = false := by
  induction s generalizing w with
  | nil =>
    rw [List.splitOnP_nil, List.mem_singleton] at h
    simp [h]
  | cons d s ih =>
    rw [List.splitOnP_cons_eq_if_modifyHead] at h
    by_cases hd : p d = true
    · rw [if_pos hd] at h
      rcases List.mem_cons.mp h with rfl | h
      · simp
      · exact ih h
    · rw [if_neg hd] at h
      obtain ⟨first, rest, hsplit⟩ := List.exists_cons_of_ne_nil (List.splitOnP_ne_nil p s)
      rw [hsplit, List.modifyHead_cons] at h
      rcases List.mem_cons.mp h with rfl | h
      · rw [Bool.not_eq_true] at hd
        exact List.forall_mem_cons.mpr ⟨hd, ih (hsplit ▸ List.mem_cons_self)⟩
      · exact ih (hsplit ▸ List.mem_cons_of_mem first h)

def isBlank (c : Char) : Bool := c == ' ' || c == '\t'

/-- The parts of a line between blanks, as `awk` counts them. -/
def words (s : Line) : List Line := (s.splitOnP isBlank).filter fun w => w ≠ []

/-- A part of a line between blanks. -/
def IsWord (w : Line) : Prop := w ≠ [] ∧ ∀ c ∈ w, isBlank c = false

instance (w : Line) : Decidable (IsWord w) := inferInstanceAs (Decidable (_ ∧ _))

theorem words_of_isWord {w : Line} (h : IsWord w) : words w = [w] := by
  rw [words, List.splitOnP_eq_singleton h.2]
  simp [h.1]

theorem words_append {w : Line} (h : IsWord w) (s : Line) :
    words (w ++ ' ' :: s) = w :: words s := by
  have hsplit : (w ++ ' ' :: s).splitOnP isBlank = w :: s.splitOnP isBlank := by
    rw [List.splitOnP_append_cons w s rfl, List.splitOnP_eq_singleton h.2]
    rfl
  rw [words, hsplit, words]
  simp [h.1]

theorem isWord_of_mem_words {w s : Line} (h : w ∈ words s) : IsWord w := by
  obtain ⟨hsplit, hne⟩ := List.mem_filter.mp h
  exact ⟨of_decide_eq_true hne, of_mem_splitOnP hsplit⟩

theorem infix_of_mem_splitOnP {p : Char → Bool} {w : Line} (s : Line) (h : w ∈ s.splitOnP p) :
    w <:+: s := by
  by_cases hcut : ∃ c ∈ s, p c = true
  · obtain ⟨c, hc, hp⟩ := hcut
    obtain ⟨a, b, rfl⟩ := List.append_of_mem hc
    rw [List.splitOnP_append_cons a b hp, List.mem_append] at h
    rcases h with h | h
    · exact (infix_of_mem_splitOnP a h).trans (List.prefix_append a (c :: b)).isInfix
    · have hsuffix : b <:+ a ++ c :: b := (List.suffix_cons c b).trans (List.suffix_append a _)
      exact (infix_of_mem_splitOnP b h).trans hsuffix.isInfix
  · have hnone : ∀ c ∈ s, p c = false := fun c hc =>
      Bool.eq_false_iff.mpr fun hp => hcut ⟨c, hc, hp⟩
    rw [List.splitOnP_eq_singleton hnone, List.mem_singleton] at h
    rw [h]
termination_by s.length

theorem infix_of_mem_words {w s : Line} (h : w ∈ words s) : w <:+: s :=
  infix_of_mem_splitOnP s (List.mem_of_mem_filter h)

theorem words_append_blank (s t : Line) : words (s ++ ' ' :: t) = words s ++ words t := by
  have hsplit : (s ++ ' ' :: t).splitOnP isBlank = s.splitOnP isBlank ++ t.splitOnP isBlank :=
    List.splitOnP_append_cons s t rfl
  rw [words, hsplit, List.filter_append]
  rfl

/-! ### Patterns -/

section Patterns

variable {p s t pre post : Line} {c : Char}

/-- A pattern without the separator stands on one side of it. -/
theorem infix_append_cons_iff (hc : c ∉ p) : p <:+: s ++ c :: t ↔ p <:+: s ∨ p <:+: t := by
  constructor
  · rintro ⟨front, back, heq⟩
    rw [List.append_assoc, List.append_eq_append_iff] at heq
    rcases heq with ⟨mid, rfl, hmid⟩ | ⟨mid, rfl, hmid⟩
    · -- the front ends before the separator
      rw [List.append_eq_append_iff] at hmid
      rcases hmid with ⟨mid', rfl, hmid'⟩ | ⟨mid', rfl, hmid'⟩
      · exact .inl ⟨front, mid', by simp⟩
      · cases mid' with
        | nil => exact .inl ⟨front, [], by simp⟩
        | cons c' mid' =>
          obtain ⟨rfl, -⟩ := List.cons.inj hmid'
          exact absurd (List.mem_append_right _ List.mem_cons_self) hc
    · cases mid with
      | nil =>
        cases p with
        | nil => exact .inl List.nil_infix
        | cons c' p =>
          obtain ⟨rfl, -⟩ := List.cons.inj hmid
          exact absurd List.mem_cons_self hc
      | cons c' mid =>
        obtain ⟨-, rfl⟩ := List.cons.inj hmid
        exact .inr ⟨mid, back, by simp⟩
  · rintro (h | h)
    · exact h.trans (List.prefix_append _ _).isInfix
    · exact h.trans ⟨s ++ [c], [], by simp⟩

/-- A pattern with the separator in it stands around the last one, or in front of it. -/
theorem infix_around (ht : c ∉ t) (h : pre ++ c :: post <:+: s ++ c :: t) :
    pre ++ [c] <:+: s ∨ (pre <:+ s ∧ post <+: t) := by
  obtain ⟨front, back, heq⟩ := h
  have hcut : (front ++ pre) ++ c :: (post ++ back) = s ++ c :: t := by
    rw [← heq]
    simp
  rw [List.append_eq_append_iff] at hcut
  rcases hcut with ⟨mid, hs, hmid⟩ | ⟨mid, hpre, hmid⟩
  · cases mid with
    | nil =>
      obtain ⟨-, htail⟩ := List.cons.inj hmid
      refine .inr ⟨⟨front, ?_⟩, ⟨back, htail⟩⟩
      rw [hs, List.append_nil]
    | cons c' mid =>
      obtain ⟨rfl, -⟩ := List.cons.inj hmid
      exact .inl ⟨front, mid, by rw [hs]; simp⟩
  · cases mid with
    | nil =>
      obtain ⟨-, htail⟩ := List.cons.inj hmid
      refine .inr ⟨⟨front, ?_⟩, ⟨back, htail.symm⟩⟩
      rw [hpre, List.append_nil]
    | cons c' mid =>
      -- the separator of the pattern would stand behind the last one
      obtain ⟨-, rfl⟩ := List.cons.inj hmid
      exact absurd (List.mem_append_right _ List.mem_cons_self) ht

end Patterns

/-! ### Replacement -/

/-- The scan of `replace` for a pattern that is not empty; `skip` characters belong to
the occurrence just replaced. -/
def replaceFrom (old new : Line) : ℕ → Line → Line
  | _, [] => []
  | skip + 1, _ :: s => replaceFrom old new skip s
  | 0, c :: s =>
    if old.isPrefixOf (c :: s) then new ++ replaceFrom old new (old.length - 1) s
    else c :: replaceFrom old new 0 s

/-- `s.replace(old, new)`. -/
def replaceAll (old new s : Line) : Line :=
  if old = [] then new ++ s.flatMap fun c => c :: new else replaceFrom old new 0 s

section Replace

variable {old new : Line}

theorem replaceFrom_skip (skip : ℕ) (s : Line) :
    replaceFrom old new skip s = replaceFrom old new 0 (s.drop skip) := by
  induction s generalizing skip with
  | nil =>
    rw [List.drop_nil]
    cases skip <;> rfl
  | cons c s ih =>
    cases skip with
    | zero => rfl
    | succ skip => exact ih skip

@[simp] theorem replaceAll_nil (hold : old ≠ []) : replaceAll old new [] = [] := by
  rw [replaceAll, if_neg hold]
  rfl

/-- An occurrence at the front. -/
theorem replaceAll_hit (hold : old ≠ []) (s : Line) :
    replaceAll old new (old ++ s) = new ++ replaceAll old new s := by
  rw [replaceAll, replaceAll, if_neg hold, if_neg hold]
  cases old with
  | nil => exact absurd rfl hold
  | cons c old =>
    rw [List.cons_append, replaceFrom, if_pos, replaceFrom_skip]
    · simp
    · rw [List.isPrefixOf_iff_prefix]
      exact List.prefix_append (c :: old) s

theorem replaceAll_cons (hold : old ≠ []) {c : Char} {s : Line} (h : ¬ old <+: c :: s) :
    replaceAll old new (c :: s) = c :: replaceAll old new s := by
  rw [replaceAll, replaceAll, if_neg hold, if_neg hold, replaceFrom, if_neg]
  rwa [List.isPrefixOf_iff_prefix]

/-- Induction along the scan: at the end, at an occurrence, at another character. -/
theorem replace_induction {P : Line → Prop} (hold : old ≠ []) (nil : P [])
    (hit : ∀ s, P s → P (old ++ s)) (skip : ∀ c s, ¬ old <+: c :: s → P s → P (c :: s)) (s : Line) :
    P s := by
  induction hn : s.length using Nat.strong_induction_on generalizing s with
  | _ n ih =>
    subst hn
    cases s with
    | nil => exact nil
    | cons c s =>
      by_cases hpre : old <+: c :: s
      · obtain ⟨t, ht⟩ := hpre
        have hlen : t.length < (c :: s).length := by
          have hpos := List.length_pos_iff.mpr hold
          rw [← ht, List.length_append]
          omega
        rw [← ht]
        exact hit t (ih _ hlen t rfl)
      · exact skip c s hpre (ih _ (Nat.lt_succ_self _) s rfl)

/-- What the pattern and the replacement agree on is kept. -/
theorem filter_replaceAll (p : Char → Bool) (hold : old ≠ []) (h : old.filter p = new.filter p)
    (s : Line) : (replaceAll old new s).filter p = s.filter p := by
  induction s using replace_induction hold with
  | nil => rw [replaceAll_nil hold]
  | hit s ih => rw [replaceAll_hit hold, List.filter_append, List.filter_append, ih, h]
  | skip c s hc ih => rw [replaceAll_cons hold hc, List.filter_cons, List.filter_cons, ih]

theorem length_le_replaceAll (new : Line) (hold : old ≠ []) (hlen : old.length ≤ new.length)
    (s : Line) :
    s.length ≤ (replaceAll old new s).length := by
  induction s using replace_induction hold with
  | nil => exact Nat.zero_le _
  | hit s ih =>
    rw [replaceAll_hit hold, List.length_append, List.length_append]
    omega
  | skip c s hc ih =>
    rw [replaceAll_cons hold hc, List.length_cons, List.length_cons]
    omega

theorem infix_cons_iff_skip {c : Char} {s : Line} (h : ¬ old <+: c :: s) :
    old <:+: c :: s ↔ old <:+: s := by
  rw [List.infix_cons_iff]
  exact or_iff_right h

theorem replaceAll_ne_nil (hnew : new ≠ []) {s : Line} (h : s ≠ []) :
    replaceAll old new s ≠ [] := by
  by_cases hold : old = []
  · rw [replaceAll, if_pos hold]
    exact List.append_ne_nil_of_left_ne_nil hnew _
  · induction s using replace_induction hold with
    | nil => exact absurd rfl h
    | hit s ih =>
      rw [replaceAll_hit hold]
      exact List.append_ne_nil_of_left_ne_nil hnew _
    | skip c s hc ih =>
      rw [replaceAll_cons hold hc]
      exact List.cons_ne_nil c _

theorem replaceAll_self (hold : old ≠ []) (s : Line) : replaceAll old old s = s := by
  induction s using replace_induction hold with
  | nil => exact replaceAll_nil hold
  | hit s ih => rw [replaceAll_hit hold, ih]
  | skip c s hc ih => rw [replaceAll_cons hold hc, ih]

theorem length_replaceAll_le (new : Line) (hold : old ≠ []) (hlen : new.length ≤ old.length)
    (s : Line) :
    (replaceAll old new s).length ≤ s.length := by
  induction s using replace_induction hold with
  | nil => rw [replaceAll_nil hold]
  | hit s ih =>
    rw [replaceAll_hit hold, List.length_append, List.length_append]
    omega
  | skip c s hc ih =>
    rw [replaceAll_cons hold hc, List.length_cons, List.length_cons]
    omega

/-- A replacement by something else does nothing exactly if there is no occurrence. -/
theorem replaceAll_eq_self_iff_of_ne (hold : old ≠ []) (hne : new ≠ old) (s : Line) :
    replaceAll old new s = s ↔ ¬ old <:+: s := by
  induction s using replace_induction hold with
  | nil =>
    rw [replaceAll_nil hold, List.infix_nil]
    exact iff_of_true rfl hold
  | hit s ih =>
    refine iff_of_false (fun heq => ?_) (not_not.mpr (List.prefix_append old s).isInfix)
    -- a longer text cannot get shorter below, a shorter one not longer
    have hsame := congrArg List.length heq
    rw [replaceAll_hit hold] at heq hsame
    rw [List.length_append, List.length_append] at hsame
    rcases lt_trichotomy new.length old.length with hlt | hlen | hlt
    · have hle := length_replaceAll_le new hold hlt.le s
      omega
    · exact hne (List.append_inj heq hlen).1
    · have hle := length_le_replaceAll new hold hlt.le s
      omega
  | skip c s hc ih =>
    rw [replaceAll_cons hold hc, infix_cons_iff_skip hc, List.cons.injEq, ← ih]
    exact and_iff_right rfl

/-- A replacement by something longer does nothing exactly if there is no occurrence. -/
theorem replaceAll_eq_self_iff (hold : old ≠ []) (hlen : old.length < new.length) (s : Line) :
    replaceAll old new s = s ↔ ¬ old <:+: s :=
  replaceAll_eq_self_iff_of_ne hold (fun heq => by simp [heq] at hlen) s

/-- No occurrence reaches from `s` into `t`. -/
def Separated (old s t : Line) : Prop :=
  ∀ x y, x ≠ [] → y ≠ [] → x ++ y = old → x <:+ s → ¬ y <+: t

/-- No occurrence reaches over a character that the pattern lacks. -/
theorem separated_cons {c : Char} (h : c ∉ old) (s t : Line) : Separated old s (c :: t) := by
  intro x y _ hy hxy _ hpre
  obtain ⟨d, rest, rfl⟩ := List.exists_cons_of_ne_nil hy
  obtain ⟨tail, htail⟩ := hpre
  obtain ⟨rfl, -⟩ := List.cons.inj htail
  rw [← hxy] at h
  exact h (List.mem_append_right x List.mem_cons_self)

/-- A text may be cut where no occurrence lies across. -/
theorem replaceAll_append (hold : old ≠ []) {s t : Line} (h : Separated old s t) :
    replaceAll old new (s ++ t) = replaceAll old new s ++ replaceAll old new t := by
  induction s using replace_induction hold with
  | nil => rw [replaceAll_nil hold, List.nil_append, List.nil_append]
  | hit s ih =>
    have hs : Separated old s t := fun x y hx hy hxy hsuf =>
      h x y hx hy hxy (hsuf.trans (List.suffix_append old s))
    rw [List.append_assoc, replaceAll_hit hold, replaceAll_hit hold, ih hs,
      List.append_assoc]
  | skip c s hc ih =>
    have hs : Separated old s t := fun x y hx hy hxy hsuf =>
      h x y hx hy hxy (hsuf.trans (List.suffix_cons c s))
    have hpre : ¬ old <+: c :: (s ++ t) := by
      intro hpre
      -- an occurrence at the front ends in `s`, or lies across
      by_cases hle : old.length ≤ (c :: s).length
      · exact hc (List.prefix_of_prefix_length_le hpre
          (by rw [← List.cons_append]; exact List.prefix_append (c :: s) t) hle)
      · have hfront : c :: s <+: old := by
          refine List.prefix_of_prefix_length_le ?_ hpre (by omega)
          rw [← List.cons_append]
          exact List.prefix_append (c :: s) t
        obtain ⟨y, rfl⟩ := hfront
        refine h (c :: s) y (List.cons_ne_nil c s) ?_ rfl (List.suffix_refl _) ?_
        · rintro rfl
          simp at hle
        · rw [← List.cons_append] at hpre
          exact (List.prefix_append_right_inj (c :: s)).mp hpre
    rw [List.cons_append, replaceAll_cons hold hpre, replaceAll_cons hold hc, ih hs,
      List.cons_append]

/-- A character that the pattern lacks stays, with the texts before and after it replaced. -/
theorem replaceAll_append_cons (hold : old ≠ []) {c : Char} (h : c ∉ old) (s t : Line) :
    replaceAll old new (s ++ c :: t) = replaceAll old new s ++ c :: replaceAll old new t := by
  have hpre : ¬ old <+: c :: t := by
    rintro ⟨tail, htail⟩
    obtain ⟨d, rest, rfl⟩ := List.exists_cons_of_ne_nil hold
    obtain ⟨rfl, -⟩ := List.cons.inj htail
    exact h List.mem_cons_self
  rw [replaceAll_append hold (separated_cons h s t), replaceAll_cons hold hpre]

theorem disjoint_of_all {w : Line} (h : w.all (fun c => !old.contains c) = true) :
    ∀ c ∈ w, c ∉ old := by
  intro c hc hmem
  have hnot := List.all_eq_true.mp h c hc
  rw [List.contains_iff_mem.mpr hmem] at hnot
  cases hnot

theorem replaceAll_append_of_disjoint (hold : old ≠ []) {w : Line} (h : ∀ c ∈ w, c ∉ old)
    (t : Line) :
    replaceAll old new (w ++ t) = w ++ replaceAll old new t := by
  induction w with
  | nil => rfl
  | cons c w ih =>
    obtain ⟨hc, hw⟩ := List.forall_mem_cons.mp h
    have hsplit : replaceAll old new ([] ++ c :: (w ++ t)) = _ :=
      replaceAll_append_cons hold hc [] (w ++ t)
    rw [replaceAll_nil hold, List.nil_append, List.nil_append, ih hw] at hsplit
    exact hsplit

/-- A text that shares no character with the pattern stays. -/
theorem infix_replaceAll_of_disjoint (hold : old ≠ []) {w s : Line} (h : ∀ c ∈ w, c ∉ old)
    (hw : w <:+: s) : w <:+: replaceAll old new s := by
  cases w with
  | nil => exact List.nil_infix
  | cons c w =>
    obtain ⟨hc, hrest⟩ := List.forall_mem_cons.mp h
    obtain ⟨a, b, rfl⟩ := hw
    rw [List.append_assoc, List.cons_append, replaceAll_append_cons hold hc,
      replaceAll_append_of_disjoint hold hrest]
    exact ⟨replaceAll old new a, replaceAll old new b, by simp⟩

/-- Where the pattern stands, the replacement stands afterwards. -/
theorem infix_replaceAll (hold : old ≠ []) {s : Line} (h : old <:+: s) :
    new <:+: replaceAll old new s := by
  induction s using replace_induction hold with
  | nil => exact absurd (List.infix_nil.mp h) hold
  | hit s ih =>
    rw [replaceAll_hit hold]
    exact (List.prefix_append new _).isInfix
  | skip c s hc ih =>
    rw [replaceAll_cons hold hc]
    exact (ih ((infix_cons_iff_skip hc).mp h)).trans (List.suffix_cons c _).isInfix

/-- What is not in the pattern's replacement comes from the text. -/
theorem mem_replaceAll (hold : old ≠ []) {c : Char} {s : Line} (h : c ∈ replaceAll old new s) :
    c ∈ new ∨ c ∈ s := by
  induction s using replace_induction hold with
  | nil =>
    rw [replaceAll_nil hold] at h
    exact Or.inr h
  | hit s ih =>
    rw [replaceAll_hit hold] at h
    rcases List.mem_append.mp h with h | h
    · exact Or.inl h
    · exact (ih h).imp_right (List.mem_append_right old)
  | skip d s hd ih =>
    rw [replaceAll_cons hold hd] at h
    rcases List.mem_cons.mp h with rfl | h
    · exact Or.inr List.mem_cons_self
    · exact (ih h).imp_right (List.mem_cons_of_mem d)

/-- A text with an occurrence that may be cut in front of it is changed there alone
exactly if the parts before and after hold no other occurrence. -/
theorem replaceAll_eq_iff (hold : old ≠ []) (hlen : old.length < new.length) {s t : Line}
    (h : Separated old s (old ++ t)) :
    replaceAll old new (s ++ (old ++ t)) = s ++ (new ++ t) ↔ ¬ old <:+: s ∧ ¬ old <:+: t := by
  rw [replaceAll_append hold h, replaceAll_hit hold, ← replaceAll_eq_self_iff hold hlen,
    ← replaceAll_eq_self_iff hold hlen]
  -- no part gets shorter, so equal texts are equal part by part
  have hs := length_le_replaceAll new hold hlen.le s
  have ht := length_le_replaceAll new hold hlen.le t
  constructor
  · intro heq
    have hsame := congrArg List.length heq
    simp only [List.length_append] at hsame
    obtain ⟨hfront, hback⟩ := List.append_inj heq (by omega)
    exact ⟨hfront, List.append_cancel_left hback⟩
  · rintro ⟨hfront, hback⟩
    rw [hfront, hback]

end Replace

/-! ### Identifiers -/

/-- The characters of an identifier. -/
def isIdent (c : Char) : Bool := c.isAlphanum || c == '_'

/-- An identifier cannot be found across its own beginning. -/
theorem separated_of_isIdent {old s t : Line} (hold : ∀ c ∈ old, isIdent c = true)
    (hs : ∀ c, s.getLast? = some c → isIdent c = false) : Separated old s t := by
  intro x y hx _ hxy hsuf _
  obtain ⟨front, rfl⟩ := hsuf
  have hlast : (front ++ x).getLast? = some (x.getLast hx) := by
    rw [List.getLast?_append_of_ne_nil front hx, List.getLast?_eq_some_getLast hx]
  have hmem : x.getLast hx ∈ old := by
    rw [← hxy]
    exact List.mem_append_left y (List.getLast_mem hx)
  have hident := hold _ hmem
  rw [hs _ hlast] at hident
  cases hident

/-! ### Files -/

/-- The rows from `a` up to `b`. -/
def rows (lines : List Line) (a b : ℕ) : List Line := (lines.take b).drop a

theorem rows_zero (lines : List Line) (b : ℕ) : rows lines 0 b = lines.take b := rfl

theorem getElem?_rows (lines : List Line) (a b i : ℕ) :
    (rows lines a b)[i]? = if a + i < b then lines[a + i]? else none := by
  rw [rows, List.getElem?_drop, List.getElem?_take]

theorem rows_append (lines : List Line) {a b c : ℕ} (hab : a ≤ b) (hbc : b ≤ c) :
    rows lines a c = rows lines a b ++ rows lines b c := by
  have hsplit : lines.take c = lines.take b ++ (lines.take c).drop b := by
    conv_lhs => rw [← List.take_append_drop b (lines.take c)]
    rw [List.take_take, Nat.min_eq_left hbc]
  by_cases hlen : a ≤ (lines.take b).length
  · rw [rows, hsplit, List.drop_append_of_le_length hlen]
    rfl
  · -- the file ends before the first of the rows
    have hshort : lines.length < a := by
      rw [List.length_take] at hlen
      omega
    have hnil : ∀ x y, a ≤ x → rows lines x y = [] := by
      intro x y hx
      refine List.drop_eq_nil_of_le ?_
      rw [List.length_take]
      omega
    rw [hnil a c le_rfl, hnil a b le_rfl, hnil b c hab]
    rfl

/-- Equal rows. -/
theorem rows_congr (lines lines' : List Line) {a b : ℕ}
    (h : ∀ i, a ≤ i → i < b → lines[i]? = lines'[i]?) : rows lines a b = rows lines' a b := by
  refine List.ext_getElem? fun i => ?_
  rw [getElem?_rows, getElem?_rows]
  split
  · next hi => exact h (a + i) (by omega) hi
  · rfl

theorem rows_succ {lines : List Line} {a : ℕ} {line : Line} (h : lines[a]? = some line) :
    rows lines a (a + 1) = [line] := by
  refine List.ext_getElem? fun i => ?_
  rw [getElem?_rows]
  cases i with
  | zero => simpa using h
  | succ i =>
    rw [if_neg (by omega)]
    rfl

/-- The text of a file, white space apart. -/
def squeezeLines (lines : List Line) : Line := squeeze lines.flatten

@[simp] theorem squeezeLines_nil : squeezeLines [] = [] := rfl

@[simp] theorem squeezeLines_cons (line : Line) (lines : List Line) :
    squeezeLines (line :: lines) = squeeze line ++ squeezeLines lines := by
  rw [squeezeLines, List.flatten_cons, squeeze_append, squeezeLines]

@[simp] theorem squeezeLines_append (lines lines' : List Line) :
    squeezeLines (lines ++ lines') = squeezeLines lines ++ squeezeLines lines' := by
  rw [squeezeLines, List.flatten_append, squeeze_append, squeezeLines, squeezeLines]

theorem squeezeLines_eq_nil {lines : List Line} (h : ∀ line ∈ lines, squeeze line = []) :
    squeezeLines lines = [] := by
  induction lines with
  | nil => rfl
  | cons line lines ih =>
    obtain ⟨hline, hlines⟩ := List.forall_mem_cons.mp h
    rw [squeezeLines_cons, hline, ih hlines]
    rfl

end TextLines
