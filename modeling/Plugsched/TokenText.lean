/-
Searching a text that is made of tokens of one width.

The tokens are spelt with letters, all of them with equally many, and joined by a
separator that is no letter.  A search for spelt tokens finds them where they are: an
offset in the text counts tokens.

* `join_prefix_iff` — a joined text begins as its tokens do;
* `not_prefix_inside` — nothing is found inside a token;
* `scan_eq_singleton_iff` — what it means that a scan has one find;
* `scan_join` — scanning the text is scanning the tokens.
-/
import Mathlib.Data.List.Basic
import Mathlib.Data.List.Infix

namespace TokenText

/-- A spelling of the tokens `κ`. -/
structure Spelling (κ α : Type*) where
  sep : α
  letters : κ → List α
  width : ℕ
  width_pos : 0 < width
  length_letters : ∀ t, (letters t).length = width
  sep_notMem : ∀ t, sep ∉ letters t
  injective : Function.Injective letters

variable {κ α : Type*}

/-- The tokens with a separator between any two of them. -/
def Spelling.join (C : Spelling κ α) : List κ → List α
  | [] => []
  | [t] => C.letters t
  | t :: t' :: rest => C.letters t ++ C.sep :: C.join (t' :: rest)

/-- The occurrences of the words from left to right: the offset of each, and the first word
that stands there.  The scan goes on behind an occurrence; `skip` elements belong to the
last one. -/
def scan [DecidableEq α] (words : List (List α)) : ℕ → ℕ → List α → List (ℕ × List α)
  | _, _, [] => []
  | skip + 1, off, _ :: s => scan words skip (off + 1) s
  | 0, off, c :: s =>
    match words.find? fun w => w.isPrefixOf (c :: s) with
    | some w => (off, w) :: scan words (w.length - 1) (off + 1) s
    | none => scan words 0 (off + 1) s

/-! ### Joined tokens -/

section Join

variable (C : Spelling κ α)

theorem join_cons (t : κ) (rest : List κ) :
    ∃ tail, C.join (t :: rest) = C.letters t ++ tail ∧
      (rest = [] ∧ tail = [] ∨ rest ≠ [] ∧ tail = C.sep :: C.join rest) := by
  cases rest with
  | nil => exact ⟨[], (List.append_nil _).symm, .inl ⟨rfl, rfl⟩⟩
  | cons t' rest => exact ⟨_, rfl, .inr ⟨List.cons_ne_nil _ _, rfl⟩⟩

theorem length_join {p : List κ} (hne : p ≠ []) :
    (C.join p).length + 1 = (C.width + 1) * p.length := by
  induction p with
  | nil => exact absurd rfl hne
  | cons t rest ih =>
    obtain ⟨tail, heq, htail⟩ := join_cons C t rest
    rw [heq, List.length_append, C.length_letters, List.length_cons]
    rcases htail with ⟨rfl, rfl⟩ | ⟨hrest, rfl⟩
    · simp
    · have hlen := ih hrest
      rw [List.length_cons, Nat.mul_add_one]
      omega

theorem join_ne_nil {p : List κ} (hne : p ≠ []) : C.join p ≠ [] := by
  have hlen := length_join C hne
  have hwidth := C.width_pos
  have hle : C.width + 1 ≤ (C.width + 1) * p.length :=
    Nat.le_mul_of_pos_right _ (List.length_pos_iff.mpr hne)
  refine List.length_pos_iff.mp ?_
  omega

theorem join_append {p ts : List κ} (hp : p ≠ []) (hts : ts ≠ []) :
    C.join (p ++ ts) = C.join p ++ C.sep :: C.join ts := by
  induction p with
  | nil => exact absurd rfl hp
  | cons t rest ih =>
    obtain ⟨t', ts, rfl⟩ := List.exists_cons_of_ne_nil hts
    cases rest with
    | nil => rfl
    | cons t₂ rest =>
      have hrest := ih (List.cons_ne_nil _ _)
      show C.letters t ++ C.sep :: C.join (t₂ :: rest ++ t' :: ts) =
        C.letters t ++ C.sep :: C.join (t₂ :: rest) ++ C.sep :: C.join (t' :: ts)
      rw [hrest, List.append_assoc]
      rfl

/-- The text begins with the joined tokens exactly if the tokens do. -/
theorem join_prefix_iff {p : List κ} (hp : p ≠ []) (toks : List κ) :
    C.join p <+: C.join toks ↔ p <+: toks := by
  constructor
  · induction p generalizing toks with
    | nil => exact absurd rfl hp
    | cons t rest ih =>
      intro h
      obtain ⟨tail, heq, htail⟩ := join_cons C t rest
      rw [heq] at h
      cases toks with
      | nil =>
        have hlen := h.length_le
        rw [List.length_append, C.length_letters] at hlen
        exact absurd hlen (by
          show ¬ _ ≤ 0
          have := C.width_pos
          omega)
      | cons t' toks =>
        obtain ⟨tail', heq', htail'⟩ := join_cons C t' toks
        rw [heq'] at h
        -- the first tokens have equally many letters
        obtain ⟨s, hs⟩ := h
        rw [List.append_assoc] at hs
        obtain ⟨hletters, hrest⟩ := List.append_inj hs
          ((C.length_letters t).trans (C.length_letters t').symm)
        obtain rfl := C.injective hletters
        refine List.cons_prefix_cons.mpr ⟨rfl, ?_⟩
        rcases htail with ⟨rfl, -⟩ | ⟨hne, rfl⟩
        · exact List.nil_prefix
        · rcases htail' with ⟨-, rfl⟩ | ⟨-, rfl⟩
          · cases hrest
          · exact ih hne toks ⟨s, (List.cons.inj hrest).2⟩
  · rintro ⟨ts, rfl⟩
    by_cases hts : ts = []
    · rw [hts, List.append_nil]
    · rw [join_append C hp hts]
      exact List.prefix_append _ _

/-- Spelt tokens stand neither at the end of a token nor at a separator. -/
theorem not_prefix_inside {p : List κ} (hp : p ≠ []) {l tail : List α} (hl : l.length < C.width)
    (htail : tail = [] ∨ tail.head? = some C.sep) : ¬ C.join p <+: l ++ tail := by
  intro h
  obtain ⟨t, rest, rfl⟩ := List.exists_cons_of_ne_nil hp
  obtain ⟨tail', heq, -⟩ := join_cons C t rest
  rw [heq] at h
  have hfirst : C.letters t <+: l ++ tail := (List.prefix_append _ _).trans h
  have hlen := C.length_letters t
  rcases htail with rfl | hsep
  · have hle := hfirst.length_le
    rw [List.append_nil] at hle
    omega
  · -- the separator behind `l` would be a letter
    refine C.sep_notMem t (List.mem_of_getElem? (i := l.length) ?_)
    obtain ⟨s, hs⟩ := hfirst
    have hget : (C.letters t ++ s)[l.length]? = some C.sep := by
      rw [hs, List.getElem?_append_right le_rfl, Nat.sub_self, ← List.head?_eq_getElem?]
      exact hsep
    rwa [List.getElem?_append_left (by omega)] at hget

end Join

/-! ### Scanning -/

section Scan

variable [DecidableEq α]

theorem scan_skip (words : List (List α)) (skip off : ℕ) (s : List α) :
    scan words skip off s = scan words 0 (off + skip) (s.drop skip) := by
  induction s generalizing skip off with
  | nil =>
    rw [List.drop_nil]
    cases skip <;> rfl
  | cons c s ih =>
    cases skip with
    | zero => rfl
    | succ skip =>
      rw [scan, ih, List.drop_succ_cons]
      congr 1
      omega

theorem scan_hit {words : List (List α)} {s w : List α} (hs : s ≠ [])
    (h : words.find? (fun w => w.isPrefixOf s) = some w) (hw : w ≠ []) (off : ℕ) :
    scan words 0 off s = (off, w) :: scan words 0 (off + w.length) (s.drop w.length) := by
  obtain ⟨c, s, rfl⟩ := List.exists_cons_of_ne_nil hs
  obtain ⟨d, w, rfl⟩ := List.exists_cons_of_ne_nil hw
  rw [scan, h]
  show _ :: scan words w.length (off + 1) s = _
  rw [scan_skip, List.length_cons, List.drop_succ_cons]
  congr 2
  omega

theorem scan_miss {words : List (List α)} {c : α} {s : List α}
    (h : ∀ w ∈ words, ¬ w <+: c :: s) (off : ℕ) :
    scan words 0 off (c :: s) = scan words 0 (off + 1) s := by
  have hnone : words.find? (fun w => w.isPrefixOf (c :: s)) = none := by
    refine List.find?_eq_none.mpr fun w hw hpre => h w hw ?_
    exact List.isPrefixOf_iff_prefix.mp hpre
  rw [scan, hnone]

/-! ### What a scan finds -/

section Finds

variable {words : List (List α)}

/-- A word stands at this place. -/
def Occurs (words : List (List α)) (s : List α) (i : ℕ) (w : List α) : Prop :=
  w ∈ words ∧ w <+: s.drop i

/-- No word stands inside an occurrence of another one. -/
def Apart (words : List (List α)) (s : List α) : Prop :=
  ∀ i w, Occurs words s i w → ∀ d, 0 < d → d < w.length → ∀ w', ¬ Occurs words s (i + d) w'

omit [DecidableEq α] in
theorem Apart.drop {s : List α} (h : Apart words s) (n : ℕ) : Apart words (s.drop n) := by
  rintro i w ⟨hw, hpre⟩ d hd hlt w' ⟨hw', hpre'⟩
  rw [List.drop_drop] at hpre hpre'
  refine h (n + i) w ⟨hw, hpre⟩ d hd hlt w' ⟨hw', ?_⟩
  rwa [Nat.add_assoc]

theorem find_of_prefix {s w : List α} (hw : w ∈ words) (h : w <+: s) :
    ∃ w', words.find? (fun w => w.isPrefixOf s) = some w' := by
  refine Option.isSome_iff_exists.mp (List.find?_isSome.mpr ⟨w, hw, ?_⟩)
  exact List.isPrefixOf_iff_prefix.mpr h

theorem occurs_of_find {s w : List α} {i : ℕ}
    (h : words.find? (fun w => w.isPrefixOf (s.drop i)) = some w) : Occurs words s i w :=
  ⟨List.mem_of_find?_eq_some h,
    List.isPrefixOf_iff_prefix.mp
      (List.find?_some (p := fun w : List α => w.isPrefixOf (s.drop i)) h)⟩

/-- A scan finds, at each place where a word stands, the first of them. -/
theorem mem_scan_iff (hne : ∀ w ∈ words, w ≠ []) {s : List α} (hapart : Apart words s) (off : ℕ)
    (m : ℕ × List α) :
    m ∈ scan words 0 off s ↔
      ∃ i, m.1 = off + i ∧ words.find? (fun w => w.isPrefixOf (s.drop i)) = some m.2 := by
  have hnone : words.find? (fun w => w.isPrefixOf []) = none := by
    refine List.find?_eq_none.mpr fun w hw hpre => hne w hw ?_
    exact List.prefix_nil.mp (List.isPrefixOf_iff_prefix.mp hpre)
  induction hn : s.length using Nat.strong_induction_on generalizing s off with
  | _ n ih =>
    subst hn
    cases s with
    | nil =>
      refine iff_of_false List.not_mem_nil ?_
      rintro ⟨i, -, hfind⟩
      rw [List.drop_nil, hnone] at hfind
      cases hfind
    | cons c s =>
      cases hw : words.find? fun w => w.isPrefixOf (c :: s) with
      | none =>
        have hmiss : ∀ w ∈ words, ¬ w <+: c :: s := by
          intro w hmem hpre
          exact List.find?_eq_none.mp hw w hmem (List.isPrefixOf_iff_prefix.mpr hpre)
        have hrest : m ∈ scan words 0 (off + 1) s ↔ ∃ i, m.1 = off + 1 + i ∧
            words.find? (fun w => w.isPrefixOf (s.drop i)) = some m.2 :=
          ih s.length (Nat.lt_succ_self _) (hapart.drop 1) (off + 1) rfl
        rw [scan_miss hmiss, hrest]
        constructor
        · rintro ⟨i, hoff, hfind⟩
          exact ⟨i + 1, by omega, hfind⟩
        · rintro ⟨i, hoff, hfind⟩
          cases i with
          | zero =>
            rw [List.drop_zero, hw] at hfind
            cases hfind
          | succ i => exact ⟨i, by omega, hfind⟩
      | some w =>
        have hocc : Occurs words (c :: s) 0 w := occurs_of_find (i := 0) hw
        have hwne : w ≠ [] := hne w hocc.1
        have hpos : 0 < w.length := List.length_pos_iff.mpr hwne
        have hshort : ((c :: s).drop w.length).length < (c :: s).length := by
          rw [List.length_drop, List.length_cons]
          omega
        have hrest : m ∈ scan words 0 (off + w.length) ((c :: s).drop w.length) ↔
            ∃ i, m.1 = off + w.length + i ∧ words.find?
              (fun w' => w'.isPrefixOf (((c :: s).drop w.length).drop i)) = some m.2 :=
          ih _ hshort (hapart.drop w.length) (off + w.length) rfl
        rw [scan_hit (List.cons_ne_nil c s) hw hwne, List.mem_cons, hrest]
        constructor
        · rintro (rfl | ⟨i, hoff, hfind⟩)
          · exact ⟨0, rfl, hw⟩
          · rw [List.drop_drop] at hfind
            exact ⟨w.length + i, by omega, hfind⟩
        · rintro ⟨i, hoff, hfind⟩
          rcases Nat.eq_zero_or_pos i with rfl | hi
          · rw [List.drop_zero, hw] at hfind
            exact .inl (Prod.ext hoff (Option.some.inj hfind).symm)
          · have hle : w.length ≤ i := by
              -- a word inside the find would not be apart from it
              by_contra hlt
              refine hapart 0 w hocc i hi (by omega) m.2 ?_
              rw [Nat.zero_add]
              exact occurs_of_find hfind
            refine .inr ⟨i - w.length, by omega, ?_⟩
            rw [List.drop_drop, Nat.add_sub_cancel' hle]
            exact hfind

/-- The offsets of a scan increase. -/
theorem scan_pairwise (hne : ∀ w ∈ words, w ≠ []) {s : List α} (hapart : Apart words s)
    (off : ℕ) : (scan words 0 off s).Pairwise fun m m' => m.1 < m'.1 := by
  induction hn : s.length using Nat.strong_induction_on generalizing s off with
  | _ n ih =>
    subst hn
    cases s with
    | nil => exact .nil
    | cons c s =>
      cases hw : words.find? fun w => w.isPrefixOf (c :: s) with
      | none =>
        have hmiss : ∀ w ∈ words, ¬ w <+: c :: s := by
          intro w hmem hpre
          exact List.find?_eq_none.mp hw w hmem (List.isPrefixOf_iff_prefix.mpr hpre)
        rw [scan_miss hmiss]
        exact ih s.length (Nat.lt_succ_self _) (hapart.drop 1) (off + 1) rfl
      | some w =>
        have hwne : w ≠ [] := hne w (List.mem_of_find?_eq_some hw)
        have hpos : 0 < w.length := List.length_pos_iff.mpr hwne
        have hshort : ((c :: s).drop w.length).length < (c :: s).length := by
          rw [List.length_drop, List.length_cons]
          omega
        rw [scan_hit (List.cons_ne_nil c s) hw hwne]
        refine List.pairwise_cons.mpr
          ⟨fun m hm => ?_, ih _ hshort (hapart.drop w.length) (off + w.length) rfl⟩
        obtain ⟨i, hoff, -⟩ := (mem_scan_iff hne (hapart.drop w.length) _ m).mp hm
        show off < m.1
        omega

/-- A scan with one find: the word stands there and nowhere else. -/
theorem scan_eq_singleton_iff (hne : ∀ w ∈ words, w ≠ []) {s : List α} (hapart : Apart words s)
    (i : ℕ) (w : List α) :
    scan words 0 0 s = [(i, w)] ↔
      words.find? (fun w => w.isPrefixOf (s.drop i)) = some w ∧
        ∀ i' w', Occurs words s i' w' → i' = i := by
  have hmem := mem_scan_iff hne hapart 0
  constructor
  · intro h
    rw [h] at hmem
    refine ⟨?_, ?_⟩
    · obtain ⟨i', hoff, hfind⟩ := (hmem (i, w)).mp List.mem_cons_self
      have hi : i = i' := by simpa using hoff
      rw [hi]
      exact hfind
    · rintro i' w' ⟨hw', hpre⟩
      obtain ⟨w'', hfind⟩ := find_of_prefix hw' hpre
      have hin := (hmem (i', w'')).mpr ⟨i', (Nat.zero_add i').symm, hfind⟩
      exact (Prod.mk.inj (List.mem_singleton.mp hin)).1
  · rintro ⟨hfind, honly⟩
    have hin : (i, w) ∈ scan words 0 0 s := (hmem _).mpr ⟨i, (Nat.zero_add i).symm, hfind⟩
    have hall : ∀ m ∈ scan words 0 0 s, m = (i, w) := by
      intro m hm
      obtain ⟨i', hoff, hfind'⟩ := (hmem m).mp hm
      have hi : i' = i := honly i' m.2 (occurs_of_find hfind')
      rw [hi, hfind] at hfind'
      exact Prod.ext (by omega) (Option.some.inj hfind').symm
    have hsorted := scan_pairwise hne hapart 0
    cases hscan : scan words 0 0 s with
    | nil =>
      rw [hscan] at hin
      exact absurd hin List.not_mem_nil
    | cons m rest =>
      rw [hscan] at hall hsorted
      obtain ⟨hm, hrest⟩ := List.forall_mem_cons.mp hall
      have hnil : rest = [] := by
        refine List.eq_nil_iff_forall_not_mem.mpr fun m' hm' => ?_
        have hlt := (List.pairwise_cons.mp hsorted).1 m' hm'
        rw [hm, hrest m' hm'] at hlt
        exact lt_irrefl _ hlt
      rw [hm, hnil]

end Finds

/-! ### Scanning a joined text -/

variable (C : Spelling κ α) {pats : List (List κ)}

omit [DecidableEq α] in
theorem mem_words {w : List α} (hne : ∀ p ∈ pats, p ≠ []) (hw : w ∈ pats.map C.join) :
    ∃ p, p ≠ [] ∧ w = C.join p := by
  obtain ⟨p, hp, rfl⟩ := List.mem_map.mp hw
  exact ⟨p, hne p hp, rfl⟩

/-- The rest of a token is passed without a find. -/
theorem scan_inside (hne : ∀ p ∈ pats, p ≠ []) {l tail : List α} (hl : l.length < C.width)
    (htail : tail = [] ∨ tail.head? = some C.sep) (off : ℕ) :
    scan (pats.map C.join) 0 off (l ++ tail) =
      scan (pats.map C.join) 0 (off + l.length) tail := by
  induction l generalizing off with
  | nil => rfl
  | cons c l ih =>
    have hmiss : ∀ w ∈ pats.map C.join, ¬ w <+: c :: (l ++ tail) := by
      intro w hw
      obtain ⟨p, hp, rfl⟩ := mem_words C hne hw
      exact not_prefix_inside C hp hl htail
    rw [List.cons_append, scan_miss hmiss, ih (by rw [List.length_cons] at hl; omega),
      List.length_cons]
    congr 1
    omega

/-- At a separator nothing is found either. -/
theorem scan_sep (hne : ∀ p ∈ pats, p ≠ []) (s : List α) (off : ℕ) :
    scan (pats.map C.join) 0 off (C.sep :: s) = scan (pats.map C.join) 0 (off + 1) s := by
  refine scan_miss (fun w hw => ?_) off
  obtain ⟨p, hp, rfl⟩ := mem_words C hne hw
  exact not_prefix_inside C (l := []) hp C.width_pos (.inr rfl)

variable [DecidableEq κ]

theorem find_join (hne : ∀ p ∈ pats, p ≠ []) (toks : List κ) :
    (pats.map C.join).find? (fun w => w.isPrefixOf (C.join toks)) =
      (pats.find? fun p => p.isPrefixOf toks).map C.join := by
  rw [List.find?_map]
  congr 1
  induction pats with
  | nil => rfl
  | cons p pats ih =>
    obtain ⟨hp, hpats⟩ := List.forall_mem_cons.mp hne
    have hsame : (C.join p).isPrefixOf (C.join toks) = p.isPrefixOf toks := by
      rw [Bool.eq_iff_iff, List.isPrefixOf_iff_prefix, List.isPrefixOf_iff_prefix,
        join_prefix_iff C hp]
    rw [List.find?_cons, List.find?_cons, Function.comp_apply, hsame, ih hpats]

/-- Behind a find the scan goes on with the tokens that are left. -/
theorem scan_join_hit (hne : ∀ p ∈ pats, p ≠ []) {p ts : List κ}
    (hp : pats.find? (fun q => q.isPrefixOf (p ++ ts)) = some p) (off : ℕ) :
    scan (pats.map C.join) 0 off (C.join (p ++ ts)) =
      (off, C.join p) ::
        scan (pats.map C.join) 0 (off + (C.width + 1) * p.length) (C.join ts) := by
  have hpne : p ≠ [] := hne p (List.mem_of_find?_eq_some hp)
  have hfind := find_join C hne (p ++ ts)
  rw [hp] at hfind
  rw [scan_hit (join_ne_nil C (List.append_ne_nil_of_left_ne_nil hpne ts)) hfind
    (join_ne_nil C hpne), ← length_join C hpne]
  congr 1
  by_cases htsne : ts = []
  · rw [htsne, List.append_nil, List.drop_length]
    rfl
  · rw [join_append C hpne htsne, List.drop_left, scan_sep C hne]
    congr 1

omit [DecidableEq κ] in
/-- Where no tokens are found the scan goes on with the next token. -/
theorem scan_join_miss (hne : ∀ p ∈ pats, p ≠ []) {t : κ} {rest : List κ}
    (hmiss : ∀ p ∈ pats, ¬ p <+: t :: rest) (off : ℕ) :
    scan (pats.map C.join) 0 off (C.join (t :: rest)) =
      scan (pats.map C.join) 0 (off + (C.width + 1)) (C.join rest) := by
  have hmissw : ∀ w ∈ pats.map C.join, ¬ w <+: C.join (t :: rest) := by
    intro w hw
    obtain ⟨p, hp, rfl⟩ := List.mem_map.mp hw
    rw [join_prefix_iff C (hne p hp)]
    exact hmiss p hp
  obtain ⟨tail, heq, htail⟩ := join_cons C t rest
  have hletters : C.letters t ≠ [] := by
    refine List.length_pos_iff.mp ?_
    rw [C.length_letters]
    exact C.width_pos
  obtain ⟨c, l, hl⟩ := List.exists_cons_of_ne_nil hletters
  have hwidth : l.length + 1 = C.width := by
    rw [← C.length_letters t, hl, List.length_cons]
  rw [heq, hl, List.cons_append] at hmissw ⊢
  rw [scan_miss hmissw]
  rcases htail with ⟨rfl, rfl⟩ | ⟨-, rfl⟩
  · rw [scan_inside C hne (by omega) (.inl rfl)]
    rfl
  · rw [scan_inside C hne (by omega) (.inr rfl), scan_sep C hne]
    congr 1
    omega

/-- An offset in the text counts tokens. -/
theorem scan_join_from (hne : ∀ p ∈ pats, p ≠ []) (toks : List κ) (i : ℕ) :
    scan (pats.map C.join) 0 ((C.width + 1) * i) (C.join toks) =
      (scan pats 0 i toks).map fun m => ((C.width + 1) * m.1, C.join m.2) := by
  induction hn : toks.length using Nat.strong_induction_on generalizing toks i with
  | _ n ih =>
    subst hn
    cases toks with
    | nil => rfl
    | cons t rest =>
      cases hp : pats.find? fun p => p.isPrefixOf (t :: rest) with
      | some p =>
        have hpne : p ≠ [] := hne p (List.mem_of_find?_eq_some hp)
        have hpre : p.isPrefixOf (t :: rest) = true :=
          List.find?_some (p := fun q : List κ => q.isPrefixOf (t :: rest)) hp
        obtain ⟨ts, hts⟩ := List.isPrefixOf_iff_prefix.mp hpre
        rw [scan_hit (List.cons_ne_nil t rest) hp hpne]
        rw [← hts] at hp ih ⊢
        have hshort : ts.length < (p ++ ts).length := by
          have hpos : 0 < p.length := List.length_pos_iff.mpr hpne
          rw [List.length_append]
          omega
        rw [scan_join_hit C hne hp, List.map_cons, List.drop_left, ← Nat.mul_add,
          ih ts.length hshort ts (i + p.length) rfl]
      | none =>
        have hmiss : ∀ p ∈ pats, ¬ p <+: t :: rest := by
          intro p hpmem hpre
          exact List.find?_eq_none.mp hp p hpmem (List.isPrefixOf_iff_prefix.mpr hpre)
        rw [scan_join_miss C hne hmiss, scan_miss hmiss, ← Nat.mul_add_one]
        exact ih rest.length (Nat.lt_succ_self _) rest (i + 1) rfl

/-- Scanning a joined text for joined tokens is scanning the tokens. -/
theorem scan_join (hne : ∀ p ∈ pats, p ≠ []) (toks : List κ) :
    scan (pats.map C.join) 0 0 (C.join toks) =
      (scan pats 0 0 toks).map fun m => ((C.width + 1) * m.1, C.join m.2) := by
  have h := scan_join_from C hne toks 0
  rwa [Nat.mul_zero] at h

end Scan

end TokenText
