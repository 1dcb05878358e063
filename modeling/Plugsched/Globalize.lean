/-
References from the module to its own symbols, by names with `__mod_` in front.

The `Makefile` of the module reads the symbol tables of a first build.  It writes the names
that are referred to in this way into `.globalize`, counts the lines that look like their
definitions, and stops if there are not as many as names.  In the objects of the second
build these names are made global, and the references are renamed.

* `ObjSym.undMod_infix_line_iff`, `line_counted_iff` — which lines the patterns match;
* `mem_searchUnd` — the names that are referred to;
* `length_definitions`, `length_counted` — what is renamed, and what the second count adds up;
* `findSym_iff` — when the build goes on, and what the references are bound to then.
-/
import Plugsched.HotfixScript

open TextLines UniqLines

namespace Plugsched

/-! ### Symbol tables -/

def undef : Line := "UND".toList

def modMark : Line := "__mod_".toList

/-- The pattern `UND __mod_`. -/
def undMod : Line := "UND __mod_".toList

/-- A symbol of an object as `readelf -sW` prints it: the six columns from `Num` to `Vis`, the
column `Ndx` and the name.  No name has a blank in it, and a marked reference consists of the
letters of C. -/
structure ObjSym where
  front : Line
  ndx : Line
  name : Line
  columns : (words front).length = 6
  plain : '.' ∉ front ∧ '.' ∉ ndx ∧ ¬ undef <:+: front
  isWord : IsWord ndx
  undefined : undef <:+: ndx → ndx = undef
  noBlank : ∀ c ∈ name, isBlank c = false
  marked : ndx = undef → modMark <+: name → ∀ c ∈ name, isIdent c = true

def ObjSym.line (s : ObjSym) : Line := s.front ++ ' ' :: (s.ndx ++ ' ' :: s.name)

/-- An object: what `readelf` prints above its symbols, and these.  No name is both defined and
undefined. -/
structure Stub where
  heading : List Line
  syms : List ObjSym
  distinct : ∀ s ∈ syms, ∀ t ∈ syms, t.ndx = undef → s.name = t.name → s.ndx = undef

def readelf (stubs : List Stub) : List Line :=
  stubs.flatMap fun o => o.heading ++ o.syms.map ObjSym.line

/-! ### The rules -/

/-- `search_und`. -/
def searchUnd (lines : List Line) : List Line :=
  uniq (sort ((lines.filter (undMod <:+: ·)).map fun line => (awkField 8 line).drop 6))

/-- `search_rdf`. -/
def searchRdf (lines : List Line) : List (Line × Line) :=
  (lines.filter (undMod <:+: ·)).map fun line => (awkField 8 line, (awkField 8 line).drop 6)

/-- `search_cb`, with `(` and `,` as separators. -/
def searchCb (line : Line) : Line :=
  let fn := (line.splitOnP fun c => c == '(' || c == ',').getD 1 []
  if "CALLBACK".toList <:+: line then "__cb_".toList ++ fn else fn

/-- `grep -w -f`, with names as patterns. -/
def grepWords (names : List Line) (line : Line) : Bool :=
  (line.splitOnP fun c => !isIdent c).any (· ∈ names)

/-- A line that is counted: it has one of the names in it, and neither a dot nor `UND`. -/
def keptLine (names : List Line) (line : Line) : Bool :=
  grepWords names line && !('.' ∈ line) && !(undef <:+: line)

/-- The lines that are counted against the names. -/
def counted (names lines : List Line) : List Line := lines.filter (keptLine names)

/-- `cmd_find_sym`: the lines of `.globalize`, unless it exits with 1. -/
def findSym (exportJump : List Line) (stubs : List Stub) : Option (List Line) :=
  let und := searchUnd (readelf stubs)
  if und.length ≠ (counted und (readelf stubs)).length then none
  else some (exportJump.map searchCb ++ und)

/-- `objcopy --redefine-syms`. -/
def redefine (rdf : List (Line × Line)) (name : Line) : Line := (rdf.lookup name).getD name

/-- The symbols that go to the linker, with their columns `Ndx`.  The second build compiles the same
text, so its objects have the symbols of the first. -/
def linked (stubs : List Stub) : List (Line × Line) :=
  stubs.flatMap fun o => o.syms.map fun s => (s.ndx, redefine (searchRdf (readelf [o])) s.name)

/-- The definitions of a name. -/
def definitions (syms : List (Line × Line)) (name : Line) : List (Line × Line) :=
  syms.filter fun s => s.1 ≠ undef ∧ s.2 = name

/-! ### The patterns -/

namespace ObjSym

variable {s : ObjSym} {names : List Line}

theorem notMem_name (s : ObjSym) : ' ' ∉ s.name := by
  intro hblank
  exact absurd (s.noBlank ' ' hblank) (by decide)

theorem notMem_ndx (s : ObjSym) : ' ' ∉ s.ndx := by
  intro hblank
  exact absurd (s.isWord.2 ' ' hblank) (by decide)

theorem undef_infix_line_iff : undef <:+: s.line ↔ s.ndx = undef ∨ undef <:+: s.name := by
  have hblank : ' ' ∉ undef := by decide
  rw [line, infix_append_cons_iff hblank, infix_append_cons_iff hblank]
  constructor
  · rintro (hfront | hndx | hname)
    · exact absurd hfront s.plain.2.2
    · exact .inl (s.undefined hndx)
    · exact .inr hname
  · rintro (hndx | hname)
    · exact .inr (.inl (hndx ▸ List.infix_rfl))
    · exact .inr (.inr hname)

theorem undMod_infix_line_iff : undMod <:+: s.line ↔ s.ndx = undef ∧ modMark <+: s.name := by
  have hmod : undMod = undef ++ ' ' :: modMark := rfl
  have hfront : ¬ undef ++ [' '] <:+: s.front := fun h =>
    s.plain.2.2 ((List.prefix_append _ _).isInfix.trans h)
  rw [hmod, line]
  constructor
  · intro h
    rw [← List.cons_append, ← List.append_assoc] at h
    rcases infix_around s.notMem_name h with hleft | ⟨hsuffix, hprefix⟩
    · -- the blank of the pattern is not one in front of the column
      rcases infix_around s.notMem_ndx hleft with hleft' | ⟨hsuffix, -⟩
      · exact absurd hleft' hfront
      · exact absurd hsuffix.isInfix s.plain.2.2
    · refine ⟨?_, hprefix⟩
      rcases (infix_append_cons_iff (by decide : ' ' ∉ undef)).mp hsuffix.isInfix with hin | hin
      · exact absurd hin s.plain.2.2
      · exact s.undefined hin
  · rintro ⟨hndx, rest, hname⟩
    rw [hndx, ← hname]
    exact ⟨s.front ++ [' '], rest, by simp⟩

theorem words_line (s : ObjSym) : words s.line = words s.front ++ s.ndx :: words s.name := by
  rw [line, words_append_blank, words_append s.isWord]

theorem words_name (hne : s.name ≠ []) : words s.name = [s.name] :=
  words_of_isWord ⟨hne, s.noBlank⟩

theorem awkField_line (hne : s.name ≠ []) : awkField 8 s.line = s.name := by
  rw [awkField, words_line, words_name hne,
    List.getD_append_right _ _ _ _ (by rw [s.columns]; simp)]
  rw [s.columns]
  rfl

end ObjSym

theorem grepWords_append_cons (names : List Line) {c : Char} (hc : isIdent c = false) (s t : Line) :
    grepWords names (s ++ c :: t) = (grepWords names s || grepWords names t) := by
  have hsep : (!isIdent c) = true := by simp [hc]
  rw [grepWords, List.splitOnP_append_cons s t hsep, List.any_append]
  rfl

theorem grepWords_ident {names : List Line} {w : Line} (hw : ∀ c ∈ w, isIdent c = true) :
    grepWords names w = decide (w ∈ names) := by
  have hsplit : (w.splitOnP fun c => !isIdent c) = [w] :=
    List.splitOnP_eq_singleton fun c hc => by simp [hw c hc]
  rw [grepWords, hsplit]
  simp

/-! ### The second count -/

namespace ObjSym

variable {s : ObjSym} {names : List Line}

/-- A name that is none of C counts for none of the names, unless there is a dot in it:
`$x` and `$d` in the objects of arm64. -/
def Apart (names : List Line) (s : ObjSym) : Prop :=
  (∃ c ∈ s.name, isIdent c = false) → grepWords names s.name = true → '.' ∈ s.name

theorem apart_of_ident (h : ∀ c ∈ s.name, isIdent c = true) : s.Apart names := by
  rintro ⟨c, hc, hother⟩
  rw [h c hc] at hother
  cases hother

theorem dot_mem_line_iff : '.' ∈ s.line ↔ '.' ∈ s.name := by
  have hdot : '.' ≠ ' ' := by decide
  rw [line, List.mem_append, List.mem_cons, List.mem_append, List.mem_cons]
  constructor
  · rintro (hfront | hblank | hndx | hblank | hname)
    · exact absurd hfront s.plain.1
    · exact absurd hblank hdot
    · exact absurd hndx s.plain.2.1
    · exact absurd hblank hdot
    · exact hname
  · intro hname
    exact .inr (.inr (.inr (.inr hname)))

theorem grepWords_line (hfront : grepWords names s.front = false)
    (hndx : grepWords names s.ndx = false) : grepWords names s.line = grepWords names s.name := by
  have hblank : isIdent ' ' = false := by decide
  rw [line, grepWords_append_cons names hblank, grepWords_append_cons names hblank, hfront, hndx]
  rfl

end ObjSym

theorem line_counted_iff {s : ObjSym} {names : List Line} (hfront : grepWords names s.front = false)
    (hndx : grepWords names s.ndx = false) (hname : s.Apart names)
    (hnames : ∀ n ∈ names, ∀ c ∈ n, isIdent c = true) :
    keptLine names s.line = true ↔
      s.ndx ≠ undef ∧ s.name ∈ names ∧ '.' ∉ s.name ∧ ¬ undef <:+: s.name := by
  rw [keptLine, Bool.and_eq_true, Bool.and_eq_true, ObjSym.grepWords_line hfront hndx]
  rw [Bool.not_eq_true', Bool.not_eq_true', decide_eq_false_iff_not, decide_eq_false_iff_not,
    ObjSym.dot_mem_line_iff, ObjSym.undef_infix_line_iff, not_or]
  constructor
  · rintro ⟨⟨hgrep, hdot⟩, hndx, hundef⟩
    -- the name is one of C, so it is a single word
    have hident : ∀ c ∈ s.name, isIdent c = true := by
      intro c hc
      rw [← Bool.not_eq_false]
      exact fun hother => hdot (hname ⟨c, hc, hother⟩ hgrep)
    rw [grepWords_ident hident] at hgrep
    exact ⟨hndx, of_decide_eq_true hgrep, hdot, hundef⟩
  · rintro ⟨hndx, hmem, hdot, hundef⟩
    rw [grepWords_ident (hnames s.name hmem)]
    exact ⟨⟨decide_eq_true hmem, hdot⟩, hndx, hundef⟩

/-! ### Names and definitions -/

/-- What keeps the lines of the tables apart: a line above the symbols is no reference, and counts
for no name unless there is a dot in it; no name is a word of the other columns, nor a part
of a symbol that is none of C. -/
structure Readable (stubs : List Stub) : Prop where
  heading : ∀ o ∈ stubs, ∀ line ∈ o.heading,
    ¬ undMod <:+: line ∧ (grepWords (searchUnd (readelf stubs)) line = true → '.' ∈ line)
  columns : ∀ o ∈ stubs, ∀ s ∈ o.syms,
    grepWords (searchUnd (readelf stubs)) s.front = false ∧
      grepWords (searchUnd (readelf stubs)) s.ndx = false
  others : ∀ o ∈ stubs, ∀ s ∈ o.syms, s.Apart (searchUnd (readelf stubs))

theorem Readable.not_marked {stubs : List Stub} (h : Readable stubs) :
    ∀ o ∈ stubs, ∀ line ∈ o.heading, ¬ undMod <:+: line := by
  intro o ho line hline
  exact (h.heading o ho line hline).1

/-- A reference to `n` by its name with `__mod_`. -/
def Refers (o : Stub) (n : Line) : Prop := ∃ s ∈ o.syms, s.ndx = undef ∧ s.name = modMark ++ n

/-- The names with a definition, each as often as it is defined. -/
def definedNames (stubs : List Stub) : List Line :=
  ((stubs.flatMap Stub.syms).filter fun s => s.ndx ≠ undef).map ObjSym.name

section Tables

variable {stubs : List Stub} {o : Stub} {n line : Line}

theorem mem_readelf : line ∈ readelf stubs ↔
    ∃ o ∈ stubs, line ∈ o.heading ∨ ∃ s ∈ o.syms, s.line = line := by
  simp only [readelf, List.mem_flatMap, List.mem_append, List.mem_map]

/-- The marked names of the tables. -/
theorem mem_marked (h : ∀ o ∈ stubs, ∀ line ∈ o.heading, ¬ undMod <:+: line) {m : Line} :
    m ∈ ((readelf stubs).filter (undMod <:+: ·)).map (awkField 8) ↔
      ∃ o ∈ stubs, ∃ s ∈ o.syms, s.ndx = undef ∧ modMark <+: s.name ∧ s.name = m := by
  have hfield {s : ObjSym} (hname : modMark <+: s.name) : awkField 8 s.line = s.name := by
    refine ObjSym.awkField_line fun hnil => ?_
    rw [hnil, List.prefix_nil] at hname
    exact absurd hname (by decide)
  constructor
  · intro hmem
    obtain ⟨line, hline, rfl⟩ := List.mem_map.mp hmem
    obtain ⟨hread, hund⟩ := List.mem_filter.mp hline
    have hund : undMod <:+: line := of_decide_eq_true hund
    obtain ⟨o, ho, hheading | ⟨s, hs, rfl⟩⟩ := mem_readelf.mp hread
    · exact absurd hund (h o ho line hheading)
    · obtain ⟨hndx, hname⟩ := ObjSym.undMod_infix_line_iff.mp hund
      exact ⟨o, ho, s, hs, hndx, hname, (hfield hname).symm⟩
  · rintro ⟨o, ho, s, hs, hndx, hname, rfl⟩
    refine List.mem_map.mpr ⟨s.line, List.mem_filter.mpr ⟨?_, ?_⟩, hfield hname⟩
    · exact mem_readelf.mpr ⟨o, ho, .inr ⟨s, hs, rfl⟩⟩
    · exact decide_eq_true (ObjSym.undMod_infix_line_iff.mpr ⟨hndx, hname⟩)

theorem mem_searchUnd (h : ∀ o ∈ stubs, ∀ line ∈ o.heading, ¬ undMod <:+: line) :
    n ∈ searchUnd (readelf stubs) ↔ ∃ o ∈ stubs, Refers o n := by
  have hnames : ((readelf stubs).filter (undMod <:+: ·)).map
      (fun line => (awkField 8 line).drop 6) =
      (((readelf stubs).filter (undMod <:+: ·)).map (awkField 8)).map (List.drop 6) := by
    rw [List.map_map]
    rfl
  rw [searchUnd, mem_uniq_sort, hnames, List.mem_map]
  constructor
  · rintro ⟨m, hm, rfl⟩
    obtain ⟨o, ho, s, hs, hndx, ⟨rest, hrest⟩, rfl⟩ := (mem_marked h).mp hm
    refine ⟨o, ho, s, hs, hndx, ?_⟩
    rw [← hrest]
    rfl
  · rintro ⟨o, ho, s, hs, hndx, hname⟩
    refine ⟨s.name, (mem_marked h).mpr ⟨o, ho, s, hs, hndx, ?_, rfl⟩, ?_⟩
    · exact hname ▸ List.prefix_append _ _
    · rw [hname]
      rfl

/-- A name that is referred to is one of C. -/
theorem Refers.ident (h : Refers o n) : ∀ c ∈ n, isIdent c = true := by
  obtain ⟨s, -, hndx, hname⟩ := h
  intro c hc
  refine s.marked hndx (hname ▸ List.prefix_append _ _) c ?_
  rw [hname]
  exact List.mem_append_right _ hc

theorem Refers.plain (h : Refers o n) : '.' ∉ n := by
  intro hdot
  exact absurd (h.ident '.' hdot) (by decide)

theorem redefine_map (names : List Line) (n : Line) :
    redefine (names.map fun m => (m, m.drop 6)) n = if n ∈ names then n.drop 6 else n := by
  induction names with
  | nil => rfl
  | cons m names ih =>
    rw [List.map_cons, redefine, List.lookup_cons]
    by_cases hm : n = m
    · subst hm
      simp
    · have hne : (n == m) = false := by simpa using hm
      rw [hne]
      show redefine (names.map fun m => (m, m.drop 6)) n = _
      rw [ih]
      simp [hm]

/-- The renamed names of an object are those of its references. -/
theorem redefine_searchRdf (h : ∀ line ∈ o.heading, ¬ undMod <:+: line) {s : ObjSym}
    (hs : s ∈ o.syms) : redefine (searchRdf (readelf [o])) s.name =
      if s.ndx = undef ∧ modMark <+: s.name then s.name.drop 6 else s.name := by
  have hrdf : searchRdf (readelf [o]) =
      (((readelf [o]).filter (undMod <:+: ·)).map (awkField 8)).map fun m => (m, m.drop 6) := by
    rw [searchRdf, List.map_map]
    rfl
  rw [hrdf, redefine_map]
  have hheading : ∀ o' ∈ [o], ∀ line ∈ o'.heading, ¬ undMod <:+: line := by
    intro o' ho'
    rw [List.mem_singleton.mp ho']
    exact h
  refine if_congr ?_ rfl rfl
  rw [mem_marked hheading]
  constructor
  · rintro ⟨o', ho', t, ht, hndx, hname, heq⟩
    rw [List.mem_singleton.mp ho'] at ht
    exact ⟨o.distinct s hs t ht hndx heq.symm, heq ▸ hname⟩
  · rintro ⟨hndx, hname⟩
    exact ⟨o, List.mem_singleton_self o, s, hs, hndx, hname, rfl⟩

/-- A reference is bound to the name without the mark. -/
theorem mem_linked (h : ∀ o ∈ stubs, ∀ line ∈ o.heading, ¬ undMod <:+: line) (ho : o ∈ stubs)
    {s : ObjSym} (hs : s ∈ o.syms) (hndx : s.ndx = undef) (hname : s.name = modMark ++ n) :
    (undef, n) ∈ linked stubs := by
  refine List.mem_flatMap.mpr ⟨o, ho, List.mem_map.mpr ⟨s, hs, ?_⟩⟩
  rw [redefine_searchRdf (h o ho) hs, if_pos ⟨hndx, hname ▸ List.prefix_append _ _⟩, hndx, hname]
  rfl

/-- Definitions keep their names. -/
theorem length_definitions (h : ∀ o ∈ stubs, ∀ line ∈ o.heading, ¬ undMod <:+: line) (n : Line) :
    (definitions (linked stubs) n).length =
      (definedNames stubs).countP fun m => decide (m = n) := by
  rw [definitions, ← List.countP_eq_length_filter, linked, List.countP_flatMap, definedNames,
    List.countP_map, List.countP_filter, List.countP_flatMap]
  refine congrArg List.sum (List.map_congr_left fun o ho => ?_)
  show List.countP _ (o.syms.map _) = o.syms.countP _
  rw [List.countP_map]
  refine List.countP_congr fun s hs => ?_
  simp only [Function.comp_apply, decide_eq_true_eq, Bool.and_eq_true, Bool.decide_and]
  constructor
  · rintro ⟨hndx, hname⟩
    rw [redefine_searchRdf (h o ho) hs, if_neg fun hmarked => hndx hmarked.1] at hname
    exact ⟨hname, hndx⟩
  · rintro ⟨hname, hndx⟩
    rw [redefine_searchRdf (h o ho) hs, if_neg fun hmarked => hndx hmarked.1]
    exact ⟨hndx, hname⟩

theorem length_counted (h : Readable stubs) :
    (counted (searchUnd (readelf stubs)) (readelf stubs)).length =
      (definedNames stubs).countP fun n =>
        n ∈ searchUnd (readelf stubs) ∧ '.' ∉ n ∧ ¬ undef <:+: n := by
  set names := searchUnd (readelf stubs) with hnames
  rw [counted, ← List.countP_eq_length_filter, readelf, List.countP_flatMap, definedNames,
    List.countP_map, List.countP_filter, List.countP_flatMap]
  refine congrArg List.sum (List.map_congr_left fun o ho => ?_)
  show List.countP _ (o.heading ++ o.syms.map ObjSym.line) = o.syms.countP _
  have hheading : o.heading.countP (keptLine names) = 0 := by
    refine List.countP_eq_zero.mpr fun line hline hkept => ?_
    rw [keptLine, Bool.and_eq_true, Bool.and_eq_true, Bool.not_eq_true',
      decide_eq_false_iff_not] at hkept
    exact hkept.1.2 ((h.heading o ho line hline).2 hkept.1.1)
  rw [List.countP_append, hheading, Nat.zero_add, List.countP_map]
  refine List.countP_congr fun s hs => ?_
  obtain ⟨hfront, hndx⟩ := h.columns o ho s hs
  have hidents : ∀ n ∈ names, ∀ c ∈ n, isIdent c = true := by
    intro n hn
    obtain ⟨o', -, hrefers⟩ := (mem_searchUnd h.not_marked).mp (hnames ▸ hn)
    exact hrefers.ident
  rw [Function.comp_apply, line_counted_iff hfront hndx (h.others o ho s hs) hidents]
  simp only [Function.comp_apply, decide_eq_true_eq, Bool.and_eq_true, Bool.decide_and]
  exact and_comm

end Tables

/-! ### The build -/

/-- The linker finds no second definition of a name that has been made global. -/
def LinksOnce (stubs : List Stub) : Prop :=
  ∀ n ∈ searchUnd (readelf stubs), (definitions (linked stubs) n).length ≤ 1

/-- `.globalize` is made and the module is linked exactly if each name that is referred to with
`__mod_` has one definition, and no `UND` in it.  The references are bound to this definition then,
which is global. -/
theorem findSym_iff (exportJump : List Line) {stubs : List Stub} (h : Readable stubs) :
    ((findSym exportJump stubs).isSome ∧ LinksOnce stubs ↔
      ∀ o ∈ stubs, ∀ n, Refers o n →
        ¬ undef <:+: n ∧ ∃ d, definitions (linked stubs) n = [d]) ∧
    ∀ o ∈ stubs, ∀ n, Refers o n → (undef, n) ∈ linked stubs ∧
      ∀ lines, findSym exportJump stubs = some lines → n ∈ lines := by
  have hheading := h.not_marked
  have hsome : (findSym exportJump stubs).isSome ↔ (searchUnd (readelf stubs)).length =
      (definedNames stubs).countP fun n =>
        n ∈ searchUnd (readelf stubs) ∧ '.' ∉ n ∧ ¬ undef <:+: n := by
    rw [findSym, length_counted h]
    split
    · next hne => exact iff_of_false (by simp) hne
    · next heq => exact iff_of_true rfl (not_not.mp heq)
  have hcounts (hlink : LinksOnce stubs) : (findSym exportJump stubs).isSome ↔
      ∀ n ∈ searchUnd (readelf stubs), ('.' ∉ n ∧ ¬ undef <:+: n) ∧
        (definitions (linked stubs) n).length = 1 := by
    have hone : ∀ n ∈ searchUnd (readelf stubs),
        (definedNames stubs).countP (fun m => decide (m = n)) ≤ 1 := by
      intro n hn
      rw [← length_definitions hheading]
      exact hlink n hn
    have hnames : (searchUnd (readelf stubs)).Nodup := nodup_uniq_sort _
    rw [hsome, length_eq_countP_iff hnames (fun n => decide_eq_true_iff) hone]
    simp only [length_definitions hheading]
  constructor
  · constructor
    · rintro ⟨hfind, hlink⟩ o ho n hn
      obtain ⟨hplain, hcount⟩ := (hcounts hlink).mp hfind n
        ((mem_searchUnd hheading).mpr ⟨o, ho, hn⟩)
      exact ⟨hplain.2, List.length_eq_one_iff.mp hcount⟩
    · intro hrefs
      have hdefs : ∀ n ∈ searchUnd (readelf stubs), ('.' ∉ n ∧ ¬ undef <:+: n) ∧
          (definitions (linked stubs) n).length = 1 := by
        intro n hn
        obtain ⟨o, ho, hrefers⟩ := (mem_searchUnd hheading).mp hn
        obtain ⟨hplain, hdef⟩ := hrefs o ho n hrefers
        exact ⟨⟨hrefers.plain, hplain⟩, List.length_eq_one_iff.mpr hdef⟩
      have hlink : LinksOnce stubs := fun n hn => (hdefs n hn).2.le
      exact ⟨(hcounts hlink).mpr hdefs, hlink⟩
  · rintro o ho n ⟨s, hs, hndx, hname⟩
    refine ⟨mem_linked hheading ho hs hndx hname, fun lines hlines => ?_⟩
    have hmem : n ∈ searchUnd (readelf stubs) :=
      (mem_searchUnd hheading).mpr ⟨o, ho, s, hs, hndx, hname⟩
    rw [findSym] at hlines
    split at hlines
    · cases hlines
    · obtain rfl := Option.some.inj hlines
      exact List.mem_append_right _ hmem

/-! ### Two objects -/

def tableHeading : List Line :=
  ["Symbol table '.symtab' contains 2 entries:".toList,
    "   Num:    Value          Size Type    Bind   Vis      Ndx Name".toList]

theorem forall_of_all {w : Line} (h : (w.all fun c => !isBlank c) = true) :
    ∀ c ∈ w, isBlank c = false := by
  intro c hc
  simpa using List.all_eq_true.mp h c hc

theorem ident_of_all {w : Line} (h : w.all isIdent = true) : ∀ c ∈ w, isIdent c = true :=
  fun c hc => List.all_eq_true.mp h c hc

/-- A file that refers to a function of another one. -/
def coreObj : Stub where
  heading := tableHeading
  syms := [
    { front := "     1: 0000000000000000   120 FUNC    LOCAL  DEFAULT   ".toList
      ndx := "1".toList
      name := "schedule".toList
      columns := by decide
      plain := by decide
      isWord := ⟨by decide, forall_of_all rfl⟩
      undefined := by decide
      noBlank := forall_of_all rfl
      marked := fun _ _ => ident_of_all rfl },
    { front := "     2: 0000000000000000     0 NOTYPE  GLOBAL DEFAULT ".toList
      ndx := undef
      name := modMark ++ "task_tick_fair".toList
      columns := by decide
      plain := by decide
      isWord := ⟨by decide, forall_of_all rfl⟩
      undefined := by decide
      noBlank := forall_of_all rfl
      marked := fun _ _ => ident_of_all rfl }]
  distinct := by decide

/-- An object of arm64, with the mark of its code. -/
def fairObj : Stub where
  heading := tableHeading
  syms := [
    { front := "     1: 0000000000000000     0 NOTYPE  LOCAL  DEFAULT   ".toList
      ndx := "1".toList
      name := "$x".toList
      columns := by decide
      plain := by decide
      isWord := ⟨by decide, forall_of_all rfl⟩
      undefined := by decide
      noBlank := forall_of_all rfl
      marked := by decide },
    { front := "     2: 0000000000000000    64 FUNC    LOCAL  DEFAULT   ".toList
      ndx := "1".toList
      name := "task_tick_fair".toList
      columns := by decide
      plain := by decide
      isWord := ⟨by decide, forall_of_all rfl⟩
      undefined := by decide
      noBlank := forall_of_all rfl
      marked := fun _ _ => ident_of_all rfl }]
  distinct := by decide

theorem searchUnd_coreObj :
    searchUnd (readelf [coreObj, fairObj]) = ["task_tick_fair".toList] := by
  decide +kernel

theorem readable_coreObj : Readable [coreObj, fairObj] where
  heading := by
    rw [searchUnd_coreObj]
    decide +kernel
  columns := by
    rw [searchUnd_coreObj]
    decide +kernel
  others := by
    have hcore : ∀ s ∈ coreObj.syms, s.name.all isIdent = true := by decide
    have hfair : ∀ s ∈ fairObj.syms, s.name.all isIdent = true ∨ s.name = "$x".toList := by
      decide
    rw [searchUnd_coreObj]
    intro o ho s hs
    rcases List.mem_pair.mp ho with rfl | rfl
    · exact ObjSym.apart_of_ident (ident_of_all (hcore s hs))
    · rcases hfair s hs with hident | hmark
      · exact ObjSym.apart_of_ident (ident_of_all hident)
      · have hword : grepWords ["task_tick_fair".toList] "$x".toList = false := rfl
        rw [ObjSym.Apart, hmark, hword]
        rintro - ⟨⟩

theorem findSym_iff_fairObj :
    (findSym ["EXPORT_PLUGSCHED(schedule, void, void)".toList] [coreObj, fairObj]).isSome ∧
      LinksOnce [coreObj, fairObj] := by
  refine (findSym_iff _ readable_coreObj).1.mpr ?_
  intro o ho n hn
  have hmem : n ∈ searchUnd (readelf [coreObj, fairObj]) :=
    (mem_searchUnd readable_coreObj.not_marked).mpr ⟨o, ho, hn⟩
  rw [searchUnd_coreObj, List.mem_singleton] at hmem
  subst hmem
  refine ⟨by decide, List.length_eq_one_iff.mp ?_⟩
  rw [length_definitions readable_coreObj.not_marked]
  decide

end Plugsched
