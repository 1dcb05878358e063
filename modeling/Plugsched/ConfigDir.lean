/-
The choice of the configuration directory in `cli.py`.

`getConfigDir` looks for the directory that has the longest common prefix with the
release of the kernel: `commonPrefixLen` returns the index at which its loop stops, and
among equals the last directory wins, in descending order.

* `commonPrefixLen_eq` — the index against the length of the common prefix;
* `getConfigDir_spec` — the directory that is chosen;
* `getConfigDir_longest_iff` — when it has the longest common prefix.
-/
import Mathlib.Data.Finset.Max
import Mathlib.Data.List.Sort
import Mathlib.Data.Prod.Lex
import Mathlib.Data.String.Basic
import Plugsched.CommonPrefix

open CommonPrefix

namespace Plugsched

/-- What `get_kernel_version` reads from the `Makefile` of the kernel. -/
structure KernelVersion where
  version : String
  patchlevel : String
  sublevel : String
  krel : String

/-- `self.major`. -/
def KernelVersion.major (v : KernelVersion) : String := v.version ++ "." ++ v.patchlevel

/-- `self.uname_r`, which is `self.KVER` and the rest of the release. -/
def KernelVersion.unameR (v : KernelVersion) : String :=
  v.version ++ "." ++ v.patchlevel ++ "." ++ v.sublevel ++ "-" ++ v.krel

/-- The loop of `common_prefix_len` over `zip(s1, s2)`, whose next index is `n`; `i` is
the loop variable, which has no value before the first round. -/
def prefixLoop : List (Char × Char) → ℕ → Option ℕ → Option ℕ
  | [], _, i => i
  | (a, b) :: rest, n, _ => if a ≠ b then some n else prefixLoop rest (n + 1) (some n)

/-- `common_prefix_len`; `none` when `i` has no value. -/
def commonPrefixLen (s1 s2 : String) : Option ℕ := prefixLoop (s1.toList.zip s2.toList) 0 none

/-- `get_config_dir` on the names that `glob` finds; `none` when it raises. -/
def getConfigDir (v : KernelVersion) (candidates : List String) : Option String := do
  let candidates := candidates.insertionSort fun s t => t ≤ s
  let scores ← candidates.zipIdx.mapM fun ti =>
    (commonPrefixLen v.unameR ti.1).map fun len => toLex (len, ti.2)
  let best ← scores.max?
  candidates[(ofLex best).2]?

/-! ### The score of a directory -/

/-- Where the loop of `common_prefix_len` stops. -/
def lastIndex (s t : List Char) : ℕ := min (lcp s t) (min s.length t.length - 1)

theorem prefixLoop_eq {s t : List Char} (hs : s ≠ []) (ht : t ≠ []) (n : ℕ) (i : Option ℕ) :
    prefixLoop (s.zip t) n i = some (n + lastIndex s t) := by
  induction s generalizing t n i with
  | nil => exact absurd rfl hs
  | cons a s ih =>
    match t with
    | b :: t =>
      rw [List.zip_cons_cons, prefixLoop]
      by_cases hab : a = b
      · subst hab
        rw [if_neg (not_not.mpr rfl)]
        by_cases hs' : s = []
        · subst hs'
          simp [prefixLoop, lastIndex]
        by_cases ht' : t = []
        · subst ht'
          simp [prefixLoop, lastIndex]
        rw [ih hs' ht']
        have hspos := List.length_pos_of_ne_nil hs'
        have htpos := List.length_pos_of_ne_nil ht'
        simp only [lastIndex, lcp_cons_self, List.length_cons, Option.some.injEq]
        omega
      · rw [if_pos hab, lastIndex, lcp_cons_of_ne hab, Nat.zero_min, Nat.add_zero]

theorem commonPrefixLen_eq {s t : String} (hs : s.toList ≠ []) (ht : t.toList ≠ []) :
    commonPrefixLen s t = some (lastIndex s.toList t.toList) := by
  rw [commonPrefixLen, prefixLoop_eq hs ht, Nat.zero_add]

/-- The index falls short of the length exactly if one of the texts ends there. -/
theorem lastIndex_of_lt {s t : List Char} (h : lcp s t < min s.length t.length) :
    lastIndex s t = lcp s t := by
  rw [lastIndex]
  omega

theorem lastIndex_of_eq {s t : List Char} (h : lcp s t = min s.length t.length) :
    lastIndex s t = lcp s t - 1 := by
  rw [lastIndex, h]
  omega

/-! ### The choice -/

theorem major_isPrefix_unameR (v : KernelVersion) : v.major.toList <+: v.unameR.toList := by
  refine ⟨(".".toList ++ v.sublevel.toList) ++ ("-".toList ++ v.krel.toList), ?_⟩
  simp only [KernelVersion.major, KernelVersion.unameR, String.toList_append, List.append_assoc]

theorem major_ne_nil (v : KernelVersion) : v.major.toList ≠ [] := by
  simp [KernelVersion.major]

/-- The scores of directories that begin with the major version. -/
theorem mapM_commonPrefixLen {v : KernelVersion} (tis : List (String × ℕ))
    (hmajor : ∀ ti ∈ tis, v.major.toList <+: ti.1.toList) :
    (tis.mapM fun ti => (commonPrefixLen v.unameR ti.1).map fun len => toLex (len, ti.2)) =
      some (tis.map fun ti => toLex (lastIndex v.unameR.toList ti.1.toList, ti.2)) := by
  induction tis with
  | nil => rfl
  | cons ti tis ih =>
    obtain ⟨hti, htis⟩ := List.forall_mem_cons.mp hmajor
    have hne := major_ne_nil v
    have hscore := commonPrefixLen_eq
      (fun h => hne (List.prefix_nil.mp (h ▸ major_isPrefix_unameR v)))
      (fun h => hne (List.prefix_nil.mp (h ▸ hti)))
    rw [List.mapM_cons, hscore, ih htis]
    rfl

/-- Of the directories with the greatest score the last one in descending order. -/
theorem getConfigDir_spec {v : KernelVersion} {candidates : List String}
    (hne : candidates ≠ []) (hmajor : ∀ t ∈ candidates, v.major.toList <+: t.toList) :
    ∃ dir ∈ candidates, getConfigDir v candidates = some dir ∧
      ∀ t ∈ candidates,
        lastIndex v.unameR.toList t.toList < lastIndex v.unameR.toList dir.toList ∨
          (lastIndex v.unameR.toList t.toList = lastIndex v.unameR.toList dir.toList ∧
            dir ≤ t) := by
  have hperm := List.perm_insertionSort (fun s t : String => t ≤ s) candidates
  have hsorted := List.pairwise_insertionSort (fun s t : String => t ≤ s) candidates
  rw [getConfigDir]
  generalize candidates.insertionSort (fun s t => t ≤ s) = l at hperm hsorted
  have hzip : ∀ {t i}, (t, i) ∈ l.zipIdx ↔ l[i]? = some t := List.mk_mem_zipIdx_iff_getElem?
  have hscores := mapM_commonPrefixLen (v := v) l.zipIdx fun ti hti =>
    hmajor ti.1 (hperm.mem_iff.mp (List.mem_of_getElem? (hzip.mp hti)))
  rw [hscores, Option.bind_eq_bind, Option.bind_some]
  have hscored : (l.zipIdx.map fun ti =>
      toLex (lastIndex v.unameR.toList ti.1.toList, ti.2)) ≠ [] := by
    intro hnil
    rw [List.map_eq_nil_iff, List.zipIdx_eq_nil_iff] at hnil
    exact hne (hnil ▸ hperm).symm.eq_nil
  obtain ⟨best, hbest⟩ := Option.isSome_iff_exists.mp (List.isSome_max?_of_ne_nil hscored)
  obtain ⟨hmem, hmax⟩ := List.max?_eq_some_iff.mp hbest
  obtain ⟨⟨dir, idx⟩, hdir, rfl⟩ := List.mem_map.mp hmem
  have hget : l[idx]? = some dir := hzip.mp hdir
  rw [hbest, Option.bind_eq_bind, Option.bind_some]
  refine ⟨dir, hperm.mem_iff.mp (List.mem_of_getElem? hget), hget, fun t ht => ?_⟩
  obtain ⟨i, hi, rfl⟩ := List.getElem_of_mem (hperm.mem_iff.mpr ht)
  have hle := hmax _ (List.mem_map_of_mem (hzip.mpr (List.getElem?_eq_getElem hi)))
  rcases Prod.Lex.toLex_le_toLex.mp hle with hlt | ⟨heq, hidx⟩
  · exact .inl hlt
  · -- a directory of the same score stands in front of the chosen one
    refine .inr ⟨heq, ?_⟩
    obtain ⟨hidxlt, rfl⟩ := List.getElem?_eq_some_iff.mp hget
    rcases hidx.eq_or_lt with rfl | hlt
    · exact le_refl _
    · exact List.pairwise_iff_getElem.mp hsorted i idx hi hidxlt hlt

/-! ### When the choice is right -/

/-- The directory has the longest common prefix with the release. -/
def Longest (r : List Char) (candidates : List String) (dir : String) : Prop :=
  dir ∈ candidates ∧ ∀ t ∈ candidates, lcp r t.toList ≤ lcp r dir.toList

/-- The release and the directory agree up to the end of one of them. -/
def AgreesToEnd (r : List Char) (t : String) : Prop :=
  lcp r t.toList = min r.length t.toList.length

/-- Where the two first differ the directory has the smaller character. -/
def SmallerAt (r : List Char) (t : String) : Prop :=
  ∃ a c, t.toList[lcp r t.toList]? = some a ∧ r[lcp r t.toList]? = some c ∧ a < c

theorem lcp_pos {v : KernelVersion} {t : String} (ht : v.major.toList <+: t.toList) :
    0 < lcp v.unameR.toList t.toList :=
  (List.length_pos_of_ne_nil (major_ne_nil v)).trans_le
    (length_le_lcp (major_isPrefix_unameR v) ht)

section Choice

variable {r : List Char} {t t' : String} {candidates : List String}

theorem SmallerAt.before_end (h : SmallerAt r t) :
    lcp r t.toList < min r.length t.toList.length := by
  obtain ⟨a, c, ht, hr, -⟩ := h
  exact lt_min (List.getElem?_eq_some_iff.mp hr).1 (List.getElem?_eq_some_iff.mp ht).1

theorem not_agreesToEnd_iff :
    ¬ AgreesToEnd r t ↔ lcp r t.toList < min r.length t.toList.length :=
  (lcp_le r t.toList).lt_iff_ne.symm

/-- A directory that stops agreeing with the release earlier, and before its end, is
smaller exactly if its character there is. -/
theorem lt_iff_smallerAt (hlcp : lcp r t'.toList < lcp r t.toList)
    (hend : ¬ AgreesToEnd r t') : t' < t ↔ SmallerAt r t' := by
  obtain ⟨c, a, hr, ht, hne⟩ := exists_mismatch (not_agreesToEnd_iff.mp hend)
  have hiff := lt_iff_of_mismatch hlcp hr ht hne.symm
  rw [String.lt_iff_toList_lt, hiff]
  constructor
  · intro hlt
    exact ⟨a, c, ht, hr, hlt⟩
  · rintro ⟨a', c', ht', hr', hlt⟩
    obtain rfl := Option.some.inj (ht.symm.trans ht')
    obtain rfl := Option.some.inj (hr.symm.trans hr')
    exact hlt

theorem exists_longest (r : List Char) (hne : candidates ≠ []) :
    ∃ t, Longest r candidates t := by
  obtain ⟨t, ht, hmax⟩ := candidates.toFinset.exists_max_image (fun t => lcp r t.toList)
    (List.toFinset_nonempty_iff candidates |>.mpr hne)
  exact ⟨t, List.mem_toFinset.mp ht, fun t' ht' => hmax t' (List.mem_toFinset.mpr ht')⟩

end Choice

/-- The directory that is chosen has the longest common prefix with the release, if and
only if one with the longest differs from the release before the end of both, or no
directory that agrees with the release one character less has a smaller one there. -/
theorem getConfigDir_longest_iff {v : KernelVersion} {candidates : List String}
    (hne : candidates ≠ []) (hmajor : ∀ t ∈ candidates, v.major.toList <+: t.toList) :
    (∃ dir, getConfigDir v candidates = some dir ∧
      Longest v.unameR.toList candidates dir) ↔
      (∃ t, Longest v.unameR.toList candidates t ∧ ¬ AgreesToEnd v.unameR.toList t) ∨
        ∀ t, Longest v.unameR.toList candidates t → ∀ t' ∈ candidates,
          lcp v.unameR.toList t'.toList + 1 = lcp v.unameR.toList t.toList →
            ¬ SmallerAt v.unameR.toList t' := by
  obtain ⟨dir, hdir, hget, hbest⟩ := getConfigDir_spec hne hmajor
  have hpos : ∀ t ∈ candidates, 0 < lcp v.unameR.toList t.toList :=
    fun t ht => lcp_pos (hmajor t ht)
  have hexists := exists_longest v.unameR.toList hne
  generalize v.unameR.toList = r at *
  -- the score is the length of the common prefix, or one less
  have hless : ∀ t, ¬ AgreesToEnd r t → lastIndex r t.toList = lcp r t.toList :=
    fun t h => lastIndex_of_lt (not_agreesToEnd_iff.mp h)
  have hfull : ∀ t, AgreesToEnd r t → lastIndex r t.toList = lcp r t.toList - 1 :=
    fun t h => lastIndex_of_eq h
  constructor
  · rintro ⟨d, hd, hlongest⟩
    obtain rfl := Option.some.inj (hget.symm.trans hd)
    rw [or_iff_not_imp_left]
    intro hall t ht t' ht' hone hsmaller
    have hagree : AgreesToEnd r dir := by
      by_contra h
      exact hall ⟨dir, hlongest, h⟩
    have hend : ¬ AgreesToEnd r t' := not_agreesToEnd_iff.mpr hsmaller.before_end
    have hsame : lcp r t.toList = lcp r dir.toList :=
      le_antisymm (hlongest.2 t ht.1) (ht.2 dir hdir)
    -- the smaller directory has the score of the chosen one
    have hlt : t' < dir := (lt_iff_smallerAt (by omega) hend).mpr hsmaller
    have hscore := hbest t' ht'
    rw [hless t' hend, hfull dir hagree] at hscore
    rcases hscore with hscore | ⟨-, hle⟩
    · omega
    · exact absurd hlt (not_lt.mpr hle)
  · intro hcond
    refine ⟨dir, hget, hdir, ?_⟩
    by_contra hnot
    have hshort : ∀ t, Longest r candidates t → lcp r dir.toList < lcp r t.toList := by
      intro t ht
      by_contra hle
      exact hnot fun t' ht' => (ht.2 t' ht').trans (Nat.le_of_not_lt hle)
    have hdirle : lastIndex r dir.toList ≤ lcp r dir.toList := min_le_left _ _
    -- a longest one that differs before its end has a greater score
    have hagree : ∀ t, Longest r candidates t → AgreesToEnd r t := by
      intro t ht
      by_contra hend
      have hlt := hshort t ht
      rcases hbest t ht.1 with hscore | ⟨hscore, -⟩ <;> rw [hless t hend] at hscore <;> omega
    obtain ⟨t, ht⟩ := hexists
    have hlt := hshort t ht
    have hscore := hbest t ht.1
    rw [hfull t (hagree t ht)] at hscore
    have hdirpos := hpos dir hdir
    -- the chosen one has the score of the longest, so it is one shorter
    have hend : ¬ AgreesToEnd r dir := by
      intro h
      rw [hfull dir h] at hscore
      omega
    rw [hless dir hend] at hscore
    rcases hscore with hscore | ⟨hscore, hle⟩
    · omega
    have hnone := hcond.resolve_left fun ⟨t₂, ht₂, h⟩ => h (hagree t₂ ht₂)
    have hsmaller := hnone t ht dir hdir (by omega)
    rw [← lt_iff_smallerAt hlt hend, not_lt] at hsmaller
    obtain rfl : dir = t := le_antisymm hle hsmaller
    exact Nat.lt_irrefl _ hlt

/-- The directories of the documentation, for the kernel `4.19.91-12.x86_64`. -/
def docDirs : List String := ["4.19", "4.19.91", "4.19.91-12"]

theorem getConfigDir_longest_doc :
    ∃ dir, getConfigDir ⟨"4", "19", "91", "12.x86_64"⟩ docDirs = some dir ∧
      Longest "4.19.91-12.x86_64".toList docDirs dir := by
  refine (getConfigDir_longest_iff (v := ⟨"4", "19", "91", "12.x86_64"⟩) (by decide)
    (by decide)).mpr (.inr ?_)
  have hall : ∀ t ∈ docDirs, ∀ t' ∈ docDirs,
      lcp "4.19.91-12.x86_64".toList t'.toList + 1 ≠
        lcp "4.19.91-12.x86_64".toList t.toList := by decide
  intro t ht t' ht' hone
  exact absurd hone (hall t ht.1 t' ht')

/-- With a directory for `4.19.90` the one for `4.19.91` is not found. -/
theorem getConfigDir_not_longest :
    ¬ ∀ (v : KernelVersion) (candidates : List String), candidates ≠ [] →
      (∀ t ∈ candidates, v.major.toList <+: t.toList) →
        ∃ dir, getConfigDir v candidates = some dir ∧
          Longest v.unameR.toList candidates dir := by
  intro h
  obtain ⟨dir, hget, -, hlongest⟩ := h ⟨"4", "19", "91", "1.x86_64"⟩ ["4.19.90", "4.19.91"]
    (by decide) (by decide)
  have hchoice : getConfigDir ⟨"4", "19", "91", "1.x86_64"⟩ ["4.19.90", "4.19.91"] =
      some "4.19.90" := by decide
  obtain rfl := Option.some.inj (hchoice.symm.trans hget)
  exact absurd (hlongest "4.19.91" (by decide)) (by decide)

end Plugsched
