/-
Paths as texts and as lists of names, and what Python's `os.path` does with them.

A place in the file system is the list of the names that lead to it from the root;
no name is a link.

* `walk` — where a path leads from a directory; `walk_join`, `walk_dirname`;
* `relative`, `walk_relative` — the path from one place to another leads there;
* `exists_walk` — a path leads up to a directory above, and then down by names of its own.
-/
import Mathlib.Data.List.TakeWhile
import Plugsched.TextLines

open TextLines

namespace Paths

/-- The names on the way from the root. -/
abbrev TreePath := List Line

/-- The name of a file or a directory. -/
def IsName (name : Line) : Prop :=
  name ≠ [] ∧ name ≠ ['.'] ∧ name ≠ ['.', '.'] ∧ '/' ∉ name

instance (name : Line) : Decidable (IsName name) := inferInstanceAs (Decidable (_ ∧ _))

/-- A place of names. -/
def Proper (place : TreePath) : Prop := ∀ name ∈ place, IsName name

instance (place : TreePath) : Decidable (Proper place) :=
  inferInstanceAs (Decidable (∀ name ∈ place, IsName name))

/-! ### Walking -/

/-- One part of a path. -/
def step (dir : TreePath) (name : Line) : TreePath :=
  if name = [] ∨ name = ['.'] then dir
  else if name = ['.', '.'] then dir.dropLast
  else dir ++ [name]

def walkNames (dir : TreePath) (names : List Line) : TreePath := names.foldl step dir

/-- The place where a path starts. -/
def startOf (dir : TreePath) (path : Line) : TreePath := if path.head? = some '/' then [] else dir

/-- Where a path leads from a directory: what `abspath` makes of it there. -/
def walk (dir : TreePath) (path : Line) : TreePath :=
  walkNames (startOf dir path) (path.splitOn '/')

section Walk

variable {dir : TreePath} {name path : Line} {names : List Line}

@[simp] theorem walkNames_nil (dir : TreePath) : walkNames dir [] = dir := rfl

@[simp] theorem walkNames_cons (dir : TreePath) (name : Line) (names : List Line) :
    walkNames dir (name :: names) = walkNames (step dir name) names := rfl

theorem walkNames_append (dir : TreePath) (names names' : List Line) :
    walkNames dir (names ++ names') = walkNames (walkNames dir names) names' :=
  List.foldl_append

@[simp] theorem step_nil (dir : TreePath) : step dir [] = dir := if_pos (Or.inl rfl)

theorem step_of_isName (h : IsName name) : step dir name = dir ++ [name] := by
  rw [step, if_neg (by simp [h.1, h.2.1]), if_neg h.2.2.1]

theorem step_dotdot (dir : TreePath) : step dir ['.', '.'] = dir.dropLast := by
  rw [step, if_neg (by simp), if_pos rfl]

/-- Names lead down. -/
theorem walkNames_of_proper (h : Proper names) : walkNames dir names = dir ++ names := by
  induction names generalizing dir with
  | nil => exact (List.append_nil dir).symm
  | cons name names ih =>
    obtain ⟨hname, hnames⟩ := List.forall_mem_cons.mp h
    rw [walkNames_cons, step_of_isName hname, ih hnames, List.append_assoc, List.singleton_append]

/-- `..` leads up. -/
theorem walkNames_dotdots (dir : TreePath) (k : ℕ) :
    walkNames dir (List.replicate k ['.', '.']) = dir.take (dir.length - k) := by
  induction k generalizing dir with
  | zero => exact (List.take_of_length_le (Nat.sub_zero dir.length).ge).symm
  | succ k ih =>
    rw [List.replicate_succ, walkNames_cons, step_dotdot, ih, List.dropLast_eq_take, List.take_take,
      List.length_take]
    congr 1
    omega

theorem walk_nil (dir : TreePath) : walk dir [] = dir := by
  rw [walk, List.splitOn_nil]
  rfl

theorem startOf_append (dir : TreePath) (h : path ≠ []) (rest : Line) :
    startOf dir (path ++ rest) = startOf dir path := by
  rw [startOf, startOf, List.head?_append_of_ne_nil path h]

/-- A path with a slash in it. -/
theorem walk_append_slash (dir : TreePath) (path rest : Line) :
    walk dir (path ++ '/' :: rest) = walkNames (walk dir (path ++ ['/'])) (rest.splitOn '/') := by
  have hstart : startOf dir (path ++ '/' :: rest) = startOf dir (path ++ ['/']) := by
    rw [← startOf_append dir
        (List.append_ne_nil_of_right_ne_nil path (List.cons_ne_nil '/' [])) rest,
      List.append_assoc]
    rfl
  rw [walk, walk, hstart, List.splitOn_append_cons_self, List.splitOn_append_cons_self,
    List.splitOn_nil, walkNames_append, walkNames_append, walkNames_cons, step_nil, walkNames_nil]

/-- A slash at the end does not matter. -/
theorem walk_append_singleton (dir : TreePath) (h : path ≠ []) :
    walk dir (path ++ ['/']) = walk dir path := by
  rw [walk, walk, startOf_append dir h, List.splitOn_append_cons_self, List.splitOn_nil,
    walkNames_append, walkNames_cons, step_nil, walkNames_nil]

theorem walk_append_replicate (dir : TreePath) (h : path ≠ []) (k : ℕ) :
    walk dir (path ++ List.replicate k '/') = walk dir path := by
  induction k with
  | zero => rw [List.replicate_zero, List.append_nil]
  | succ k ih =>
    rw [List.replicate_succ', ← List.append_assoc, walk_append_singleton, ih]
    exact List.append_ne_nil_of_left_ne_nil h _

/-- A relative path. -/
theorem walk_of_relative (h : path.head? ≠ some '/') :
    walk dir path = walkNames dir (path.splitOn '/') := by
  rw [walk, startOf, if_neg h]

/-- A path from the root. -/
theorem walk_of_absolute (h : path.head? = some '/') (dir dir' : TreePath) :
    walk dir path = walk dir' path := by
  rw [walk, walk, startOf, startOf, if_pos h, if_pos h]

theorem walk_of_isName (h : IsName name) : walk dir name = dir ++ [name] := by
  have hhead : name.head? ≠ some '/' := fun hslash => h.2.2.2 (List.mem_of_head? hslash)
  rw [walk_of_relative hhead, List.splitOn_eq_singleton h.2.2.2, walkNames_cons, step_of_isName h,
    walkNames_nil]

/-- A path of names. -/
theorem walk_intercalate (hne : names ≠ []) (h : ∀ name ∈ names, '/' ∉ name)
    (hhead : names.head? ≠ some []) :
    walk dir (['/'].intercalate names) = walkNames dir names := by
  have hslash : (['/'].intercalate names).head? ≠ some '/' := by
    cases names with
    | nil => exact absurd rfl hne
    | cons name names =>
      obtain ⟨hname, -⟩ := List.forall_mem_cons.mp h
      have hfirst : name ≠ [] := fun heq => hhead (congrArg some heq)
      obtain ⟨c, rest, rfl⟩ := List.exists_cons_of_ne_nil hfirst
      cases names with
      | nil => simpa using fun heq : c = '/' => hname (heq ▸ List.mem_cons_self)
      | cons name' names => simpa using fun heq : c = '/' => hname (heq ▸ List.mem_cons_self)
  rw [walk_of_relative hslash, List.splitOn_intercalate '/' h hne]

end Walk

/-! ### The names of a place -/

section Names

variable {dir : TreePath} {name path : Line} {names : List Line}

theorem notMem_of_mem_splitOn {c : Char} (h : name ∈ path.splitOn c) : c ∉ name := by
  intro hmem
  rw [List.splitOn_eq_splitOnP] at h
  simpa using of_mem_splitOnP h c hmem

theorem mem_intercalate {c d : Char} (hcd : c ≠ d) :
    c ∈ [d].intercalate names ↔ ∃ name ∈ names, c ∈ name := by
  induction names with
  | nil => simp
  | cons name names ih =>
    cases names with
    | nil => simp
    | cons name' names =>
      rw [List.intercalate_cons_cons, List.mem_append, List.mem_append, ih, List.mem_singleton]
      simp [hcd]

theorem mem_of_mem_splitOn {c d : Char} (hname : name ∈ path.splitOn d) (hc : c ∈ name)
    (hcd : c ≠ d) : c ∈ path := by
  have h := (mem_intercalate hcd).mpr ⟨name, hname, hc⟩
  rwa [List.intercalate_splitOn] at h

/-- A path goes up to a directory above, and then down by names of its own. -/
theorem exists_walkNames (dir : TreePath) (names : List Line) :
    ∃ k tail, walkNames dir names = dir.take k ++ tail ∧ ∀ name ∈ tail, name ∈ names := by
  induction names using List.reverseRecOn with
  | nil => exact ⟨dir.length, [], by simp, by simp⟩
  | append_singleton names last ih =>
    obtain ⟨k, tail, hwalk, htail⟩ := ih
    rw [walkNames_append, walkNames_cons, walkNames_nil, hwalk, step]
    split
    · exact ⟨k, tail, rfl, fun name h => List.mem_append_left _ (htail name h)⟩
    · split
      · -- `..` takes back a name of the tail, or leads above the directory
        by_cases hnil : tail = []
        · refine ⟨min k dir.length - 1, [], ?_, by simp⟩
          rw [hnil, List.append_nil, List.append_nil, List.dropLast_eq_take, List.take_take,
            List.length_take]
          congr 1
          omega
        · rw [List.dropLast_append_of_ne_nil hnil]
          exact ⟨k, tail.dropLast, rfl, fun name h =>
            List.mem_append_left _ (htail name (List.mem_of_mem_dropLast h))⟩
      · refine ⟨k, tail ++ [last], List.append_assoc .., fun name h => ?_⟩
        rcases List.mem_append.mp h with h | h
        · exact List.mem_append_left _ (htail name h)
        · exact List.mem_append_right _ h

theorem exists_walk (dir : TreePath) (path : Line) :
    ∃ k tail, walk dir path = dir.take k ++ tail ∧ ∀ name ∈ tail, name ∈ path.splitOn '/' := by
  by_cases h : path.head? = some '/'
  · obtain ⟨k, tail, hwalk, htail⟩ := exists_walkNames [] (path.splitOn '/')
    refine ⟨0, tail, ?_, htail⟩
    rw [walk, startOf, if_pos h, hwalk, List.take_nil, List.take_zero]
  · rw [walk_of_relative h]
    exact exists_walkNames dir _

theorem proper_step (h : Proper dir) (hname : '/' ∉ name) : Proper (step dir name) := by
  rw [step]
  split
  · exact h
  · next hdot =>
    split
    · exact fun name hmem => h name (List.mem_of_mem_dropLast hmem)
    · next hdots =>
      intro other hmem
      rcases List.mem_append.mp hmem with hmem | hmem
      · exact h other hmem
      · rw [List.mem_singleton.mp hmem]
        exact ⟨fun heq => hdot (Or.inl heq), fun heq => hdot (Or.inr heq), hdots, hname⟩

theorem proper_walkNames (h : Proper dir) (hnames : ∀ name ∈ names, '/' ∉ name) :
    Proper (walkNames dir names) := by
  induction names generalizing dir with
  | nil => exact h
  | cons name names ih =>
    obtain ⟨hname, hrest⟩ := List.forall_mem_cons.mp hnames
    exact ih (proper_step h hname) hrest

theorem proper_walk (h : Proper dir) (path : Line) : Proper (walk dir path) := by
  refine proper_walkNames ?_ fun name hname => notMem_of_mem_splitOn hname
  rw [startOf]
  split
  · exact fun name hmem => absurd hmem List.not_mem_nil
  · exact h

end Names

/-! ### The parts of a path -/

/-- `os.path.join(a, b)`. -/
def joinPath (a b : Line) : Line :=
  if b.head? = some '/' then b
  else if a = [] ∨ a.getLast? = some '/' then a ++ b
  else a ++ '/' :: b

/-- `os.path.basename`: what follows the last slash. -/
def basename (path : Line) : Line := (path.reverse.takeWhile (· ≠ '/')).reverse

/-- The text up to the last slash. -/
def headPart (path : Line) : Line := (path.reverse.dropWhile (· ≠ '/')).reverse

/-- `s.rstrip('/')`. -/
def stripSlashes (s : Line) : Line := (s.reverse.dropWhile (· = '/')).reverse

/-- `os.path.dirname`. -/
def dirname (path : Line) : Line :=
  if (headPart path).all (· = '/') then headPart path else stripSlashes (headPart path)

section Parts

variable {dir : TreePath} {path a b : Line}

/-- A joined path leads where its parts lead, one after the other. -/
theorem walk_join (dir : TreePath) (a b : Line) :
    walk dir (joinPath a b) = walk (walk dir a) b := by
  rw [joinPath]
  split
  · next h => exact walk_of_absolute h dir (walk dir a)
  · next h =>
    rw [walk_of_relative h]
    split
    · next hend =>
      rcases hend with rfl | hend
      · rw [walk_nil, List.nil_append, walk_of_relative h]
      · obtain ⟨front, rfl⟩ := List.getLast?_eq_some_iff.mp hend
        rw [List.append_assoc, List.singleton_append, walk_append_slash]
    · next hend =>
      rw [walk_append_slash, walk_append_singleton dir fun heq => hend (Or.inl heq)]

theorem headPart_append_basename (path : Line) : headPart path ++ basename path = path := by
  rw [headPart, basename, ← List.reverse_append, List.takeWhile_append_dropWhile,
    List.reverse_reverse]

theorem basename_of_notMem (h : '/' ∉ path) : basename path = path := by
  have hall : path.reverse.takeWhile (· ≠ '/') = path.reverse := by
    refine List.takeWhile_eq_self_iff.mpr fun c hc => ?_
    have hne : c ≠ '/' := fun heq => h (heq ▸ List.mem_reverse.mp hc)
    simpa using hne
  rw [basename, hall, List.reverse_reverse]

theorem basename_append_slash (a b : Line) : basename (a ++ '/' :: b) = basename b := by
  have hstop : ('/' :: a.reverse).takeWhile (· ≠ '/') = [] := rfl
  rw [basename, basename, List.reverse_append, List.reverse_cons, List.append_assoc,
    List.singleton_append, List.takeWhile_append]
  split
  · next hall =>
    rw [hstop, List.append_nil, List.IsPrefix.eq_of_length (List.takeWhile_prefix _) hall]
  · rfl

theorem slash_notMem_basename (path : Line) : '/' ∉ basename path := by
  intro h
  rw [basename, List.mem_reverse] at h
  simpa using List.mem_takeWhile_imp h

/-- The part up to the last slash is empty or ends with it. -/
theorem headPart_eq (path : Line) :
    headPart path = [] ∨ ∃ front, headPart path = front ++ ['/'] := by
  rw [headPart]
  cases h : path.reverse.dropWhile (· ≠ '/') with
  | nil => exact Or.inl rfl
  | cons c rest =>
    have hc := List.head?_dropWhile_not (p := (· ≠ '/')) path.reverse
    rw [h] at hc
    have heq : c = '/' := by simpa using hc
    exact Or.inr ⟨rest.reverse, by rw [heq, List.reverse_cons]⟩

theorem exists_stripSlashes (s : Line) : ∃ k, s = stripSlashes s ++ List.replicate k '/' := by
  refine ⟨(s.reverse.takeWhile (· = '/')).length, ?_⟩
  have hall : s.reverse.takeWhile (· = '/') =
      List.replicate (s.reverse.takeWhile (· = '/')).length '/' := by
    refine List.eq_replicate_iff.mpr ⟨rfl, fun c hc => ?_⟩
    simpa using List.mem_takeWhile_imp hc
  rw [← List.reverse_replicate, ← hall, stripSlashes, ← List.reverse_append,
    List.takeWhile_append_dropWhile, List.reverse_reverse]

theorem walk_dirname_eq (dir : TreePath) (path : Line) :
    walk dir (dirname path) = walk dir (headPart path) := by
  rw [dirname]
  split
  · rfl
  · next hall =>
    obtain ⟨k, hk⟩ := exists_stripSlashes (headPart path)
    -- only slashes at the end are stripped, and something is left
    have hne : stripSlashes (headPart path) ≠ [] := by
      intro hnil
      rw [hnil, List.nil_append] at hk
      rw [hk] at hall
      simp at hall
    conv_rhs => rw [hk, walk_append_replicate dir hne]

theorem headPart_append_slash (a : Line) {b : Line} (h : '/' ∉ b) :
    headPart (a ++ '/' :: b) = a ++ ['/'] := by
  have hsplit := headPart_append_basename (a ++ '/' :: b)
  rw [basename_append_slash, basename_of_notMem h] at hsplit
  refine List.append_cancel_right (hsplit.trans ?_)
  rw [List.append_assoc, List.singleton_append]

/-- A name alone has no directory. -/
theorem dirname_of_notMem (h : '/' ∉ path) : dirname path = [] := by
  have hsplit := headPart_append_basename path
  rw [basename_of_notMem h] at hsplit
  have hhead : headPart path = [] :=
    List.append_cancel_right (hsplit.trans (List.nil_append path).symm)
  rw [dirname, hhead]
  rfl

theorem basename_mem_splitOn (path : Line) : basename path ∈ path.splitOn '/' := by
  have hsingle := List.splitOn_eq_singleton (slash_notMem_basename path)
  have hsplit : path.splitOn '/' = (headPart path ++ basename path).splitOn '/' := by
    rw [headPart_append_basename]
  rw [hsplit]
  rcases headPart_eq path with hnil | ⟨front, hfront⟩
  · rw [hnil, List.nil_append, hsingle]
    exact List.mem_singleton_self _
  · rw [hfront, List.append_assoc, List.singleton_append, List.splitOn_append_cons_self, hsingle]
    exact List.mem_append_right _ (List.mem_singleton_self _)

/-- A path leads to the directory of its file, and from there to the file. -/
theorem walk_dirname (dir : TreePath) (path : Line) :
    walk dir path = step (walk dir (dirname path)) (basename path) := by
  have hbase := slash_notMem_basename path
  have hsingle := List.splitOn_eq_singleton hbase
  rw [walk_dirname_eq]
  conv_lhs => rw [← headPart_append_basename path]
  rcases headPart_eq path with hnil | ⟨front, hfront⟩
  · -- a base name alone is relative
    have hhead : (basename path).head? ≠ some '/' := fun h => hbase (List.mem_of_head? h)
    rw [hnil, List.nil_append, walk_nil, walk_of_relative hhead, hsingle, walkNames_cons,
      walkNames_nil]
  · rw [hfront, List.append_assoc, List.singleton_append, walk_append_slash, hsingle,
      walkNames_cons,
      walkNames_nil]

theorem walk_eq_append (h : IsName (basename path)) :
    walk dir path = walk dir (dirname path) ++ [basename path] := by
  rw [walk_dirname, step_of_isName h]

end Parts

/-! ### From one place to another -/

/-- The number of names that two places start with. -/
def common : TreePath → TreePath → ℕ
  | a :: s, b :: t => if a = b then common s t + 1 else 0
  | _, _ => 0

/-- The part of the target below the directories that both share. -/
def below (start target : TreePath) : List Line := target.drop (common start target)

/-- `rel_list`. -/
def relList (start target : TreePath) : List Line :=
  List.replicate (start.length - common start target) ['.', '.'] ++ below start target

/-- The path from one place to another. -/
def relative (start target : TreePath) : Line :=
  if relList start target = [] then ['.'] else ['/'].intercalate (relList start target)

/-- `os.path.relpath(path, start)`, which refuses an empty path. -/
def relpath (cwd : TreePath) (path start : Line) : Option Line :=
  if path = [] then none else some (relative (walk cwd start) (walk cwd path))

section Relative

variable {start target dir : TreePath} {name : Line}

theorem common_le_left (start target : TreePath) : common start target ≤ start.length := by
  fun_induction common start target with
  | case1 b s t ih => exact Nat.succ_le_succ ih
  | case2 a s b t h => exact Nat.zero_le _
  | case3 start target h => exact Nat.zero_le _

theorem take_common (start target : TreePath) :
    start.take (common start target) = target.take (common start target) := by
  fun_induction common start target with
  | case1 b s t ih => rw [List.take_succ_cons, List.take_succ_cons, ih]
  | case2 a s b t h => rfl
  | case3 start target h => rfl

/-- No more names are shared. -/
theorem le_common {k : ℕ} (hk : k ≤ start.length) (h : start.take k <+: target) :
    k ≤ common start target := by
  induction k generalizing start target with
  | zero => exact Nat.zero_le _
  | succ k ih =>
    cases start with
    | nil => cases hk
    | cons a s =>
      rw [List.take_succ_cons] at h
      obtain ⟨rest, hrest⟩ := h
      cases target with
      | nil => cases hrest
      | cons b t =>
        obtain ⟨rfl, ht⟩ := List.cons.inj hrest
        rw [common, if_pos rfl]
        exact Nat.succ_le_succ (ih (Nat.le_of_succ_le_succ hk) ⟨rest, ht⟩)

theorem proper_below (h : Proper target) : Proper (below start target) :=
  fun name hmem => h name (List.mem_of_mem_drop hmem)

theorem slash_notMem_relList (h : Proper target) (hmem : name ∈ relList start target) :
    '/' ∉ name := by
  rcases List.mem_append.mp hmem with hmem | hmem
  · rw [List.eq_of_mem_replicate hmem]
    decide
  · exact (proper_below h name hmem).2.2.2

theorem nil_notMem_relList (h : Proper target) : [] ∉ relList start target := by
  intro hmem
  rcases List.mem_append.mp hmem with hmem | hmem
  · cases List.eq_of_mem_replicate hmem
  · exact (proper_below h [] hmem).1 rfl

theorem relative_ne_nil (h : Proper target) : relative start target ≠ [] := by
  rw [relative]
  split
  · exact List.cons_ne_nil _ _
  · next hne =>
    obtain ⟨name, rest, hrest⟩ := List.exists_cons_of_ne_nil hne
    have hname : name ≠ [] := by
      rintro rfl
      exact nil_notMem_relList h (hrest ▸ List.mem_cons_self)
    rw [hrest]
    cases rest with
    | nil => simpa using hname
    | cons name' rest => simp

/-- The path between two places leads from the one to the other. -/
theorem walk_relative (h : Proper target) : walk start (relative start target) = target := by
  -- up to the shared directories, then down
  have hup : walkNames start (relList start target) = target := by
    rw [relList, walkNames_append, walkNames_dotdots, walkNames_of_proper (proper_below h), below,
      Nat.sub_sub_self (common_le_left start target), take_common, List.take_append_drop]
  rw [relative]
  split
  · next hnil =>
    rw [hnil, walkNames_nil] at hup
    rw [hup]
    rfl
  · next hne =>
    rw [walk_intercalate hne (fun name hmem => slash_notMem_relList h hmem), hup]
    exact fun hhead => nil_notMem_relList h (List.mem_of_head? hhead)

/-- A character of the path between two places. -/
theorem mem_relative (start target : TreePath) {c : Char} (hdot : c ≠ '.') (hslash : c ≠ '/') :
    c ∈ relative start target ↔ ∃ name ∈ below start target, c ∈ name := by
  rw [relative]
  split
  · next hnil =>
    have hbelow : below start target = [] := (List.append_eq_nil_iff.mp hnil).2
    simp [hbelow, hdot]
  · rw [mem_intercalate hslash]
    constructor
    · rintro ⟨name, hname, hc⟩
      rcases List.mem_append.mp hname with hname | hname
      · rw [List.eq_of_mem_replicate hname] at hc
        simp [hdot] at hc
      · exact ⟨name, hname, hc⟩
    · rintro ⟨name, hname, hc⟩
      exact ⟨name, List.mem_append_right _ hname, hc⟩

/-- A path without the character leads nowhere below a name that has it. -/
theorem walk_ne {c : Char} (hslash : c ≠ '/') {path : Line} (hc : c ∉ path)
    (h : ∃ name ∈ below start target, c ∈ name) : walk start path ≠ target := by
  intro heq
  obtain ⟨k, tail, hwalk, htail⟩ := exists_walk start path
  obtain ⟨name, hname, hcname⟩ := h
  have hfree : ∀ other ∈ tail, c ∉ other := fun other hother hmem =>
    hc (mem_of_mem_splitOn (htail other hother) hmem hslash)
  have hprefix : start.take (min k start.length) <+: target := by
    rw [← heq, hwalk]
    rcases le_total k start.length with hle | hle
    · rw [Nat.min_eq_left hle]
      exact List.prefix_append _ _
    · rw [Nat.min_eq_right hle, List.take_of_length_le le_rfl, List.take_of_length_le hle]
      exact List.prefix_append _ _
  have hk := le_common (Nat.min_le_right k start.length) hprefix
  -- what lies below the shared names is part of the tail
  have hsuffix : name ∈ tail := by
    have hsplit : target = start.take k ++ tail := heq.symm.trans hwalk
    rw [below] at hname
    generalize common start target = i at hname hk
    rw [hsplit, List.drop_append] at hname
    rcases List.mem_append.mp hname with hname | hname
    · rw [List.drop_eq_nil_of_le] at hname
      · cases hname
      · rw [List.length_take]
        exact hk
    · exact List.mem_of_mem_drop hname
  exact hfree name hsuffix hcname

/-- The path to a place below. -/
theorem relative_append (start : TreePath) {names : List Line} (h : names ≠ []) :
    relative start (start ++ names) = ['/'].intercalate names := by
  have hcommon : common start (start ++ names) = start.length := by
    refine le_antisymm (common_le_left _ _) (le_common le_rfl ?_)
    rw [List.take_length]
    exact List.prefix_append start names
  have hlist : relList start (start ++ names) = names := by
    rw [relList, below, hcommon, Nat.sub_self, List.replicate_zero, List.drop_left]
    rfl
  rw [relative, hlist, if_neg h]

/-- Only from its own directory is a file reached by its name alone. -/
theorem relative_eq_name_iff (hdir : Proper dir) (hname : IsName name) :
    relative start (dir ++ [name]) = name ↔ start = dir := by
  have htarget : Proper (dir ++ [name]) := by
    intro other hmem
    rcases List.mem_append.mp hmem with hmem | hmem
    · exact hdir other hmem
    · rw [List.mem_singleton.mp hmem]
      exact hname
  constructor
  · intro heq
    have hwalk : walk start (relative start (dir ++ [name])) = dir ++ [name] :=
      walk_relative htarget
    rw [heq, walk_of_isName hname] at hwalk
    exact List.append_cancel_right hwalk
  · rintro rfl
    rw [relative_append start (List.cons_ne_nil name [])]
    exact List.append_nil name

end Relative

end Paths
