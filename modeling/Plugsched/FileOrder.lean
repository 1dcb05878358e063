/-
The order in which the files of the configuration are enumerated.

`mod_files` and `sidecar` are sets, so each run of `analyze.py` enumerates them in an order
of its own.  `find_in_vmlinux` takes a unit for the last file with its base name, and a
function for that of the first file that defines it.

* `unitName_eq`, `getInAny_allFiles`, `attributed_eq` — these files, as the last and the
  first of lists that another order rearranges;
* `may_iff`, `must_iff` — the files under which a local function is found in some order, and
  in every order.
-/
import Plugsched.OrderChoice
import Plugsched.UnitRows

open ListRank OrderChoice

namespace Plugsched

/-! ### The files that count -/

/-- The same sets in another order. -/
structure Config.Reordered (config config' : Config) : Prop where
  modFiles : config'.modFiles.Perm config.modFiles
  sidecar : config'.sidecar.Perm config.sidecar

/-- The files that define `n`. -/
def definers (fns : Finset Signature) (n : String) (files : List String) : List String :=
  files.filter fun file => (n, file) ∈ fns

/-- The files that a unit of this name may be taken for. -/
def Config.owners (config : Config) (key : String) : List String :=
  firstNonempty [config.sdcrSrcs.filter (basename · == key),
    config.modSrcs.filter (basename · == key),
    config.modHdrs.filter (basename · == key), [key]]

/-- The files under which a global function `n` may be found. -/
def Config.globalOwners (config : Config) (fns : Finset Signature) (n : String) : List String :=
  firstNonempty [definers fns n config.modHdrs, definers fns n config.modSrcs,
    definers fns n config.sdcrSrcs]

/-- The files under which a local function `n` of the unit `u` may be found. -/
def Config.localOwners (config : Config) (fns : Finset Signature) (n u : String) : List String :=
  if u ∈ config.allFiles then
    if (n, u) ∈ fns then [u] else definers fns n config.modHdrs
  else []

section Files

variable {config config' : Config} {fns : Finset Signature} {n key u f : String}

theorem mem_definers {files : List String} :
    u ∈ definers fns n files ↔ u ∈ files ∧ (n, u) ∈ fns := by
  simp [definers]

theorem getInAny_eq (files : List String) :
    getInAny fns n files = (definers fns n files).head? := List.head?_filter.symm

theorem getInAny_allFiles (config : Config) (fns : Finset Signature) (n : String) :
    getInAny fns n config.allFiles = (config.globalOwners fns n).head? := by
  rw [getInAny_eq, Config.globalOwners, ← head?_flatten]
  simp [definers, Config.allFiles]

theorem attributed_eq (config : Config) (fns : Finset Signature) (n u : String) :
    attributed config fns n (some u) = (config.localOwners fns n u).head? := by
  rw [Config.localOwners, attributed, Option.bind_some]
  split_ifs
  · rfl
  · exact getInAny_eq config.modHdrs
  · rfl

/-- A file that defines `n` is the only one for its own unit. -/
theorem Config.localOwners_self (h : u ∈ config.localOwners fns n u) :
    config.localOwners fns n u = [u] := by
  rw [Config.localOwners] at h ⊢
  split_ifs at h ⊢ with hall hfn
  · rfl
  · exact absurd (mem_definers.mp h).2 hfn
  · cases h

theorem unitName_eq (config : Config) (key : String) :
    (config.owners key).getLast? = some (unitName config key) := by
  have hlast : config.fullname key = (firstNonempty [config.sdcrSrcs.filter (basename · == key),
      config.modSrcs.filter (basename · == key),
      config.modHdrs.filter (basename · == key)]).getLast? := by
    have h := getLast?_flatten [config.modHdrs.filter (basename · == key),
      config.modSrcs.filter (basename · == key), config.sdcrSrcs.filter (basename · == key)]
    rw [Config.fullname, ← List.head?_filter, List.filter_reverse, List.head?_reverse]
    simpa [Config.allFiles] using h
  rw [unitName, hlast]
  exact getLast?_firstNonempty_concat [config.sdcrSrcs.filter (basename · == key),
    config.modSrcs.filter (basename · == key), config.modHdrs.filter (basename · == key)] key

theorem unitName_mem (config : Config) (key : String) : unitName config key ∈ config.owners key :=
  List.mem_of_getLast? (unitName_eq config key)

/-! ### Other orders -/

variable (h : config.Reordered config')

include h

theorem Config.Reordered.modHdrs : config'.modHdrs.Perm config.modHdrs := h.modFiles.filter _

theorem Config.Reordered.modSrcs : config'.modSrcs.Perm config.modSrcs := h.modFiles.filter _

theorem Config.Reordered.sdcrSrcs : config'.sdcrSrcs.Perm config.sdcrSrcs := h.sidecar.map _

theorem Config.Reordered.allFiles : config'.allFiles.Perm config.allFiles :=
  (h.modHdrs.append h.modSrcs).append h.sdcrSrcs

theorem Config.Reordered.owners (key : String) :
    (config'.owners key).Perm (config.owners key) := by
  refine firstNonempty_perm (.cons ?_ (.cons ?_ (.cons ?_ (.cons ?_ .nil))))
  · exact h.sdcrSrcs.filter _
  · exact h.modSrcs.filter _
  · exact h.modHdrs.filter _
  · exact List.Perm.refl _

theorem Config.Reordered.globalOwners (fns : Finset Signature) (n : String) :
    (config'.globalOwners fns n).Perm (config.globalOwners fns n) := by
  refine firstNonempty_perm (.cons ?_ (.cons ?_ (.cons ?_ .nil)))
  · exact h.modHdrs.filter _
  · exact h.modSrcs.filter _
  · exact h.sdcrSrcs.filter _

theorem Config.Reordered.localOwners (fns : Finset Signature) (n u : String) :
    (config'.localOwners fns n u).Perm (config.localOwners fns n u) := by
  rw [Config.localOwners, Config.localOwners, if_congr h.allFiles.mem_iff rfl rfl]
  split_ifs
  · exact .refl _
  · exact h.modHdrs.filter _
  · exact .refl _

theorem Config.Reordered.unitName_mem (key : String) :
    unitName config' key ∈ config.owners key :=
  (h.owners key).mem_iff.mp (Plugsched.unitName_mem config' key)

end Files

/-- The files with `p` first and those with `q` last, in both sets. -/
def Config.rearrange (p q : String → Bool) (config : Config) : Config where
  modFiles := OrderChoice.rearrange p q config.modFiles
  sidecar := OrderChoice.rearrange (p ∘ Prod.snd) (q ∘ Prod.snd) config.sidecar

section Rearrange

variable (p q : String → Bool) (config : Config)

theorem Config.reordered_rearrange : config.Reordered (config.rearrange p q) :=
  ⟨rearrange_perm _ _ _, rearrange_perm _ _ _⟩

theorem Config.modHdrs_rearrange :
    (config.rearrange p q).modHdrs = OrderChoice.rearrange p q config.modHdrs :=
  filter_rearrange p q _ _

theorem Config.modSrcs_rearrange :
    (config.rearrange p q).modSrcs = OrderChoice.rearrange p q config.modSrcs :=
  filter_rearrange p q _ _

theorem Config.sdcrSrcs_rearrange :
    (config.rearrange p q).sdcrSrcs = OrderChoice.rearrange p q config.sdcrSrcs :=
  map_rearrange Prod.snd p q _

theorem Config.owners_rearrange (key : String) :
    (config.rearrange p q).owners key = OrderChoice.rearrange p q (config.owners key) := by
  rw [Config.owners, Config.owners, ← firstNonempty_map_rearrange, Config.modHdrs_rearrange,
    Config.modSrcs_rearrange, Config.sdcrSrcs_rearrange]
  simp only [filter_rearrange, List.map_cons, List.map_nil, rearrange_singleton]

theorem Config.globalOwners_rearrange (fns : Finset Signature) (n : String) :
    (config.rearrange p q).globalOwners fns n =
      OrderChoice.rearrange p q (config.globalOwners fns n) := by
  rw [Config.globalOwners, Config.globalOwners, ← firstNonempty_map_rearrange,
    Config.modHdrs_rearrange, Config.modSrcs_rearrange, Config.sdcrSrcs_rearrange]
  simp only [definers, filter_rearrange, List.map_cons, List.map_nil]

theorem Config.localOwners_rearrange (fns : Finset Signature) (n u : String) :
    (config.rearrange p q).localOwners fns n u =
      OrderChoice.rearrange p q (config.localOwners fns n u) := by
  have hall := (config.reordered_rearrange p q).allFiles
  rw [Config.localOwners, Config.localOwners, if_congr hall.mem_iff rfl rfl,
    Config.modHdrs_rearrange]
  split_ifs
  · rw [rearrange_singleton]
  · rw [definers, filter_rearrange, definers]
  · rfl

end Rearrange

section Choose

variable {p q : String → Bool} {config : Config} {fns : Finset Signature} {n key u f : String}

/-- An order with `q` last takes the unit for a file with `q`. -/
theorem unitName_rearrange (hpq : ∀ f, q f = true → p f = false)
    (h : ∃ f ∈ config.owners key, q f = true) :
    q (unitName (config.rearrange p q) key) = true := by
  obtain ⟨f, -, hlast, hq⟩ := getLast?_rearrange (fun f _ => hpq f) h
  rw [← Config.owners_rearrange, unitName_eq] at hlast
  rwa [Option.some.inj hlast]

/-- An order with `u` last takes the unit for `u`. -/
theorem unitName_last (hp : p u = false) (hu : u ∈ config.owners key) :
    unitName (config.rearrange p (· == u)) key = u := by
  refine eq_of_beq (unitName_rearrange (q := (· == u)) ?_ ⟨u, hu, beq_self_eq_true u⟩)
  intro f hf
  rwa [eq_of_beq hf]

theorem getInAny_first {files : List String} (hu : u ∈ definers fns n files) :
    getInAny fns n (OrderChoice.rearrange (· == u) q files) = some u := by
  obtain ⟨f, -, hhead, hf⟩ := head?_rearrange (p := (· == u)) (q := q) ⟨u, hu, beq_self_eq_true u⟩
  rw [getInAny_eq, definers, filter_rearrange]
  rw [eq_of_beq hf] at hhead
  exact hhead

/-- An order with `u` first finds a global function in `u`. -/
theorem getInAny_allFiles_first (hu : u ∈ config.globalOwners fns n) :
    getInAny fns n (config.rearrange (· == u) q).allFiles = some u := by
  obtain ⟨f, -, hhead, hf⟩ := head?_rearrange (p := (· == u)) (q := q) ⟨u, hu, beq_self_eq_true u⟩
  rw [getInAny_allFiles, Config.globalOwners_rearrange]
  rw [eq_of_beq hf] at hhead
  exact hhead

/-- Some order takes the unit for `u` and finds its function under `f`. -/
theorem exists_attributed (hu : u ∈ config.owners key) (hf : f ∈ config.localOwners fns n u) :
    ∃ p q, unitName (config.rearrange p q) key = u ∧
      attributed (config.rearrange p q) fns n (some u) = some f := by
  by_cases hfu : f = u
  · subst hfu
    refine ⟨fun _ => false, (· == f), unitName_last rfl hu, ?_⟩
    rw [attributed_eq, Config.localOwners_rearrange, Config.localOwners_self hf,
      rearrange_singleton]
    rfl
  · refine ⟨(· == f), (· == u), unitName_last (beq_false_of_ne (Ne.symm hfu)) hu, ?_⟩
    obtain ⟨g, -, hhead, hg⟩ :=
      head?_rearrange (p := (· == f)) (q := (· == u)) ⟨f, hf, beq_self_eq_true f⟩
    rw [attributed_eq, Config.localOwners_rearrange, hhead, eq_of_beq hg]

end Choose

/-! ### Local functions in all orders -/

/-- The local function `n` of a row is found under `f` in some order. -/
def MayTake (config : Config) (fns : Finset Signature) (n : String) (row : Option String)
    (f : String) : Prop :=
  ∃ key, row = some key ∧ ∃ u ∈ config.owners key, f ∈ config.localOwners fns n u

/-- The local function `n` of a row is found under `f` in every order. -/
def MustTake (config : Config) (fns : Finset Signature) (n : String) (row : Option String)
    (f : String) : Prop :=
  ∃ key, row = some key ∧ ∀ u ∈ config.owners key,
    config.localOwners fns n u ≠ [] ∧ ∀ g ∈ config.localOwners fns n u, g = f

/-- The orders of a configuration. -/
abbrev Config.Order (config : Config) : Type := {config' : Config // config.Reordered config'}

/-- The order with `p` first and `q` last. -/
abbrev Config.arranged (config : Config) (p q : String → Bool) : config.Order :=
  ⟨config.rearrange p q, config.reordered_rearrange p q⟩

/-- The file under which the local function of a row is found in an order. -/
def rowFile (config : Config) (fns : Finset Signature) (n : String) (order : config.Order)
    (row : Option String) : Option String :=
  attributed order.1 fns n (row.map (unitName order.1))

section Takes

variable {config : Config} {fns : Finset Signature} {n f : String} {row : Option String}

theorem may_iff : May (rowFile config fns n) row f ↔ MayTake config fns n row f := by
  constructor
  · rintro ⟨⟨config', h⟩, htake⟩
    cases row with
    | none => cases htake
    | some key =>
      refine ⟨key, rfl, unitName config' key, h.unitName_mem key, ?_⟩
      rw [rowFile, Option.map_some, attributed_eq] at htake
      exact (h.localOwners fns n _).mem_iff.mp (List.mem_of_head? htake)
  · rintro ⟨key, rfl, u, hu, hf⟩
    obtain ⟨p, q, hunit, hattr⟩ := exists_attributed hu hf
    refine ⟨config.arranged p q, ?_⟩
    show attributed _ fns n (some (unitName _ key)) = some f
    rw [hunit, hattr]

theorem must_iff : Must (rowFile config fns n) row f ↔ MustTake config fns n row f := by
  constructor
  · intro hmust
    cases row with
    | none => cases hmust ⟨config, .refl _, .refl _⟩
    | some key =>
      have hat : ∀ p q, attributed (config.rearrange p q) fns n
          (some (unitName (config.rearrange p q) key)) = some f :=
        fun p q => hmust (config.arranged p q)
      refine ⟨key, rfl, fun u hu => ⟨?_, ?_⟩⟩
      · intro hnil
        have h := hat (fun _ => false) (· == u)
        rw [unitName_last rfl hu, attributed_eq, Config.localOwners_rearrange, hnil] at h
        cases h
      · intro g hg
        obtain ⟨p, q, hunit, hattr⟩ := exists_attributed hu hg
        have h := hat p q
        rw [hunit, hattr] at h
        exact Option.some.inj h
  · rintro ⟨key, rfl, hall⟩ ⟨config', h⟩
    obtain ⟨hne, heq⟩ := hall _ (h.unitName_mem key)
    show attributed config' fns n (some (unitName config' key)) = some f
    have hhead := head?_perm (h.localOwners fns n (unitName config' key))
      fun g hg g' hg' => (heq g hg).trans (heq g' hg').symm
    rw [attributed_eq, hhead, List.head?_eq_some_head hne, heq _ (List.head_mem hne)]

end Takes

end Plugsched
