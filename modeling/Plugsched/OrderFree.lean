/-
When `find_in_vmlinux` does not depend on the order in which the files are enumerated.

The results for a name come from the rows of its symbols, each with the `FILE` symbol in
front of it.  In some order a unit is any of its owners, and a function is found in any of
the files that define it.

* `localsSettled_iff`, `globalSettled_iff`, `clonesSettled_iff`, `exportsSettled_iff` — what
  has to be settled about a name for each of the results to be the same in all orders;
* `findInVmlinux_orderFree_iff` — all results are the same exactly if all this is settled
  for all names, or a function stands in front of all units.
-/
import Plugsched.FileOrder

open ListRank OrderChoice

namespace Plugsched

/-! ### What has to be settled -/

section Settled

variable (config : Config) (fns : Finset Signature) (table : List Sym) (n : String)

/-- A local function that may be found under a file must be found there, or a later one. -/
def LocalsSettled : Prop :=
  ∀ a row b, unitKeys (Sym.isLocalFunc n) none table = a ++ row :: b → ∀ f,
    MayTake config fns n row f →
      MustTake config fns n row f ∨ ∃ row' ∈ b, MustTake config fns n row' f

/-- A global function may be found in one file only, or its name must be found in all these
files as that of a local function. -/
def GlobalSettled : Prop :=
  (∃ s ∈ table, s.isGlobalFunc n = true) →
    (∀ g ∈ config.globalOwners fns n, ∀ g' ∈ config.globalOwners fns n, g = g') ∨
    ∀ g ∈ config.globalOwners fns n,
      ∃ row ∈ unitKeys (Sym.isLocalFunc n) none table, MustTake config fns n row g

/-- Where a clone may belong to a file, some clone of the name must. -/
def ClonesSettled : Prop :=
  ∀ key, some key ∈ unitKeys (Sym.isClone n) none table → ∀ u ∈ config.owners key,
    ∃ key', some key' ∈ unitKeys (Sym.isClone n) none table ∧ ∀ u' ∈ config.owners key', u' = u

/-- No module file defines the exported function, or no entry of it may lie in a unit of the
module, or one file defines it and some entry must. -/
def ExportsSettled : Prop :=
  (∀ f ∈ definers fns n config.modFiles, f = "") ∨
  (∀ key, some key ∈ unitKeys (Sym.isKsymtab n) none table →
    ∀ u ∈ config.owners key, u ∉ config.modFiles) ∨
  (∀ f ∈ definers fns n config.modFiles, ∀ f' ∈ definers fns n config.modFiles, f = f') ∧
    ∃ key, some key ∈ unitKeys (Sym.isKsymtab n) none table ∧
      ∀ u ∈ config.owners key, u ∈ config.modFiles

/-- All this for a name. -/
structure NameSettled : Prop where
  locals : LocalsSettled config fns table n
  global : GlobalSettled config fns table n
  clones : ClonesSettled config table n
  exports : ExportsSettled config fns table n

end Settled

/-- The result is the same in all orders. -/
def OrderFree (config : Config) (fns : Finset Signature) (lines : List (List String)) : Prop :=
  ∀ config', config.Reordered config' →
    findInVmlinux config' fns lines = findInVmlinux config fns lines

/-! ### The results in an order -/

section Results

variable (config : Config) (fns : Finset Signature) (table : List Sym) (n : String)
  (order : config.Order) (f : String)

/-- The position of the last local function `n` found under `f`. -/
def posIn : Option ℕ :=
  lastPos (fun row => decide (rowFile config fns n order row = some f))
    (unitKeys (Sym.isLocalFunc n) none table)

/-- A function `n` is found under `f`. -/
def FoundIn : Prop :=
  (∃ row ∈ unitKeys (Sym.isLocalFunc n) none table, rowFile config fns n order row = some f) ∨
    (∃ s ∈ table, s.isGlobalFunc n = true) ∧ getInAny fns n order.1.allFiles = some f

/-- The file taken for the unit of a row. -/
def rowUnit (row : Option String) : Option String := row.map (unitName order.1)

/-- A clone of `n` belongs to `f`. -/
def ClonedIn : Prop :=
  ∃ row ∈ unitKeys (Sym.isClone n) none table, rowUnit config order row = some f

/-- An entry for `n` lies in a unit of the module. -/
def EntryIn : Prop :=
  ∃ key, some key ∈ unitKeys (Sym.isKsymtab n) none table ∧
    unitName order.1 key ∈ config.modFiles

/-- The function `n` of `f` is exported. -/
def ExportedIn : Prop :=
  EntryIn config table n order ∧ getInAny fns n order.1.modFiles = some f ∧ f ≠ ""

/-- What `find_in_vmlinux` returns in an order. -/
structure InfoIn (info : VmlinuxInfo) : Prop where
  localSympos : ∀ n f, info.localSympos (n, f) = posIn config fns table n order f
  inVmlinux : ∀ n f, (n, f) ∈ info.inVmlinux ↔ FoundIn config fns table n order f
  mangled : ∀ n f, (n, f) ∈ info.mangled ↔ ClonedIn config table n order f
  exportFunc : ∀ n f, (n, f) ∈ info.exportFunc ↔ ExportedIn config fns table n order f

end Results

section InfoIn

variable {config : Config} {fns : Finset Signature} {table : List Sym} {n key u f : String}
  {order : config.Order} {info : VmlinuxInfo}

theorem InfoIn.of_ok (h : findInVmlinux order.1 fns (elfLines table) = .ok info) :
    InfoIn config fns table order info where
  localSympos _ _ := localSympos_unitKeys h
  inVmlinux _ _ := mem_inVmlinux_unitKeys h
  mangled _ _ := mem_mangled_iff h
  exportFunc n f := by
    rw [mem_exportFunc_iff h, ExportedIn]
    refine and_congr_left fun _ => ⟨?_, ?_⟩
    · rintro ⟨row, hrow, u, hu, hunit⟩
      obtain ⟨key, rfl, rfl⟩ := Option.map_eq_some_iff.mp hunit
      exact ⟨key, hrow, order.2.modFiles.mem_iff.mp hu⟩
    · rintro ⟨key, hkey, hunit⟩
      exact ⟨some key, hkey, _, order.2.modFiles.mem_iff.mpr hunit, rfl⟩

/-- What is the same about two results makes them the same. -/
theorem InfoIn.eq {order' : config.Order} {info' : VmlinuxInfo}
    (h : InfoIn config fns table order info) (h' : InfoIn config fns table order' info')
    (hpos : ∀ n f, posIn config fns table n order f = posIn config fns table n order' f)
    (hfound : ∀ n f, FoundIn config fns table n order f ↔ FoundIn config fns table n order' f)
    (hcloned : ∀ n f, ClonedIn config table n order f ↔ ClonedIn config table n order' f)
    (hexported : ∀ n f,
      ExportedIn config fns table n order f ↔ ExportedIn config fns table n order' f) :
    info = info' := by
  have hlocal : info.localSympos = info'.localSympos := by
    funext ⟨n, f⟩
    rw [h.localSympos, h'.localSympos, hpos]
  have hin : info.inVmlinux = info'.inVmlinux := by
    ext ⟨n, f⟩
    rw [h.inVmlinux, h'.inVmlinux, hfound]
  have hmangled : info.mangled = info'.mangled := by
    ext ⟨n, f⟩
    rw [h.mangled, h'.mangled, hcloned]
  have hexport : info.exportFunc = info'.exportFunc := by
    ext ⟨n, f⟩
    rw [h.exportFunc, h'.exportFunc, hexported]
  obtain ⟨i, m, l, e⟩ := info
  obtain ⟨i', m', l', e'⟩ := info'
  subst hlocal hin hmangled hexport
  rfl

end InfoIn

/-! ### Local and global functions -/

section Found

variable {config : Config} {fns : Finset Signature} {table : List Sym} {n : String}

theorem localsSettled_iff : (∀ order order' : config.Order, ∀ f,
    posIn config fns table n order f = posIn config fns table n order' f) ↔
    LocalsSettled config fns table n := by
  refine lastPos_const_iff.trans ?_
  simp only [LastSettled, LocalsSettled, may_iff, must_iff]

/-- Settled local functions are found where they must be. -/
theorem LocalsSettled.found_iff (h : LocalsSettled config fns table n) (order : config.Order)
    (f : String) :
    (∃ row ∈ unitKeys (Sym.isLocalFunc n) none table, rowFile config fns n order row = some f) ↔
      ∃ row ∈ unitKeys (Sym.isLocalFunc n) none table, MustTake config fns n row f := by
  constructor
  · rintro ⟨row, hrow, htake⟩
    obtain ⟨a, b, hsplit⟩ := List.append_of_mem hrow
    rcases h a row b hsplit f (may_iff.mp ⟨order, htake⟩) with hmust | ⟨row', hrow', hmust⟩
    · exact ⟨row, hrow, hmust⟩
    · exact ⟨row', by simp [hsplit, hrow'], hmust⟩
  · rintro ⟨row, hrow, hmust⟩
    exact ⟨row, hrow, must_iff.mpr hmust order⟩

theorem Config.Order.mem_globalOwners (order : config.Order) {f : String}
    (hget : getInAny fns n order.1.allFiles = some f) : f ∈ config.globalOwners fns n := by
  rw [getInAny_allFiles] at hget
  exact (order.2.globalOwners fns n).mem_iff.mp (List.mem_of_head? hget)

theorem globalSettled_iff (hlocals : LocalsSettled config fns table n) :
    (∀ order order' : config.Order, ∀ f, FoundIn config fns table n order f →
      FoundIn config fns table n order' f) ↔ GlobalSettled config fns table n := by
  have hfound : ∀ (order : config.Order) f, FoundIn config fns table n order f ↔
      (∃ row ∈ unitKeys (Sym.isLocalFunc n) none table, MustTake config fns n row f) ∨
        (∃ s ∈ table, s.isGlobalFunc n = true) ∧ getInAny fns n order.1.allFiles = some f :=
    fun order f => or_congr (hlocals.found_iff order f) Iff.rfl
  constructor
  · intro h hglobal
    by_contra hno
    push Not at hno
    obtain ⟨⟨g₁, hg₁, g₂, hg₂, hne⟩, g, hg, hnone⟩ := hno
    -- another file that may come first
    obtain ⟨g', hg', hgg'⟩ : ∃ g' ∈ config.globalOwners fns n, g' ≠ g := by
      by_cases heq : g₁ = g
      · exact ⟨g₂, hg₂, fun heq' => hne (heq.trans heq'.symm)⟩
      · exact ⟨g₁, hg₁, heq⟩
    have hfirst := h (config.arranged (· == g) fun _ => false)
      (config.arranged (· == g') fun _ => false) g
      ((hfound _ g).mpr (.inr ⟨hglobal, getInAny_allFiles_first hg⟩))
    rcases (hfound _ g).mp hfirst with ⟨row, hrow, hmust⟩ | ⟨-, hget⟩
    · exact hnone row hrow hmust
    · rw [getInAny_allFiles_first hg'] at hget
      exact hgg' (Option.some.inj hget)
  · intro h order order' f hf
    rw [hfound] at hf ⊢
    rcases hf with hlocal | ⟨hglobal, hget⟩
    · exact .inl hlocal
    · have hmem := order.mem_globalOwners hget
      rcases h hglobal with heq | hall
      · refine .inr ⟨hglobal, ?_⟩
        rw [getInAny_allFiles] at hget ⊢
        rwa [head?_perm (order'.2.globalOwners fns n) heq,
          ← head?_perm (order.2.globalOwners fns n) heq]
      · exact .inl (hall f hmem)

end Found

/-! ### Clones and exports -/

section Marked

variable {config : Config} {fns : Finset Signature} {table : List Sym} {n key f : String}
  {row : Option String}

theorem may_rowUnit_iff :
    May (rowUnit config) row f ↔ ∃ key, row = some key ∧ f ∈ config.owners key := by
  constructor
  · rintro ⟨order, hunit⟩
    obtain ⟨key, rfl, rfl⟩ := Option.map_eq_some_iff.mp hunit
    exact ⟨key, rfl, order.2.unitName_mem key⟩
  · rintro ⟨key, rfl, hf⟩
    refine ⟨config.arranged (fun _ => false) (· == f), ?_⟩
    show some (unitName _ key) = some f
    rw [unitName_last rfl hf]

theorem must_rowUnit_iff :
    Must (rowUnit config) row f ↔ ∃ key, row = some key ∧ ∀ u ∈ config.owners key, u = f := by
  constructor
  · intro hmust
    obtain ⟨key, rfl, -⟩ := Option.map_eq_some_iff.mp (hmust ⟨config, .refl _, .refl _⟩)
    refine ⟨key, rfl, ?_⟩
    intro u hu
    have hunit : some (unitName _ key) = some f :=
      hmust (config.arranged (fun _ => false) (· == u))
    rw [unitName_last rfl hu] at hunit
    exact Option.some.inj hunit
  · rintro ⟨key, rfl, hall⟩ order
    exact congrArg some (hall _ (order.2.unitName_mem key))

theorem clonesSettled_iff : (∀ order order' : config.Order, ∀ f,
    ClonedIn config table n order f → ClonedIn config table n order' f) ↔
    ClonesSettled config table n := by
  have havoid : ∀ f, (∀ row ∈ unitKeys (Sym.isClone n) none table,
      ¬ Must (rowUnit config) row f) → ∃ order : config.Order,
      ∀ row ∈ unitKeys (Sym.isClone n) none table, rowUnit config order row ≠ some f := by
    -- with the other files last no unit is taken for this one
    intro f hnone
    refine ⟨config.arranged (fun _ => false) fun u => !(u == f), ?_⟩
    intro row hrow hunit
    obtain ⟨key, rfl, hname⟩ := Option.map_eq_some_iff.mp hunit
    refine hnone _ hrow (must_rowUnit_iff.mpr ⟨key, rfl, ?_⟩)
    intro u hu
    by_contra hne
    have hlast := unitName_rearrange (p := fun _ => false) (q := fun u => !(u == f))
      (fun _ _ => rfl) ⟨u, hu, by simp [hne]⟩
    rw [hname] at hlast
    simp at hlast
  refine (values_const_iff havoid).trans ?_
  simp only [ValuesSettled, may_rowUnit_iff, must_rowUnit_iff]
  constructor
  · intro h key hkey u hu
    obtain ⟨_, hrow, key', rfl, hall⟩ := h _ hkey u ⟨key, rfl, hu⟩
    exact ⟨key', hrow, hall⟩
  · rintro h _ hrow u ⟨key, rfl, hu⟩
    obtain ⟨key', hkey', hall⟩ := h key hrow u hu
    exact ⟨_, hkey', key', rfl, hall⟩

/-- The files that a unit may be taken for lie in the module, unless sidecar files count. -/
theorem owners_mem_modFiles (hnil : config.sdcrSrcs.filter (basename · == key) = []) :
    (∀ u ∈ config.owners key, u ∈ config.modFiles) ∨ config.owners key = [key] := by
  have hsrcs : ∀ u ∈ config.modSrcs.filter (basename · == key), u ∈ config.modFiles :=
    fun u hu => List.mem_of_mem_filter (List.mem_of_mem_filter hu)
  have hhdrs : ∀ u ∈ config.modHdrs.filter (basename · == key), u ∈ config.modFiles :=
    fun u hu => List.mem_of_mem_filter (List.mem_of_mem_filter hu)
  rw [Config.owners, hnil, firstNonempty_cons_nil]
  by_cases hnosrcs : config.modSrcs.filter (basename · == key) = []
  · rw [hnosrcs, firstNonempty_cons_nil]
    by_cases hnohdrs : config.modHdrs.filter (basename · == key) = []
    · rw [hnohdrs]
      exact .inr rfl
    · rw [firstNonempty_cons_of_ne_nil hnohdrs]
      exact .inl hhdrs
  · rw [firstNonempty_cons_of_ne_nil hnosrcs]
    exact .inl hsrcs

theorem unitName_mem_modFiles (order order' : config.Order)
    (hsidecar : order'.1.sidecar = order.1.sidecar)
    (hin : unitName order.1 key ∈ config.modFiles) : unitName order'.1 key ∈ config.modFiles := by
  have hsdcr : order'.1.sdcrSrcs = order.1.sdcrSrcs := congrArg (List.map Prod.snd) hsidecar
  by_cases hnil : order'.1.sdcrSrcs.filter (basename · == key) = []
  · rcases owners_mem_modFiles hnil with hall | hkey
    · exact order'.2.modFiles.mem_iff.mp (hall _ (unitName_mem order'.1 key))
    · have howner : ∀ u ∈ config.owners key, u = key := by
        intro u hu
        rw [← (order'.2.owners key).mem_iff, hkey] at hu
        exact List.mem_singleton.mp hu
      rwa [howner _ (order'.2.unitName_mem key), ← howner _ (order.2.unitName_mem key)]
  · -- the sidecar files alone count, in the same order
    have howners : order'.1.owners key = order.1.owners key := by
      rw [Config.owners, Config.owners, ← hsdcr, firstNonempty_cons_of_ne_nil hnil,
        firstNonempty_cons_of_ne_nil hnil]
    have hlast := unitName_eq order'.1 key
    rw [howners, unitName_eq] at hlast
    rwa [← Option.some.inj hlast]

/-- Any file that defines the function can come first without the units changing. -/
theorem EntryIn.exists_first {order : config.Order} (h : EntryIn config table n order)
    (hf : f ∈ definers fns n config.modFiles) : ∃ order' : config.Order,
    EntryIn config table n order' ∧ getInAny fns n order'.1.modFiles = some f := by
  obtain ⟨key, hkey, hin⟩ := h
  let order' : config.Order :=
    ⟨⟨OrderChoice.rearrange (· == f) (fun _ => false) config.modFiles, order.1.sidecar⟩,
      rearrange_perm _ _ _, order.2.sidecar⟩
  exact ⟨order', ⟨key, hkey, unitName_mem_modFiles order order' rfl hin⟩,
    getInAny_first hf⟩

theorem exportsSettled_iff : (∀ order order' : config.Order, ∀ f,
    ExportedIn config fns table n order f → ExportedIn config fns table n order' f) ↔
    ExportsSettled config fns table n := by
  constructor
  · intro h
    by_cases hempty : ∀ f ∈ definers fns n config.modFiles, f = ""
    · exact .inl hempty
    by_cases hnever : ∀ key, some key ∈ unitKeys (Sym.isKsymtab n) none table →
        ∀ u ∈ config.owners key, u ∉ config.modFiles
    · exact .inr (.inl hnever)
    push Not at hempty hnever
    obtain ⟨f, hf, hne⟩ := hempty
    obtain ⟨key, hkey, u, hu, hin⟩ := hnever
    have hlast : EntryIn config table n (config.arranged (fun _ => false) (· == u)) := by
      refine ⟨key, hkey, ?_⟩
      rw [unitName_last rfl hu]
      exact hin
    obtain ⟨order, hentry, hget⟩ := hlast.exists_first hf
    have hexported : ExportedIn config fns table n order f := ⟨hentry, hget, hne⟩
    refine .inr (.inr ⟨?_, ?_⟩)
    · have heq : ∀ g ∈ definers fns n config.modFiles, g = f := by
        intro g hg
        obtain ⟨order', -, hget'⟩ := hentry.exists_first hg
        obtain ⟨-, hf', -⟩ := h order order' f hexported
        exact Option.some.inj (hget'.symm.trans hf')
      intro g hg g' hg'
      rw [heq g hg, heq g' hg']
    · -- with the files outside of the module last, an entry still lies in it
      obtain ⟨⟨key', hkey', hin'⟩, -⟩ := h order (config.arranged (fun _ => false)
        fun u => !decide (u ∈ config.modFiles)) f hexported
      refine ⟨key', hkey', ?_⟩
      intro u' hu'
      by_contra hout
      have hlast' := unitName_rearrange (p := fun _ => false)
        (q := fun u => !decide (u ∈ config.modFiles)) (fun _ _ => rfl) ⟨u', hu', by simp [hout]⟩
      simp [hin'] at hlast'
  · rintro (hempty | hnever | ⟨heq, key, hkey, hall⟩) order order' f ⟨hentry, hget, hne⟩
    · obtain ⟨hf, hfn⟩ := mem_of_getInAny hget
      exact absurd (hempty f (mem_definers.mpr ⟨order.2.modFiles.mem_iff.mp hf, hfn⟩)) hne
    · obtain ⟨key, hkey, hin⟩ := hentry
      exact absurd hin (hnever key hkey _ (order.2.unitName_mem key))
    · refine ⟨⟨key, hkey, hall _ (order'.2.unitName_mem key)⟩, ?_, hne⟩
      have hhead : ∀ order : config.Order,
          getInAny fns n order.1.modFiles = (definers fns n config.modFiles).head? := by
        intro order
        rw [getInAny_eq]
        exact head?_perm (order.2.modFiles.filter _) heq
      rwa [hhead order', ← hhead order]

end Marked

/-! ### All results -/

section Main

variable {config : Config} {fns : Finset Signature}

theorem nameSettled_of_const {table : List Sym} {info : VmlinuxInfo}
    (h : ∀ order : config.Order, InfoIn config fns table order info) (n : String) :
    NameSettled config fns table n := by
  have hlocals : LocalsSettled config fns table n := by
    refine localsSettled_iff.mp fun order order' f => ?_
    rw [← (h order).localSympos, ← (h order').localSympos]
  refine ⟨hlocals, (globalSettled_iff hlocals).mp fun order order' f => ?_,
    clonesSettled_iff.mp fun order order' f => ?_, exportsSettled_iff.mp fun order order' f => ?_⟩
  · rw [← (h order).inVmlinux, ← (h order').inVmlinux]
    exact id
  · rw [← (h order).mangled, ← (h order').mangled]
    exact id
  · rw [← (h order).exportFunc, ← (h order').exportFunc]
    exact id

theorem findInVmlinux_const_of_settled {table : List Sym} {order order' : config.Order}
    {info info' : VmlinuxInfo} (h : ∀ n, NameSettled config fns table n)
    (hinfo : InfoIn config fns table order info)
    (hinfo' : InfoIn config fns table order' info') : info = info' := by
  refine hinfo.eq hinfo' ?_ ?_ ?_ ?_
  · intro n f
    exact localsSettled_iff.mpr (h n).locals order order' f
  · intro n f
    have hsame := (globalSettled_iff (h n).locals).mpr (h n).global
    exact ⟨hsame order order' f, hsame order' order f⟩
  · intro n f
    have hsame := clonesSettled_iff.mpr (h n).clones
    exact ⟨hsame order order' f, hsame order' order f⟩
  · intro n f
    have hsame := exportsSettled_iff.mpr (h n).exports
    exact ⟨hsame order order' f, hsame order' order f⟩

/-- The result of `find_in_vmlinux` is the same for all orders of `mod_files` and `sidecar`
exactly if no unit precedes some function or export, or every name is settled. -/
theorem findInVmlinux_orderFree_iff (config : Config) (fns : Finset Signature)
    (lines : List (List String)) : OrderFree config fns lines ↔
    Headless (tableOf lines) ∨ ∀ n, NameSettled config fns (tableOf lines) n := by
  simp only [OrderFree, findInVmlinux_tableOf lines]
  by_cases hhead : Headless (tableOf lines)
  · refine iff_of_true ?_ (.inl hhead)
    intro config' _
    rw [findInVmlinux_of_headless hhead, findInVmlinux_of_headless hhead]
  rw [or_iff_right hhead]
  obtain ⟨info, hinfo⟩ := findInVmlinux_ok_of_units config fns hhead
  constructor
  · intro h
    have hall : ∀ order : config.Order, InfoIn config fns (tableOf lines) order info := by
      rintro ⟨config', hconfig'⟩
      exact .of_ok ((h config' hconfig').trans hinfo)
    exact nameSettled_of_const hall
  · intro h config' hconfig'
    obtain ⟨info', hinfo'⟩ := findInVmlinux_ok_of_units config' fns hhead
    have hat : InfoIn config fns (tableOf lines) ⟨config, .refl _, .refl _⟩ info := .of_ok hinfo
    have hat' : InfoIn config fns (tableOf lines) ⟨config', hconfig'⟩ info' := .of_ok hinfo'
    rw [hinfo', hinfo, findInVmlinux_const_of_settled h hat' hat]

/-- A module of two files. -/
def twoSources : Config where
  modFiles := ["kernel/sched/core.c", "kernel/sched/fair.c"]
  sidecar := []

/-- The global `update_load` of one file, and one of the other file that is inlined. -/
def updateLoads : Finset Signature :=
  {("update_load", "kernel/sched/core.c"), ("update_load", "kernel/sched/fair.c")}

/-- The global function has a symbol, the inlined one has none. -/
def updateLoadTable : List Sym :=
  [fileSym "kernel/sched/core.c", fileSym "kernel/sched/fair.c",
    funcSym .global "update_load" "kernel/sched/core.c" 0x1000]

/-- The global function is found in the file that comes first. -/
theorem updateLoad_order : ¬ ∀ config fns lines, OrderFree config fns lines := by
  intro hfree
  have hheads : ¬ Headless updateLoadTable := by
    rw [Headless]
    decide
  have hswap : twoSources.Reordered ⟨twoSources.modFiles.reverse, []⟩ :=
    ⟨List.reverse_perm _, .refl _⟩
  obtain ⟨info, hinfo⟩ := findInVmlinux_ok_of_units twoSources updateLoads hheads
  have hinfo' := (hfree twoSources updateLoads (elfLines updateLoadTable) _ hswap).trans hinfo
  have hcore : ("update_load", "kernel/sched/core.c") ∈ info.inVmlinux := by
    rw [mem_inVmlinux_unitKeys hinfo]
    refine .inr ⟨⟨funcSym .global "update_load" "kernel/sched/core.c" 0x1000, ?_, rfl⟩, ?_⟩
    · simp [updateLoadTable]
    · decide
  rw [mem_inVmlinux_unitKeys hinfo'] at hcore
  rcases hcore with ⟨key, hkey, -⟩ | ⟨-, hget⟩
  · have hnone : unitKeys (Sym.isLocalFunc "update_load") none updateLoadTable = [] := by decide
    rw [hnone] at hkey
    cases hkey
  · exact absurd hget (by decide)

end Main

end Plugsched
