/-
`symbol_resolve` on the file of a module.

`Kallsyms` looks at the undefined symbols alone.  Here they are entries of a symbol table
that libelf holds in memory: `resolveAt` changes one entry after the other and may give up
in the middle, and the table goes back to the disk at the end, if anything was changed.

* `resolveElf_fits` — what a run does to the file, by the names `stripOrig` leaves;
* `resolveElf_resolveRef` — the symbols of the file that is written are those of `resolveRef`;
* `resolveElf_fitsPrefix_iff` — when it makes no difference that `stripOrig` finds `__orig_`
  anywhere in a name.
-/
import Plugsched.Kallsyms

open ExceptRules

namespace Plugsched

/-! ### The file -/

def SHN_UNDEF : ℕ := 0

def SHN_ABS : ℕ := 0xfff1

/-- `GElf_Sym`. -/
structure ElfSym where
  stName : ℕ
  stInfo : ℕ
  stOther : ℕ
  stShndx : ℕ
  stValue : ℕ
  stSize : ℕ
  deriving DecidableEq

/-- The symbol table of a module, and the names at the offsets of its string table; a
character of a name is one byte. -/
structure ElfFile where
  symtab : List ElfSym
  strtab : ℕ → Option String

/-- The calls of `ERROR`. -/
inductive Abort where
  | elf (msg : String)
  | resolve (e : ResolveError)

/-- The symbols in memory, and `modified`. -/
structure ElfData where
  syms : List ElfSym
  modified : Bool

/-- `gelf_getsym`. -/
def gelfGetsym (data : ElfData) (i : ℕ) : Except Abort ElfSym :=
  match data.syms[i]? with
  | some sym => .ok sym
  | none => .error (.elf "gelf_getsym")

/-- `elf_strptr`. -/
def elfStrptr (strtab : ℕ → Option String) (offset : ℕ) : Except Abort String :=
  match strtab offset with
  | some name => .ok name
  | none => .error (.elf "elf_strptr")

section Resolver

variable (kallsyms : String → List ℕ) (symposes : String → Option ℕ)

/-- The loop of `resolve_ref` at the index `i`. -/
def resolveAt (strtab : ℕ → Option String) (data : ElfData) (i : ℕ) : Except Abort ElfData := do
  let sym ← gelfGetsym data i
  let name ← elfStrptr strtab sym.stName
  if sym.stShndx ≠ SHN_UNDEF then return data
  match resolveSym kallsyms symposes name with
  | .error e => throw (.resolve e)
  | .ok none => return data
  | .ok (some addr) =>
    return { syms := data.syms.set i { sym with stShndx := SHN_ABS, stValue := addr }
             modified := true }

/-- `resolve_ref`: its result, and what is on the disk afterwards. -/
def resolveElf (file : ElfFile) : Except Abort Unit × ElfFile :=
  match (List.range file.symtab.length).foldlM (resolveAt kallsyms symposes file.strtab)
      ⟨file.symtab, false⟩ with
  | .error e => (.error e, file)
  | .ok data => (.ok (), if data.modified then { file with symtab := data.syms } else file)

/-! ### What a name stands for -/

/-- What the two maps say about a name; `load_kallsyms` puts no name without an address
into the first. -/
inductive Reading where
  | absent
  | unresolvable
  | address (addr : ℕ)
  deriving DecidableEq

/-- The only address at position 0, the one at the position otherwise. -/
def reading (name : String) : Reading :=
  match (symposes name).getD 0 with
  | 0 =>
    match kallsyms name with
    | [] => .absent
    | [addr] => .address addr
    | _ => .unresolvable
  | k + 1 =>
    if kallsyms name = [] then .absent
    else match (kallsyms name)[k]? with
      | some addr => .address addr
      | none => .unresolvable

/-- What `resolveSym` returns for a reading. -/
def Reading.Gives (result : Except ResolveError (Option ℕ)) : Reading → Prop
  | .absent => result = .ok none
  | .unresolvable => ∃ e, result = .error e
  | .address addr => result = .ok (some addr)

@[simp] theorem Reading.absent_gives {result : Except ResolveError (Option ℕ)} :
    Reading.absent.Gives result ↔ result = .ok none := Iff.rfl

@[simp] theorem Reading.address_gives {result : Except ResolveError (Option ℕ)} {addr : ℕ} :
    (Reading.address addr).Gives result ↔ result = .ok (some addr) := Iff.rfl

theorem resolveSym_gives (ref : String) :
    (reading kallsyms symposes (stripOrig ref)).Gives (resolveSym kallsyms symposes ref) := by
  rw [resolveSym, reading]
  generalize kallsyms (stripOrig ref) = addrs
  generalize (symposes (stripOrig ref)).getD 0 = k
  cases k with
  | zero =>
    rcases addrs with _ | ⟨addr, _ | ⟨addr', addrs⟩⟩
    · rfl
    · rfl
    · exact ⟨_, rfl⟩
  | succ k =>
    by_cases hnil : addrs = []
    · subst hnil
      rfl
    simp only [if_neg hnil]
    rw [if_neg (fun h => Nat.succ_ne_zero k h.1)]
    by_cases hk : addrs.length < k + 1
    · rw [List.getElem?_eq_none (Nat.lt_succ_iff.mp hk), if_pos ⟨Nat.succ_pos k, hk⟩]
      exact ⟨_, rfl⟩
    · have hlt : k < addrs.length := Nat.lt_of_succ_le (Nat.le_of_not_lt hk)
      rw [if_neg (fun h => hk h.2), Nat.add_sub_cancel, List.getElem?_eq_getElem hlt]
      rfl

/-! ### The symbols one by one -/

/-- What the loop makes of a symbol. -/
def resolveEntry (strtab : ℕ → Option String) (sym : ElfSym) : Except Abort ElfSym := do
  let name ← elfStrptr strtab sym.stName
  if sym.stShndx ≠ SHN_UNDEF then return sym
  match resolveSym kallsyms symposes name with
  | .error e => throw (.resolve e)
  | .ok none => return sym
  | .ok (some addr) => return { sym with stShndx := SHN_ABS, stValue := addr }

variable {kallsyms symposes} {strtab : ℕ → Option String}

variable (kallsyms symposes strtab) in
theorem resolveAt_syms (data : ElfData) (i : ℕ) (sym : ElfSym) (hi : data.syms[i]? = some sym) :
    (resolveAt kallsyms symposes strtab data i).map ElfData.syms =
      (resolveEntry kallsyms symposes strtab sym).map (data.syms.set i) := by
  have hset : data.syms.set i sym = data.syms := by
    obtain ⟨hlt, rfl⟩ := List.getElem?_eq_some_iff.mp hi
    exact List.set_getElem_self hlt
  rw [resolveAt, resolveEntry, gelfGetsym, hi]
  show Except.map _ (elfStrptr strtab sym.stName >>= _) = _
  cases elfStrptr strtab sym.stName with
  | error e => rfl
  | ok name =>
    by_cases hundef : sym.stShndx ≠ SHN_UNDEF
    · simp [hundef, hset, bind, Except.bind, pure, Except.pure, Except.map]
    · simp only [hundef, if_false, bind, Except.bind, pure, Except.pure]
      match resolveSym kallsyms symposes name with
      | .error e => rfl
      | .ok none => simp [Except.map, hset]
      | .ok (some addr) => rfl

/-- As long as nothing was modified the symbols are those of the file. -/
theorem resolveAt_modified {syms : List ElfSym} {data data' : ElfData} {i : ℕ}
    (h : resolveAt kallsyms symposes strtab data i = .ok data')
    (hdata : data.modified = false → data.syms = syms) :
    data'.modified = false → data'.syms = syms := by
  rw [resolveAt] at h
  obtain ⟨sym, -, h⟩ := bind_eq_ok h
  obtain ⟨name, -, h⟩ := bind_eq_ok h
  by_cases hundef : sym.stShndx ≠ SHN_UNDEF
  · rw [if_pos hundef] at h
    cases h
    exact hdata
  rw [if_neg hundef] at h
  match hsym : resolveSym kallsyms symposes name with
  | .error e => rw [hsym] at h; cases h
  | .ok none =>
    rw [hsym] at h
    cases h
    exact hdata
  | .ok (some addr) =>
    rw [hsym] at h
    cases h
    intro hmodified
    exact absurd hmodified Bool.noConfusion

/-- A run writes what becomes of all symbols, or nothing. -/
theorem resolveElf_eq (file : ElfFile) :
    resolveElf kallsyms symposes file =
      match file.symtab.mapM (resolveEntry kallsyms symposes file.strtab) with
      | .error e => (.error e, file)
      | .ok syms => (.ok (), { file with symtab := syms }) := by
  have hrun := foldlM_range_set ElfData.syms (resolveAt_syms kallsyms symposes file.strtab)
    ⟨file.symtab, false⟩
  rw [resolveElf, ← hrun]
  cases hloop : (List.range file.symtab.length).foldlM
      (resolveAt kallsyms symposes file.strtab) ⟨file.symtab, false⟩ with
  | error e => rfl
  | ok data =>
    have hkept := foldlM_invariant (I := fun data => data.modified = false →
        data.syms = file.symtab) hloop (fun _ => rfl)
      fun i _ data data' hstep hdata => resolveAt_modified hstep hdata
    show (Except.ok (), if data.modified then { file with symtab := data.syms } else file) =
      (Except.ok (), { file with symtab := data.syms })
    cases hmodified : data.modified with
    | true => rfl
    | false => rw [hkept hmodified]; rfl

/-! ### What a run does -/

/-- An undefined symbol of this name. -/
def ElfFile.Refers (file : ElfFile) (sym : ElfSym) (name : String) : Prop :=
  sym ∈ file.symtab ∧ sym.stShndx = SHN_UNDEF ∧ file.strtab sym.stName = some name

/-- libelf finds the names of all symbols. -/
def ElfFile.Named (file : ElfFile) : Prop :=
  ∀ sym ∈ file.symtab, ∃ name, file.strtab sym.stName = some name

variable (kallsyms symposes)

/-- A symbol after the run: an undefined one gets the absolute address for what `strip`
leaves of its name. -/
def resolved (strip : String → String) (strtab : ℕ → Option String) (sym : ElfSym) : ElfSym :=
  if sym.stShndx = SHN_UNDEF then
    match (strtab sym.stName).map fun name => reading kallsyms symposes (strip name) with
    | some (.address addr) => { sym with stShndx := SHN_ABS, stValue := addr }
    | _ => sym
  else sym

/-- Some undefined symbol has to be given up. -/
def Unresolvable (strip : String → String) (file : ElfFile) : Prop :=
  ∃ sym name, file.Refers sym name ∧ reading kallsyms symposes (strip name) = .unresolvable

/-- The run gives up and leaves the file alone, exactly if a symbol has to be given up, and
otherwise rewrites the undefined symbols that have an address. -/
structure Fits (strip : String → String) (file : ElfFile)
    (out : Except Abort Unit × ElfFile) : Prop where
  aborts : Unresolvable kallsyms symposes strip file → (∃ e, out.1 = .error e) ∧ out.2 = file
  rewrites : ¬ Unresolvable kallsyms symposes strip file → out.1 = .ok () ∧
    out.2 = { file with symtab := file.symtab.map (resolved kallsyms symposes strip file.strtab) }

/-- `__orig_` is removed at the front of a name only. -/
def withoutPrefix (name : String) : String :=
  if "__orig_".toList <+: name.toList then
    String.ofList (name.toList.drop "__orig_".length)
  else name

variable {kallsyms symposes} {file : ElfFile}

theorem resolveEntry_eq {sym : ElfSym} {name : String} (hname : strtab sym.stName = some name)
    (hok : sym.stShndx = SHN_UNDEF → reading kallsyms symposes (stripOrig name) ≠ .unresolvable) :
    resolveEntry kallsyms symposes strtab sym =
      .ok (resolved kallsyms symposes stripOrig strtab sym) := by
  have hsym := resolveSym_gives kallsyms symposes name
  rw [resolveEntry, resolved, elfStrptr, hname]
  by_cases hundef : sym.stShndx = SHN_UNDEF
  · rw [if_pos hundef]
    show (if sym.stShndx ≠ SHN_UNDEF then _ else _) = _
    rw [if_neg (not_not.mpr hundef), Option.map_some]
    cases hread : reading kallsyms symposes (stripOrig name) with
    | absent => rw [hread] at hsym; rw [hsym]; rfl
    | unresolvable => exact absurd hread (hok hundef)
    | address addr => rw [hread] at hsym; rw [hsym]; rfl
  · rw [if_neg hundef]
    show (if sym.stShndx ≠ SHN_UNDEF then _ else _) = _
    rw [if_pos hundef]
    rfl

theorem resolveEntry_error {sym : ElfSym} {name : String}
    (hname : strtab sym.stName = some name) (hundef : sym.stShndx = SHN_UNDEF)
    (hread : reading kallsyms symposes (stripOrig name) = .unresolvable) :
    ∃ e, resolveEntry kallsyms symposes strtab sym = .error e := by
  have hsym := resolveSym_gives kallsyms symposes name
  rw [hread] at hsym
  obtain ⟨e, he⟩ := hsym
  refine ⟨.resolve e, ?_⟩
  rw [resolveEntry, elfStrptr, hname]
  show (if sym.stShndx ≠ SHN_UNDEF then _ else _) = _
  rw [if_neg (not_not.mpr hundef), he]
  rfl

variable (kallsyms symposes) in
/-- The run goes by the names that `stripOrig` leaves. -/
theorem resolveElf_fits (hnamed : file.Named) :
    Fits kallsyms symposes stripOrig file (resolveElf kallsyms symposes file) := by
  rw [resolveElf_eq]
  constructor
  · rintro ⟨sym, name, ⟨hmem, hundef, hname⟩, hread⟩
    obtain ⟨e, he⟩ := resolveEntry_error hname hundef hread
    obtain ⟨e', he'⟩ := mapM_error hmem he
    rw [he']
    exact ⟨⟨e', rfl⟩, rfl⟩
  · intro hnone
    have hall : ∀ sym ∈ file.symtab, resolveEntry kallsyms symposes file.strtab sym =
        .ok (resolved kallsyms symposes stripOrig file.strtab sym) := by
      intro sym hmem
      obtain ⟨name, hname⟩ := hnamed sym hmem
      refine resolveEntry_eq hname fun hundef hread => ?_
      exact hnone ⟨sym, name, ⟨hmem, hundef, hname⟩, hread⟩
    rw [mapM_ok_map hall]
    exact ⟨rfl, rfl⟩

/-- The symbols as `resolveRef` sees them. -/
def modSymOf (strtab : ℕ → Option String) (sym : ElfSym) : ModSym where
  name := (strtab sym.stName).getD ""
  undef := sym.stShndx = SHN_UNDEF
  value := sym.stValue

theorem resolveOne_modSym {sym : ElfSym} {name : String} (hname : strtab sym.stName = some name)
    (hok : sym.stShndx = SHN_UNDEF → reading kallsyms symposes (stripOrig name) ≠ .unresolvable) :
    resolveOne kallsyms symposes (modSymOf strtab sym) =
      .ok (modSymOf strtab (resolved kallsyms symposes stripOrig strtab sym)) := by
  have hsym := resolveSym_gives kallsyms symposes name
  rw [resolveOne, resolved]
  simp only [modSymOf, hname, Option.getD_some, Option.map_some]
  by_cases hundef : sym.stShndx = SHN_UNDEF
  · rw [if_pos hundef]
    cases hread : reading kallsyms symposes (stripOrig name) with
    | absent =>
      rw [hread, Reading.absent_gives] at hsym
      simp [hsym, hundef, hname, bind, Except.bind, pure, Except.pure]
    | unresolvable => exact absurd hread (hok hundef)
    | address addr =>
      rw [hread, Reading.address_gives] at hsym
      simp [hsym, hundef, hname, bind, Except.bind, pure, Except.pure, SHN_ABS, SHN_UNDEF]
  · rw [if_neg hundef]
    simp [hundef, hname, pure, Except.pure]

/-- What a successful run writes is what `resolveRef` computes. -/
theorem resolveElf_resolveRef {file' : ElfFile} (hnamed : file.Named)
    (h : resolveElf kallsyms symposes file = (.ok (), file')) :
    resolveRef kallsyms symposes (file.symtab.map (modSymOf file.strtab)) =
      .ok (file'.symtab.map (modSymOf file'.strtab)) := by
  have hfits := resolveElf_fits kallsyms symposes hnamed
  rw [h] at hfits
  have hnone : ¬ Unresolvable kallsyms symposes stripOrig file := by
    intro hbad
    obtain ⟨⟨e, he⟩, -⟩ := hfits.aborts hbad
    cases he
  obtain rfl := (hfits.rewrites hnone).2
  rw [resolveRef, List.mapM_map, List.map_map]
  refine mapM_ok_map fun sym hmem => ?_
  obtain ⟨name, hname⟩ := hnamed sym hmem
  refine resolveOne_modSym hname fun hundef hread => ?_
  exact hnone ⟨sym, name, ⟨hmem, hundef, hname⟩, hread⟩

/-! ### The prefix -/

section Strip

variable {strip strip' : String → String} {out : Except Abort Unit × ElfFile}

theorem fits_congr (h : ∀ sym name, file.Refers sym name →
    reading kallsyms symposes (strip name) = reading kallsyms symposes (strip' name))
    (hfits : Fits kallsyms symposes strip file out) : Fits kallsyms symposes strip' file out := by
  have hiff : Unresolvable kallsyms symposes strip file ↔
      Unresolvable kallsyms symposes strip' file := by
    refine exists₂_congr fun sym name => and_congr_right fun hrefers => ?_
    rw [h sym name hrefers]
  have hmap : file.symtab.map (resolved kallsyms symposes strip file.strtab) =
      file.symtab.map (resolved kallsyms symposes strip' file.strtab) := by
    refine List.map_congr_left fun sym hmem => ?_
    rw [resolved, resolved]
    by_cases hundef : sym.stShndx = SHN_UNDEF
    · rw [if_pos hundef, if_pos hundef]
      cases hname : file.strtab sym.stName with
      | none => rfl
      | some name => rw [Option.map_some, Option.map_some, h sym name ⟨hmem, hundef, hname⟩]
    · rw [if_neg hundef, if_neg hundef]
  constructor
  · intro hbad
    exact hfits.aborts (hiff.mpr hbad)
  · intro hnone
    rw [← hmap]
    exact hfits.rewrites fun hbad => hnone (hiff.mp hbad)

/-- The symbol tells what its name stands for, if that is not given up. -/
theorem reading_eq_of_resolved {sym : ElfSym} {name : String} (hundef : sym.stShndx = SHN_UNDEF)
    (hname : strtab sym.stName = some name)
    (h : resolved kallsyms symposes strip strtab sym =
      resolved kallsyms symposes strip' strtab sym)
    (hread : reading kallsyms symposes (strip name) ≠ .unresolvable)
    (hread' : reading kallsyms symposes (strip' name) ≠ .unresolvable) :
    reading kallsyms symposes (strip name) = reading kallsyms symposes (strip' name) := by
  have habs : ∀ addr, { sym with stShndx := SHN_ABS, stValue := addr } ≠ sym := by
    intro addr heq
    have hshndx : SHN_ABS = SHN_UNDEF := (congrArg ElfSym.stShndx heq).trans hundef
    exact absurd hshndx (by decide)
  rw [resolved, resolved, if_pos hundef, if_pos hundef, hname, Option.map_some,
    Option.map_some] at h
  cases hr : reading kallsyms symposes (strip name) with
  | unresolvable => exact absurd hr hread
  | absent =>
    cases hr' : reading kallsyms symposes (strip' name) with
    | unresolvable => exact absurd hr' hread'
    | absent => rfl
    | address addr =>
      rw [hr, hr'] at h
      exact absurd h.symm (habs addr)
  | address addr =>
    cases hr' : reading kallsyms symposes (strip' name) with
    | unresolvable => exact absurd hr' hread'
    | absent =>
      rw [hr, hr'] at h
      exact absurd h (habs addr)
    | address addr' =>
      rw [hr, hr'] at h
      rw [show addr = addr' from congrArg ElfSym.stValue h]

/-- A run fits both ways of taking names only if both give up or read them alike. -/
theorem readings_of_fits (hfits : Fits kallsyms symposes strip file out)
    (hfits' : Fits kallsyms symposes strip' file out) :
    (Unresolvable kallsyms symposes strip file ∧ Unresolvable kallsyms symposes strip' file) ∨
      ∀ sym name, file.Refers sym name →
        reading kallsyms symposes (strip name) = reading kallsyms symposes (strip' name) := by
  by_cases hbad : Unresolvable kallsyms symposes strip file
  · obtain ⟨⟨e, he⟩, -⟩ := hfits.aborts hbad
    refine .inl ⟨hbad, ?_⟩
    by_contra hnone
    rw [(hfits'.rewrites hnone).1] at he
    cases he
  · obtain ⟨hok, hout⟩ := hfits.rewrites hbad
    have hnone : ¬ Unresolvable kallsyms symposes strip' file := by
      intro hbad'
      obtain ⟨⟨e, he⟩, -⟩ := hfits'.aborts hbad'
      rw [hok] at he
      cases he
    have hsame := congrArg ElfFile.symtab (hout.symm.trans (hfits'.rewrites hnone).2)
    refine .inr fun sym name hrefers => ?_
    obtain ⟨hmem, hundef, hname⟩ := hrefers
    refine reading_eq_of_resolved hundef hname (List.map_inj_left.mp hsame sym hmem) ?_ ?_
    · intro hread
      exact hbad ⟨sym, name, ⟨hmem, hundef, hname⟩, hread⟩
    · intro hread
      exact hnone ⟨sym, name, ⟨hmem, hundef, hname⟩, hread⟩

end Strip

/-- `__orig_` occurs in the name, and does not begin it. -/
def OrigInside (name : String) : Prop :=
  "__orig_".toList <:+: name.toList ∧ ¬ "__orig_".toList <+: name.toList

theorem stripOrig_of_inside {name : String} (h : OrigInside name) :
    stripOrig name = String.ofList (name.toList.drop "__orig_".length) := by
  obtain ⟨hinf, -⟩ := h
  exact if_pos hinf

theorem withoutPrefix_of_inside {name : String} (h : OrigInside name) :
    withoutPrefix name = name := by
  obtain ⟨-, hfront⟩ := h
  exact if_neg hfront

theorem stripOrig_eq_withoutPrefix {name : String} (h : ¬ OrigInside name) :
    stripOrig name = withoutPrefix name := by
  by_cases hfront : "__orig_".toList <+: name.toList
  · have hcode : stripOrig name = String.ofList (name.toList.drop "__orig_".length) :=
      if_pos hfront.isInfix
    exact hcode.trans (if_pos hfront).symm
  · have hcode : stripOrig name = name := if_neg fun hinf => h ⟨hinf, hfront⟩
    exact hcode.trans (if_neg hfront).symm

/-- **The prefix.**  A run does what it should for the names without a leading `__orig_`, if
and only if it has to give up either way, or each name with `__orig_` further inside stands
for what it stands for without its first letters. -/
theorem resolveElf_fitsPrefix_iff (kallsyms : String → List ℕ) (symposes : String → Option ℕ)
    (file : ElfFile) (hnamed : file.Named) :
    Fits kallsyms symposes withoutPrefix file (resolveElf kallsyms symposes file) ↔
      (Unresolvable kallsyms symposes stripOrig file ∧
        Unresolvable kallsyms symposes withoutPrefix file) ∨
      ∀ sym name, file.Refers sym name → OrigInside name →
        reading kallsyms symposes (String.ofList (name.toList.drop "__orig_".length)) =
          reading kallsyms symposes name := by
  have hfits := resolveElf_fits kallsyms symposes hnamed
  constructor
  · intro hfront
    refine (readings_of_fits hfits hfront).imp_right ?_
    intro hsame sym name hrefers hinside
    rw [← stripOrig_of_inside hinside, hsame sym name hrefers, withoutPrefix_of_inside hinside]
  · rintro (⟨hcode, hfront⟩ | hsame)
    · refine ⟨fun _ => hfits.aborts hcode, fun hnone => absurd hfront hnone⟩
    · refine fits_congr ?_ hfits
      intro sym name hrefers
      by_cases hinside : OrigInside name
      · rw [stripOrig_of_inside hinside, withoutPrefix_of_inside hinside]
        exact hsame sym name hrefers hinside
      · rw [stripOrig_eq_withoutPrefix hinside]

end Resolver

/-- A module that refers to an interface and to a static function of the kernel. -/
def interfaceFile : ElfFile where
  symtab := [⟨0, 0, 0, SHN_UNDEF, 0, 0⟩, ⟨1, 0x10, 0, SHN_UNDEF, 0, 0⟩,
    ⟨17, 0x10, 0, SHN_UNDEF, 0, 0⟩, ⟨29, 0x12, 0, 1, 0x40, 8⟩]
  strtab
    | 0 => some ""
    | 1 => some "__orig_schedule"
    | 17 => some "update_load"
    | 29 => some "sched_init"
    | _ => none

/-- The addresses of `schedule`, and of two functions `update_load`. -/
def interfaceKallsyms : String → List ℕ
  | "schedule" => [0x3000]
  | "update_load" => [0x1000, 0x2000]
  | _ => []

theorem resolveElf_fitsPrefix_interface :
    Fits interfaceKallsyms (fun name => if name = "update_load" then some 2 else none)
      withoutPrefix interfaceFile
      (resolveElf interfaceKallsyms (fun name => if name = "update_load" then some 2 else none)
        interfaceFile) := by
  have hnamed : interfaceFile.Named := by
    intro sym hmem
    have hall : ∀ sym ∈ interfaceFile.symtab, (interfaceFile.strtab sym.stName).isSome := by
      decide
    exact Option.isSome_iff_exists.mp (hall sym hmem)
  refine (resolveElf_fitsPrefix_iff _ _ _ hnamed).mpr (.inr ?_)
  rintro sym name ⟨hmem, -, hname⟩ ⟨hinf, hfront⟩
  -- the only name with `__orig_` begins with it
  have hall : ∀ sym ∈ interfaceFile.symtab, ∀ name ∈ interfaceFile.strtab sym.stName,
      "__orig_".toList <:+: name.toList → "__orig_".toList <+: name.toList := by decide
  exact absurd (hall sym hmem name hname hinf) hfront

/-- A module that refers to `x86__orig_ist`. -/
def strayFile : ElfFile where
  symtab := [⟨1, 0x10, 0, SHN_UNDEF, 0, 0⟩]
  strtab
    | 1 => some "x86__orig_ist"
    | _ => none

/-- The reference to `x86__orig_ist` is looked up as `ig_ist` and left undefined. -/
theorem stray_prefix_not_resolved :
    ¬ ∀ (kallsyms : String → List ℕ) (symposes : String → Option ℕ) (file : ElfFile),
      file.Named → Fits kallsyms symposes withoutPrefix file
        (resolveElf kallsyms symposes file) := by
  intro h
  have hfits := h (fun name => if name = "x86__orig_ist" then [0x1000] else [])
    (fun _ => none) strayFile (fun sym hmem => ⟨"x86__orig_ist", by
      obtain rfl := List.mem_singleton.mp hmem
      rfl⟩)
  have hnone : ¬ Unresolvable (fun name => if name = "x86__orig_ist" then [0x1000] else [])
      (fun _ => none) withoutPrefix strayFile := by
    rintro ⟨sym, name, ⟨hmem, -, hname⟩, hread⟩
    obtain rfl := List.mem_singleton.mp hmem
    obtain rfl : "x86__orig_ist" = name := Option.some.inj hname
    exact absurd hread (by decide)
  have hvalues := congrArg (fun file => file.symtab.map ElfSym.stValue) (hfits.rewrites hnone).2
  exact absurd hvalues (by decide)

end Plugsched
