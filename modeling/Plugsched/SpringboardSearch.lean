/-
Finding the stack protector of `__schedule` on arm64.

`springboard_search.sh` writes one word for each instruction of the disassembly and has
`grep` look for the words of the check that the compiler puts in front of the epilogue.
All words have three letters, so the offset that `grep --byte-offset` prints is that of
the instruction itself; `disable_stack_protector` overwrites the instructions from there
on.

* `stackChkWords_eq` — the regular expression, word by word;
* `getStackCheckOff_some` — what the script has found when it prints something;
* `stackProtector_overwrites` — which instructions the module overwrites.
-/
import Plugsched.SyncEffect
import Plugsched.TextLines
import Plugsched.TokenText

open ByteMem TextLines TokenText

namespace Plugsched

/-- The words of `asm_sequence`. -/
inductive AsmWord where
  | ldr | ldp | ret | chk | any
  deriving DecidableEq

def AsmWord.letters : AsmWord → Line
  | .ldr => ['l', 'd', 'r']
  | .ldp => ['l', 'd', 'p']
  | .ret => ['r', 'e', 't']
  | .chk => ['c', 'h', 'k']
  | .any => ['a', 'n', 'y']

/-- How `echo` joins them. -/
def asmSpelling : Spelling AsmWord Char where
  sep := ' '
  letters := AsmWord.letters
  width := 3
  width_pos := by decide
  length_letters t := by cases t <;> rfl
  sep_notMem t := by cases t <;> decide
  injective t t' h := by cases t <;> cases t' <;> first | rfl | exact absurd h (by decide)

/-- The word for a line of the disassembly, given by its fields.  The instruction that jumps
to the call of `__stack_chk_fail`, or to the one in front of it, is the check. -/
def asmWord (chkFail chkFailBy4 : String) (fields : List String) : AsmWord :=
  if fields[2]? = some "ldr" then .ldr
  else if fields[2]? = some "ldp" then .ldp
  else if fields[2]? = some "ret" then .ret
  else if fields[4]? = some chkFail ∨ fields[5]? = some chkFail then .chk
  else if fields[4]? = some chkFailBy4 ∨ fields[5]? = some chkFailBy4 then .chk
  else .any

/-! ### The regular expression -/

/-- `ldr ldr (any ){k}chk (ldp ){j}ret`. -/
def stackChkWord (k j : ℕ) : Line :=
  ['l', 'd', 'r', ' ', 'l', 'd', 'r', ' '] ++
    (List.replicate k ['a', 'n', 'y', ' ']).flatten ++ ['c', 'h', 'k', ' '] ++
    (List.replicate j ['l', 'd', 'p', ' ']).flatten ++ ['r', 'e', 't']

/-- The matches of `ldr ldr (any ){1,4}chk (ldp ){5,6}ret`, the longest first. -/
def stackChkWords : List Line :=
  [stackChkWord 4 6, stackChkWord 4 5, stackChkWord 3 6, stackChkWord 3 5, stackChkWord 2 6,
    stackChkWord 2 5, stackChkWord 1 6, stackChkWord 1 5]

/-- The instructions of the check, `k` of them between the loads and the jump. -/
def stackChkInsns (k : ℕ) : List AsmWord := .ldr :: .ldr :: (List.replicate k .any ++ [.chk])

/-- The check and the epilogue behind it. -/
def stackChkPattern (k j : ℕ) : List AsmWord :=
  stackChkInsns k ++ (List.replicate j .ldp ++ [.ret])

def stackChkPatterns : List (List AsmWord) :=
  [stackChkPattern 4 6, stackChkPattern 4 5, stackChkPattern 3 6, stackChkPattern 3 5,
    stackChkPattern 2 6, stackChkPattern 2 5, stackChkPattern 1 6, stackChkPattern 1 5]

theorem stackChkWords_eq : stackChkWords = stackChkPatterns.map asmSpelling.join := by
  decide

/-- `sed 's/chk.*/chk/g'` on one match. -/
def throughChk : Line → Line
  | [] => []
  | c :: s =>
    if AsmWord.chk.letters.isPrefixOf (c :: s) then AsmWord.chk.letters else c :: throughChk s

/-- `stack_chk_len`: the number of fields up to the check. -/
def stackChkLen (stackChkSeq : Line) : ℕ := (words (throughChk stackChkSeq)).length

/-- `get_stack_check_off_aarch64`: the offset and the length it prints.  With no match, or
one at the very beginning, the script gives up; with several matches it prints lines that
the shell cannot evaluate. -/
def getStackCheckOff (chkFail chkFailBy4 : String) (asm : List (List String)) :
    Option (ℕ × ℕ) :=
  match scan stackChkWords 0 0 (asmSpelling.join (asm.map (asmWord chkFail chkFailBy4))) with
  | [(off, stackChkSeq)] => if off = 0 then none else some (off, stackChkLen stackChkSeq)
  | _ => none

theorem mem_stackChkPatterns {p : List AsmWord} (h : p ∈ stackChkPatterns) :
    ∃ k j, (1 ≤ k ∧ k ≤ 4) ∧ (5 ≤ j ∧ j ≤ 6) ∧ p = stackChkPattern k j := by
  simp only [stackChkPatterns, List.mem_cons, List.not_mem_nil, or_false] at h
  rcases h with rfl | rfl | rfl | rfl | rfl | rfl | rfl | rfl
  · exact ⟨4, 6, by decide, by decide, rfl⟩
  · exact ⟨4, 5, by decide, by decide, rfl⟩
  · exact ⟨3, 6, by decide, by decide, rfl⟩
  · exact ⟨3, 5, by decide, by decide, rfl⟩
  · exact ⟨2, 6, by decide, by decide, rfl⟩
  · exact ⟨2, 5, by decide, by decide, rfl⟩
  · exact ⟨1, 6, by decide, by decide, rfl⟩
  · exact ⟨1, 5, by decide, by decide, rfl⟩

/-- The length that is printed leaves the epilogue out. -/
theorem stackChkPattern_spec {k j : ℕ} (hk : 1 ≤ k ∧ k ≤ 4) (hj : 5 ≤ j ∧ j ≤ 6) :
    stackChkPattern k j ∈ stackChkPatterns ∧
      stackChkLen (asmSpelling.join (stackChkPattern k j)) = k + 3 := by
  have hall : ∀ k ∈ [1, 2, 3, 4], ∀ j ∈ [5, 6], stackChkPattern k j ∈ stackChkPatterns ∧
      stackChkLen (asmSpelling.join (stackChkPattern k j)) = k + 3 := by
    decide
  refine hall k ?_ j ?_
  · simp only [List.mem_cons, List.not_mem_nil, or_false]
    omega
  · simp only [List.mem_cons, List.not_mem_nil, or_false]
    omega

/-! ### What the script has found -/

theorem stackChkPatterns_head : ∀ p ∈ stackChkPatterns, p.take 2 = [.ldr, .ldr] := by decide

/-- There are no other loads in the pattern. -/
theorem stackChkPatterns_tail :
    ∀ p ∈ stackChkPatterns, 3 ≤ p.length ∧ ∀ w ∈ p.drop 2, w ≠ .ldr := by
  decide

theorem stackChkPatterns_ne_nil : ∀ p ∈ stackChkPatterns, p ≠ [] := by decide

theorem stackChkPatterns_eq_of :
    ∀ p ∈ stackChkPatterns, ∀ p' ∈ stackChkPatterns, p <+: p' → p = p' := by
  decide

/-- Two matches do not overlap. -/
theorem apart_stackChk (seq : List AsmWord) : Apart stackChkPatterns seq := by
  rintro i p ⟨hp, post, hpost⟩ d hd hlt p' ⟨hp', hpre'⟩
  obtain ⟨hlen, htail⟩ := stackChkPatterns_tail p hp
  rw [← List.drop_drop, ← hpost, List.drop_append_of_le_length hlt.le] at hpre'
  -- the second match begins with two loads
  have hloads : [AsmWord.ldr, .ldr] <+: p.drop d ++ post := by
    rw [← stackChkPatterns_head p' hp']
    exact (List.take_prefix 2 p').trans hpre'
  obtain ⟨rest, hrest⟩ := hloads
  have hget : ∀ n < 2, (p.drop d ++ post)[n]? = some AsmWord.ldr := by
    intro n hn
    rw [← hrest]
    match n, hn with
    | 0, _ => rfl
    | 1, _ => rfl
  have hload : ∀ e, 2 ≤ e → e < p.length → p[e]? ≠ some AsmWord.ldr := by
    intro e hle he hsome
    refine htail .ldr (List.mem_of_getElem? (i := e - 2) ?_) rfl
    rwa [List.getElem?_drop, Nat.add_sub_cancel' hle]
  rcases Nat.lt_or_ge d 2 with hone | htwo
  · obtain rfl : d = 1 := by omega
    have hsecond := hget 1 (by decide)
    rw [List.getElem?_append_left (by rw [List.length_drop]; omega), List.getElem?_drop] at hsecond
    exact hload 2 le_rfl (by omega) hsecond
  · have hfirst := hget 0 (by decide)
    rw [List.getElem?_append_left (by rw [List.length_drop]; omega), List.getElem?_drop] at hfirst
    exact hload d htwo hlt hfirst

/-- The check with `k` instructions stands at instruction `i`, in front of an epilogue, and
the function has no other such place. -/
structure CheckAt (seq : List AsmWord) (i k : ℕ) : Prop where
  pos : 0 < i
  between : 1 ≤ k ∧ k ≤ 4
  epilogue : ∃ j, 5 ≤ j ∧ j ≤ 6 ∧ stackChkPattern k j <+: seq.drop i
  only : ∀ i' p, Occurs stackChkPatterns seq i' p → i' = i

theorem find_stackChk_iff (seq : List AsmWord) (p : List AsmWord) :
    stackChkPatterns.find? (fun p => p.isPrefixOf seq) = some p ↔
      p ∈ stackChkPatterns ∧ p <+: seq := by
  constructor
  · intro h
    have hocc := occurs_of_find (i := 0) h
    exact ⟨hocc.1, hocc.2⟩
  · rintro ⟨hp, hpre⟩
    obtain ⟨p', hfind⟩ := find_of_prefix hp hpre
    have hocc := occurs_of_find (i := 0) hfind
    rw [hfind]
    congr 1
    -- one of them begins with the other
    rcases List.prefix_or_prefix_of_prefix hocc.2 hpre with h | h
    · exact stackChkPatterns_eq_of p' hocc.1 p hp h
    · exact (stackChkPatterns_eq_of p hp p' hocc.1 h).symm

theorem getStackCheckOff_eq_some {chkFail chkFailBy4 : String} {asm : List (List String)}
    {off len : ℕ} :
    getStackCheckOff chkFail chkFailBy4 asm = some (off, len) ↔
      ∃ i p, scan stackChkPatterns 0 0 (asm.map (asmWord chkFail chkFailBy4)) = [(i, p)] ∧
        0 < i ∧ off = 4 * i ∧ len = stackChkLen (asmSpelling.join p) := by
  rw [getStackCheckOff, stackChkWords_eq, scan_join asmSpelling stackChkPatterns_ne_nil]
  cases scan stackChkPatterns 0 0 (asm.map (asmWord chkFail chkFailBy4)) with
  | nil => simp
  | cons m rest =>
    cases rest with
    | cons m' rest => simp
    | nil =>
      obtain ⟨i, p⟩ := m
      show (if 4 * i = 0 then none else some (4 * i, stackChkLen (asmSpelling.join p))) = _ ↔ _
      constructor
      · intro h
        split at h
        · cases h
        · next hne =>
          cases h
          exact ⟨i, p, rfl, by omega, rfl, rfl⟩
      · rintro ⟨i', p', heq, hpos, rfl, rfl⟩
        cases heq
        exact if_neg (by omega)

/-- The script prints the place of the check and the number of its instructions. -/
theorem getStackCheckOff_iff {chkFail chkFailBy4 : String} {asm : List (List String)}
    {off len : ℕ} :
    getStackCheckOff chkFail chkFailBy4 asm = some (off, len) ↔
      ∃ i k, CheckAt (asm.map (asmWord chkFail chkFailBy4)) i k ∧ off = 4 * i ∧ len = k + 3 := by
  rw [getStackCheckOff_eq_some]
  simp only [scan_eq_singleton_iff stackChkPatterns_ne_nil (apart_stackChk _), find_stackChk_iff]
  constructor
  · rintro ⟨i, p, ⟨⟨hp, hpre⟩, honly⟩, hpos, hoff, hlen⟩
    obtain ⟨k, j, hk, hj, rfl⟩ := mem_stackChkPatterns hp
    exact ⟨i, k, ⟨hpos, hk, ⟨j, hj.1, hj.2, hpre⟩, honly⟩, hoff,
      hlen.trans (stackChkPattern_spec hk hj).2⟩
  · rintro ⟨i, k, ⟨hpos, hk, ⟨j, hj₁, hj₂, hpre⟩, honly⟩, hoff, hlen⟩
    obtain ⟨hmem, hspec⟩ := stackChkPattern_spec hk ⟨hj₁, hj₂⟩
    exact ⟨i, _, ⟨⟨hmem, hpre⟩, honly⟩, hpos, hoff, hlen.trans hspec.symm⟩

/-! ### What the module overwrites -/

theorem canaryInsns_eq (insn : Arm64Insn) (schedule i len : ℕ) :
    (Arch.arm64 insn schedule (some (4 * i, len))).canaryInsns =
      (List.range len).map fun m => schedule + 4 * (i + m) := by
  show (List.range len).map (fun m => schedule + 4 * i + 4 * m) = _
  refine List.map_congr_left fun m _ => ?_
  omega

/-- Byte `b` of instruction `m` is overwritten exactly if `m` is one of the instructions. -/
theorem disableStackProtector_insn {insn : Arm64Insn} (hinsn : insn.Documented) {schedule : ℕ}
    (hdvd : 4 ∣ schedule) (i len : ℕ) (text : Mem Byte) (m : ℕ) {b : ℕ} (hb : b < 4) :
    let text' := disableStackProtector (.arm64 insn schedule (some (4 * i, len))) text
    if i ≤ m ∧ m < i + len then (leBytes NOP)[b]? = some (text' (schedule + 4 * m + b))
    else text' (schedule + 4 * m + b) = text (schedule + 4 * m + b) := by
  have hA : (Arch.arm64 insn schedule (some (4 * i, len))).Documented := hinsn
  dsimp only
  rw [disableStackProtector_eq hA]
  split
  · next hin =>
    refine nopPatches_getElem? ?_ ?_ hb text
    · rw [canaryInsns_eq]
      refine List.mem_map.mpr ⟨m - i, List.mem_range.mpr (by omega), ?_⟩
      rw [Nat.add_sub_cancel' hin.1]
    · exact decide_eq_true ((Nat.dvd_add_right hdvd).mpr (Nat.dvd_mul_right 4 m))
  · next hout =>
    refine applyAll_of_not_covered ?_ text
    rw [covered_nopPatches, canaryInsns_eq]
    rintro ⟨a, ha, -, b', hb', heq⟩
    obtain ⟨m', hm', rfl⟩ := List.mem_map.mp ha
    have hlt := List.mem_range.mp hm'
    exact hout ⟨by omega, by omega⟩

/-- **The stack protector is found and removed.**  The script prints an offset and a length
exactly if the check stands at one place of the function, not at its beginning.  From a
text with the function at `schedule`, the module then overwrites with `NOP` the two loads,
the instructions behind them and the jump; every other instruction of the function, and
all that is in front of it, stays. -/
theorem stackProtector_overwrites (insn : Arm64Insn) (hinsn : insn.Documented) (schedule : ℕ)
    (hdvd : 4 ∣ schedule) (chkFail chkFailBy4 : String) (asm : List (List String)) (off len : ℕ)
    (text : Mem Byte) :
    (getStackCheckOff chkFail chkFailBy4 asm = some (off, len) ↔
      ∃ i k, CheckAt (asm.map (asmWord chkFail chkFailBy4)) i k ∧ off = 4 * i ∧ len = k + 3) ∧
    ∀ i k, CheckAt (asm.map (asmWord chkFail chkFailBy4)) i k → off = 4 * i → len = k + 3 →
      let text' := disableStackProtector (.arm64 insn schedule (some (off, len))) text
      stackChkInsns k <+: (asm.map (asmWord chkFail chkFailBy4)).drop i ∧
      (∀ m, ∀ b < 4,
        if i ≤ m ∧ m < i + (stackChkInsns k).length then
          (leBytes NOP)[b]? = some (text' (schedule + 4 * m + b))
        else text' (schedule + 4 * m + b) = text (schedule + 4 * m + b)) ∧
      ∀ x < schedule, text' x = text x := by
  refine ⟨getStackCheckOff_iff, ?_⟩
  rintro i k hcheck rfl rfl
  have hlength : (stackChkInsns k).length = k + 3 := by
    simp [stackChkInsns]
  dsimp only
  refine ⟨?_, fun m b hb => ?_, fun x hx => ?_⟩
  · obtain ⟨j, -, -, hpre⟩ := hcheck.epilogue
    exact (List.prefix_append _ _).trans hpre
  · rw [hlength]
    exact disableStackProtector_insn hinsn hdvd i (k + 3) text m hb
  · have hA : (Arch.arm64 insn schedule (some (4 * i, k + 3))).Documented := hinsn
    rw [disableStackProtector_eq hA]
    refine applyAll_of_not_covered ?_ text
    rw [covered_nopPatches, canaryInsns_eq]
    rintro ⟨a, ha, -, b, hb, rfl⟩
    obtain ⟨m, -, rfl⟩ := List.mem_map.mp ha
    omega

/-- A `__schedule` of twelve instructions: the third field is the instruction. -/
def canaryAsm : List (List String) :=
  [["0:", "a9", "stp"], ["4:", "f9", "ldr"], ["8:", "f9", "ldr"], ["c:", "eb", "subs"],
    ["10:", "54", "b.ne", "2c", "<__schedule+0x2c>"], ["14:", "a9", "ldp"], ["18:", "a9", "ldp"],
    ["1c:", "a9", "ldp"], ["20:", "a9", "ldp"], ["24:", "a8", "ldp"], ["28:", "d6", "ret"],
    ["2c:", "94", "bl"]]

/-- Its words. -/
theorem canaryAsm_words :
    canaryAsm.map (asmWord "<__schedule+0x2c>" "<__schedule+0x28>") =
      .any :: (stackChkPattern 1 5 ++ [.any]) := by
  rfl

/-- Instructions 1 to 4 are overwritten, the epilogue is not. -/
theorem stackProtector_overwrites_canaryAsm :
    ∃ i k, CheckAt (canaryAsm.map (asmWord "<__schedule+0x2c>" "<__schedule+0x28>")) i k ∧
      4 = 4 * i ∧ 4 = k + 3 := by
  refine (stackProtector_overwrites arm64Insn arm64Insn_documented 0x1000 (by decide) _ _ canaryAsm
    4 4 fun _ => 0).1.mp ?_
  rw [getStackCheckOff, canaryAsm_words]
  decide

end Plugsched
