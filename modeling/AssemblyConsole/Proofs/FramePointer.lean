import AssemblyConsole.Proofs.ConstantMarks
import Mathlib.Data.List.Infix

/-!
Where the frame pointer of ARM is numbered: at every occurrence of its name, those inside longer words too. Words are
rewritten, and nothing else, exactly if no longer word holds the name.
-/

namespace AssemblyConsole.Operands

open Text

def framePointer : List Char := "fp".toList

def framePointerNumber : List Char := "r11".toList

/-- The name of the frame pointer becomes its number, and any other word stays. -/
def numberedWord (w : List Char) : List Char := if w = framePointer then framePointerNumber else w

variable {w cs rest : List Char} {c : Char}

theorem framePointer_infix_cons (h : ∀ rest, c = 'f' → cs ≠ 'p' :: rest) :
    framePointer <:+: c :: cs ↔ framePointer <:+: cs := by
  rw [List.infix_cons_iff, or_iff_right]
  rintro ⟨rest, hrest⟩
  obtain ⟨hc, hcs⟩ := List.cons.inj hrest
  exact h rest hc.symm hcs.symm

theorem numberFramePointer_eq_self_iff (cs : List Char) : numberFramePointer cs = cs ↔ ¬framePointer <:+: cs := by
  fun_induction numberFramePointer cs with
  | case1 => decide
  | case2 cs ih =>
    apply iff_of_false
    · simp
    · exact not_not_intro ⟨[], cs, rfl⟩
  | case3 c cs h ih => rw [framePointer_infix_cons h, ← ih, List.cons_inj_right]

theorem numberFramePointer_eq_numberedWord_iff (w : List Char) :
    numberFramePointer w = numberedWord w ↔ (framePointer <:+: w → w = framePointer) := by
  rw [numberedWord]
  split
  · rename_i hw
    rw [hw]
    exact iff_of_true rfl fun _ => rfl
  · rename_i hw
    rw [numberFramePointer_eq_self_iff, imp_iff_not hw]

theorem intercalate_cons_head (sep p : List Char) (ps : List (List Char)) :
    sep.intercalate ((c :: p) :: ps) = c :: sep.intercalate (p :: ps) := by
  cases ps with
  | nil => rfl
  | cons q ps => rw [List.intercalate_cons_cons, List.intercalate_cons_cons, List.cons_append, List.cons_append]

theorem numberFramePointer_pieces (cs : List Char) : ∃ p ps, (∀ q ∈ p :: ps, ¬framePointer <:+: q) ∧
    cs = framePointer.intercalate (p :: ps) ∧ numberFramePointer cs = framePointerNumber.intercalate (p :: ps) := by
  fun_induction numberFramePointer cs with
  | case1 => exact ⟨[], [], by decide, rfl, rfl⟩
  | case2 cs ih =>
    obtain ⟨p, ps, hps, hcs, hnumbered⟩ := ih
    refine ⟨[], p :: ps, List.forall_mem_cons.mpr ⟨by decide, hps⟩, ?_, ?_⟩
    · rw [List.intercalate_cons_cons, ← hcs]
      rfl
    · rw [List.intercalate_cons_cons, ← hnumbered]
      rfl
  | case3 c cs h ih =>
    obtain ⟨p, ps, hps, hcs, hnumbered⟩ := ih
    obtain ⟨hp, hps⟩ := List.forall_mem_cons.mp hps
    refine ⟨c :: p, ps, List.forall_mem_cons.mpr ⟨?_, hps⟩, ?_, ?_⟩
    · -- what follows the character in its piece follows it in the text
      rw [framePointer_infix_cons]
      · exact hp
      · rintro rest hc rfl
        exact h _ hc (hcs.trans (intercalate_cons_head _ _ _))
    · rw [intercalate_cons_head, ← hcs]
    · rw [intercalate_cons_head, ← hnumbered]

theorem numberFramePointer_between (hc : isWordCharacter c = false) (cs : List Char) :
    numberFramePointer (c :: cs) = c :: numberFramePointer cs := by
  rw [numberFramePointer]
  rintro rest rfl
  cases hc

theorem numberFramePointer_append (hrest : BeginsApart rest) (w : List Char) :
    numberFramePointer (w ++ rest) = numberFramePointer w ++ numberFramePointer rest := by
  fun_induction numberFramePointer w with
  | case1 => rfl
  | case2 w ih => rw [List.cons_append, List.cons_append, numberFramePointer, ih]; rfl
  | case3 c w h ih =>
    rw [List.cons_append, numberFramePointer, ih, List.cons_append]
    intro more hc hmore
    cases w with
    | nil =>
      rw [List.nil_append] at hmore
      rw [hmore] at hrest
      cases (beginsApart_cons more).mp hrest
    | cons d w => exact h w hc (by rw [(List.cons.inj hmore).1])

theorem numberFramePointer_eq_mapWords (cs : List Char) : numberFramePointer cs = mapWords numberFramePointer cs := by
  induction cs using words_induction with
  | nil => rfl
  | between c cs hc ih => rw [numberFramePointer_between hc, mapWords_between hc, ih]
  | word w rest hw hrest ih => rw [numberFramePointer_append hrest, mapWords_word hw hrest, ih]

theorem isWordCharacter_of_mem_numberFramePointer (hw : ∀ c ∈ w, isWordCharacter c = true) :
    ∀ c ∈ numberFramePointer w, isWordCharacter c = true := by
  fun_induction numberFramePointer w with
  | case1 => exact hw
  | case2 w ih =>
    simp only [List.forall_mem_cons] at hw ⊢
    exact ⟨by decide, by decide, by decide, ih hw.2.2⟩
  | case3 c w _ ih =>
    obtain ⟨hc, hw⟩ := List.forall_mem_cons.mp hw
    exact List.forall_mem_cons.mpr ⟨hc, ih hw⟩

theorem isWord_numberFramePointer (hw : IsWord w) : IsWord (numberFramePointer w) := by
  refine ⟨?_, isWordCharacter_of_mem_numberFramePointer hw.2⟩
  have hne := hw.1
  fun_cases numberFramePointer w with
  | case1 => exact hne
  | case2 w => exact List.cons_ne_nil _ _
  | case3 c w h => exact List.cons_ne_nil _ _

theorem isWord_numberedWord (hw : IsWord w) : IsWord (numberedWord w) := by
  rw [numberedWord]
  split
  · exact ⟨by decide, List.forall_iff_forall_mem.mp (by decide)⟩
  · exact hw

theorem markConstants_of_no_digit (h : ∀ c ∈ cs, c.isDigit = false) : markConstants cs = cs := by
  induction cs with
  | nil => rw [markConstants]
  | cons c cs ih =>
    have hlone : loneAt (c :: cs) 1 = false := by
      cases cs with
      | nil => simp [loneAt, digitAt]
      | cons d cs => simp [loneAt, digitAt, h d (by simp)]
    rw [markConstants_passed hlone, ih (List.forall_mem_cons.mp h).2]

theorem operands_ofRaw_arm {r : RawInstruction} (h : ∀ c ∈ r.operands.toList, c.isDigit = false) :
    (Decoded.ofRaw .arm r).instruction.operands.toList = numberFramePointer r.operands.toList := by
  change (normalize .arm r.operands).toList = _
  rw [normalize, if_pos rfl, String.toList_ofList, markConstants_of_no_digit h]

/-- On ARM the mnemonic is kept, and in operands without digits the name of the frame pointer is replaced by its number
wherever it occurs. These are the words that are the name if it occurs in no longer word. -/
theorem ofRaw_numbers {r : RawInstruction} (h : ∀ c ∈ r.operands.toList, c.isDigit = false) :
    let cs := r.operands.toList
    let written := (Decoded.ofRaw .arm r).instruction
    written.mnemonic = r.mnemonic ∧
      (∃ ps, (∀ p ∈ ps, ¬framePointer <:+: p) ∧ cs = framePointer.intercalate ps ∧
        written.operands.toList = framePointerNumber.intercalate ps) ∧
      (written.operands.toList = mapWords numberedWord cs ↔
        ∀ w ∈ words cs, framePointer <:+: w → w = framePointer) := by
  intro cs written
  have hwritten : written.operands.toList = numberFramePointer cs := operands_ofRaw_arm h
  refine ⟨rfl, ?_, ?_⟩
  · obtain ⟨p, ps, hps, hcs, hnumbered⟩ := numberFramePointer_pieces cs
    exact ⟨p :: ps, hps, hcs, hwritten.trans hnumbered⟩
  · rw [hwritten, numberFramePointer_eq_mapWords,
      mapWords_eq_mapWords_iff (fun _ => isWord_numberFramePointer) (fun _ => isWord_numberedWord)]
    simp only [numberFramePointer_eq_numberedWord_iff]

/-- The frame pointer is loaded with the status register `fpscr`, whose name begins with its own. -/
def statusLoad : RawInstruction where
  address := 0
  raw := [0x10, 0xba, 0xf1, 0xee]
  mnemonic := "vmrs"
  operands := "fp, fpscr"

theorem no_digit_statusLoad : ∀ c ∈ statusLoad.operands.toList, c.isDigit = false :=
  List.forall_iff_forall_mem.mp (by decide)

theorem ofRaw_numbers_statusLoad : (∀ c ∈ statusLoad.operands.toList, c.isDigit = false) ∧
    (Decoded.ofRaw .arm statusLoad).instruction.mnemonic = "vmrs" ∧
    (Decoded.ofRaw .arm statusLoad).instruction.operands.toList = "r11, r11scr".toList ∧
    (Decoded.ofRaw .arm statusLoad).instruction.operands.toList ≠
      mapWords numberedWord statusLoad.operands.toList := by
  obtain ⟨hmnemonic, -, hwords⟩ := ofRaw_numbers no_digit_statusLoad
  refine ⟨no_digit_statusLoad, hmnemonic, ?_, ?_⟩
  · rw [operands_ofRaw_arm no_digit_statusLoad]
    decide
  · rw [ne_eq, hwords]
    decide

/-- A name that is longer than the frame pointer's is changed with it. -/
theorem numbers_status : ¬∀ r : RawInstruction, (∀ c ∈ r.operands.toList, c.isDigit = false) →
    (Decoded.ofRaw .arm r).instruction.mnemonic = r.mnemonic ∧
    (Decoded.ofRaw .arm r).instruction.operands.toList = mapWords numberedWord r.operands.toList := by
  intro h
  have hnumbered := (h statusLoad no_digit_statusLoad).2
  rw [operands_ofRaw_arm no_digit_statusLoad] at hnumbered
  exact absurd hnumbered (by decide)

end AssemblyConsole.Operands
