import AssemblyConsole.Disassembler.Decode
import AssemblyConsole.Proofs.WordRuns
import Mathlib.Algebra.Order.Ring.Nat

/-!
Which digits of the operands are marked as hexadecimal. A digit is marked if it begins a word behind the beginning of
the text, neither a digit nor an `x` follows it, and the digit two places before it is not marked: the character
between them is passed over with that one.
-/

namespace AssemblyConsole.Operands

open Text

/-- The text with `0x` in front of the characters at the marked places. -/
def withMarks (marked : Nat → Bool) (cs : List Char) : List Char :=
  (cs.mapIdx fun i c => if marked i then ['0', 'x', c] else [c]).flatten

/-- A word behind the beginning of the text begins at the place with a digit, and the character behind the digit, if
there is one, passes the test. -/
def digitAt (next : Char → Bool) (cs : List Char) : Nat → Bool
  | 0 => false
  | i + 1 => cs[i]?.any (!isWordCharacter ·) && cs[i + 1]?.any Char.isDigit && cs[i + 2]?.all next

/-- A word behind the beginning of the text is a single digit. -/
def constantAt (cs : List Char) : Nat → Bool := digitAt (!isWordCharacter ·) cs

def loneAt (cs : List Char) : Nat → Bool := digitAt (fun e => !(e.isDigit || e = 'x')) cs

def markedAt (cs : List Char) : Nat → Bool
  | 0 => false
  | 1 => loneAt cs 1
  | i + 2 => loneAt cs (i + 2) && !markedAt cs i

variable {marked other : Nat → Bool} {cs rest : List Char} {written : List Char} {c d e : Char}

theorem withMarks_cons (marked : Nat → Bool) (c : Char) (cs : List Char) : withMarks marked (c :: cs) =
    (if marked 0 then ['0', 'x', c] else [c]) ++ withMarks (fun i => marked (i + 1)) cs := by
  rw [withMarks, List.mapIdx_cons, List.flatten_cons, withMarks]

theorem loneAt_cons (c : Char) (cs : List Char) (i : Nat) : loneAt (c :: cs) (i + 2) = loneAt cs (i + 1) := by
  simp only [loneAt, digitAt, List.getElem?_cons_succ]

theorem loneAt_one (c : Char) (cs : List Char) :
    loneAt (c :: cs) 1 = (!isWordCharacter c && (loneDigit? cs).isSome) := by
  rcases cs with _ | ⟨d, _ | ⟨e, cs⟩⟩
  · simp [loneAt, digitAt, loneDigit?]
  · by_cases hd : d.isDigit <;> simp [loneAt, digitAt, loneDigit?, hd]
  · by_cases hd : d.isDigit <;> by_cases he : e.isDigit <;> by_cases hx : e = 'x' <;>
      simp [loneAt, digitAt, loneDigit?, hd, he, hx]

theorem markedAt_cons (h : markedAt (c :: cs) 1 = false) (i : Nat) : markedAt (c :: cs) (i + 1) = markedAt cs i := by
  induction i using Nat.twoStepInduction with
  | zero => rw [h, markedAt]
  | one => rw [markedAt, markedAt, loneAt_cons, markedAt, Bool.not_false, Bool.and_true]
  | more i ih _ => rw [markedAt, ih, loneAt_cons, markedAt]

theorem not_markedAt_two (h : loneAt (c :: d :: rest) 1 = true) : markedAt (c :: d :: rest) 2 = false := by
  have hd : d.isDigit = true := by
    simp only [loneAt, digitAt, Bool.and_eq_true] at h
    simpa using h.1.2
  rw [markedAt, loneAt_cons, loneAt_one, isWordCharacter_of_isDigit hd, Bool.not_true, Bool.false_and, Bool.false_and]

theorem markedAt_behind (h : loneAt (c :: d :: e :: rest) 1 = true) (i : Nat) :
    markedAt (c :: d :: e :: rest) (i + 3) = markedAt rest i := by
  have hlater (i : Nat) : loneAt (c :: d :: e :: rest) (i + 4) = loneAt rest (i + 1) := by
    rw [loneAt_cons, loneAt_cons, loneAt_cons]
  -- No word begins behind a digit, and the mark on it keeps the place two behind it from being marked.
  induction i using Nat.twoStepInduction with
  | zero =>
    have hone : markedAt (c :: d :: e :: rest) 1 = true := h
    have hthree : markedAt (c :: d :: e :: rest) 3 = false := by
      rw [markedAt, hone, Bool.not_true, Bool.and_false]
    exact hthree
  | one =>
    have hfour : markedAt (c :: d :: e :: rest) 4 = loneAt rest 1 := by
      rw [markedAt, not_markedAt_two h, Bool.not_false, Bool.and_true, hlater]
    exact hfour
  | more i ih _ => rw [markedAt, ih, hlater, markedAt]

theorem constant?_of_loneDigit? (h : loneDigit? cs = some (written, rest)) :
    constant? cs = some ('0' :: 'x' :: written, rest) := by
  rcases cs with _ | ⟨d, cs⟩
  · cases h
  · have hne : d ≠ '-' := by
      rintro rfl
      rcases cs with _ | ⟨e, cs⟩ <;> simp [loneDigit?] at h
    rw [constant?, h, Option.map_some]
    intro cs' hcs
    exact hne (List.cons.inj hcs).1

theorem markConstants_found (hc : isWordCharacter c = false) (h : constant? cs = some (written, rest)) :
    markConstants (c :: cs) = c :: written ++ markConstants rest := by
  rw [markConstants, if_neg (by simp [hc])]
  split
  · rename_i hfound
    rw [h] at hfound
    obtain ⟨rfl, rfl⟩ := Prod.mk.inj (Option.some.inj hfound)
    rfl
  · rename_i hfound
    rw [h] at hfound
    cases hfound

theorem markConstants_passed (h : loneAt (c :: cs) 1 = false) : markConstants (c :: cs) = c :: markConstants cs := by
  rw [loneAt_one] at h
  rw [markConstants]
  split
  · rfl
  · rename_i hc
    have hnone : loneDigit? cs = none := by simpa [hc] using h
    split
    · rename_i written rest hfound
      unfold constant? at hfound
      split at hfound
      · -- The minus sign is a character of no word itself: not passed over, it has the digit behind it.
        rename_i cs
        obtain ⟨⟨digit, more⟩, hdigit, hwritten⟩ := Option.map_eq_some_iff.mp hfound
        obtain ⟨rfl, rfl⟩ := Prod.mk.inj hwritten
        rw [markConstants_found (by decide) (constant?_of_loneDigit? hdigit), List.cons_append, List.cons_append]
      · rw [hnone] at hfound
        cases hfound
    · rfl

theorem markConstants_marked (h : loneAt (c :: cs) 1 = true) :
    markConstants (c :: cs) = c :: '0' :: 'x' :: cs.take 2 ++ markConstants (cs.drop 2) := by
  rw [loneAt_one, Bool.and_eq_true, Bool.not_eq_true'] at h
  obtain ⟨hc, hdigit⟩ := h
  have htwo : loneDigit? cs = some (cs.take 2, cs.drop 2) := by
    unfold loneDigit? at hdigit ⊢
    split at hdigit
    · cases hdigit
    · split <;> simp_all
    · split <;> simp_all
  rw [markConstants_found hc (constant?_of_loneDigit? htwo)]

theorem markConstants_eq_withMarks (cs : List Char) : markConstants cs = withMarks (markedAt cs) cs := by
  induction hn : cs.length using Nat.strong_induction_on generalizing cs with
  | _ n ih =>
    cases cs with
    | nil => rw [markConstants, withMarks, List.mapIdx_nil, List.flatten_nil]
    | cons c cs =>
      have hshort : cs.length < n := by simp [← hn]
      cases h : loneAt (c :: cs) 1 with
      | false =>
        rw [markConstants_passed h, withMarks_cons, ih cs.length hshort cs rfl]
        simp only [markedAt_cons h]
        rfl
      | true =>
        have hone : markedAt (c :: cs) 1 = true := h
        rw [markConstants_marked h, ih (cs.drop 2).length (by simp; omega) (cs.drop 2) rfl]
        rcases cs with _ | ⟨d, _ | ⟨e, rest⟩⟩
        · simp [loneAt, digitAt] at h
        · simp [withMarks, markedAt, h]
        · simp only [withMarks_cons, markedAt_behind h, not_markedAt_two h, hone]
          rfl

/-- The marked places are places of the text, and no `x` follows them that a mark could be mistaken for. -/
def Placed (cs : List Char) (marked : Nat → Bool) : Prop :=
  ∀ i, marked i = true → i < cs.length ∧ cs[i + 1]? ≠ some 'x'

theorem placed_tail (h : Placed (c :: cs) marked) : Placed cs fun i => marked (i + 1) := by
  intro i hi
  obtain ⟨hlt, hnext⟩ := h (i + 1) hi
  exact ⟨Nat.lt_of_succ_lt_succ hlt, by simpa using hnext⟩

theorem withMarks_head? (hcs : cs[0]? ≠ some 'x') : (withMarks marked cs).head? ≠ some 'x' := by
  cases cs with
  | nil => simp [withMarks]
  | cons c cs =>
    rw [withMarks_cons]
    cases marked 0 with
    | true => simp
    | false => simpa using hcs

theorem withMarks_marked_ne (h : Placed (c :: cs) marked) (hm : marked 0 = true) (ho : other 0 = false) :
    withMarks marked (c :: cs) ≠ withMarks other (c :: cs) := by
  intro he
  have hnext : cs[0]? ≠ some 'x' := by simpa using (h 0 hm).2
  rw [withMarks_cons, withMarks_cons, hm, ho] at he
  obtain ⟨-, hrest⟩ := List.cons.inj he
  exact withMarks_head? hnext (congrArg List.head? hrest.symm)

theorem withMarks_inj (hm : Placed cs marked) (ho : Placed cs other) :
    withMarks marked cs = withMarks other cs ↔ marked = other := by
  refine ⟨fun he => ?_, fun he => by rw [he]⟩
  induction cs generalizing marked other with
  | nil =>
    funext i
    have hnone {m : Nat → Bool} (h : Placed [] m) : m i = false := by
      by_contra hi
      exact absurd (h i (by simpa using hi)).1 (Nat.not_lt_zero i)
    rw [hnone hm, hnone ho]
  | cons c cs ih =>
    have hzero : marked 0 = other 0 := by
      cases hmz : marked 0 <;> cases hoz : other 0
      · rfl
      · exact absurd he.symm (withMarks_marked_ne ho hoz hmz)
      · exact absurd he (withMarks_marked_ne hm hmz hoz)
      · rfl
    rw [withMarks_cons, withMarks_cons, hzero] at he
    have htail := ih (placed_tail hm) (placed_tail ho) (List.append_cancel_left he)
    funext i
    cases i with
    | zero => exact hzero
    | succ i => exact congrFun htail i

theorem placed_loneAt (cs : List Char) : Placed cs (loneAt cs) := by
  intro i hi
  cases i with
  | zero => cases hi
  | succ i =>
    simp only [loneAt, digitAt, Bool.and_eq_true] at hi
    obtain ⟨⟨-, hdigit⟩, hnext⟩ := hi
    constructor
    · by_contra hlt
      rw [List.getElem?_eq_none (by omega)] at hdigit
      cases hdigit
    · intro hx
      rw [hx] at hnext
      cases hnext

theorem loneAt_of_constantAt {i : Nat} (h : constantAt cs i = true) : loneAt cs i = true := by
  cases i with
  | zero => cases h
  | succ i =>
    simp only [constantAt, loneAt, digitAt, Bool.and_eq_true] at h ⊢
    refine ⟨h.1, ?_⟩
    cases hnext : cs[i + 2]? with
    | none => rfl
    | some e =>
      rw [hnext] at h
      have he : isWordCharacter e = false := by simpa using h.2
      have hdigit : e.isDigit = false := by
        by_contra hd
        rw [isWordCharacter_of_isDigit (by simpa using hd)] at he
        cases he
      have hx : e ≠ 'x' := by
        rintro rfl
        cases he
      simp [hdigit, hx]

theorem loneAt_of_markedAt {i : Nat} (h : markedAt cs i = true) : loneAt cs i = true := by
  match i, h with
  | 1, h => exact h
  | i + 2, h => exact (Bool.and_eq_true_iff.mp h).1

theorem markedAt_eq_constantAt_iff (cs : List Char) : markedAt cs = constantAt cs ↔
    (∀ i, constantAt cs i = true → constantAt cs (i + 2) = false) ∧
      ∀ i, loneAt cs i = true → constantAt cs i = true ∨ constantAt cs (i - 2) = true := by
  constructor
  · intro he
    constructor
    · intro i hi
      rw [← he] at hi ⊢
      rw [markedAt, hi, Bool.not_true, Bool.and_false]
    · intro i hi
      rw [← he]
      match i, hi with
      | 1, hi => exact .inl hi
      | i + 2, hi =>
        cases hm : markedAt cs i with
        | true => exact .inr hm
        | false => exact .inl (by rw [markedAt, hi, hm]; rfl)
  · rintro ⟨hapart, halone⟩
    funext i
    induction i using Nat.twoStepInduction with
    | zero => rfl
    | one =>
      rw [Bool.eq_iff_iff]
      refine ⟨fun hi => ?_, loneAt_of_constantAt⟩
      obtain hi | hi := halone 1 hi
      · exact hi
      · cases hi
    | more i ih _ =>
      rw [markedAt, ih, Bool.eq_iff_iff, Bool.and_eq_true]
      constructor
      · rintro ⟨hlone, hbefore⟩
        obtain hi | hi := halone (i + 2) hlone
        · exact hi
        · rw [Nat.add_sub_cancel] at hi
          rw [hi] at hbefore
          cases hbefore
      · intro hi
        refine ⟨loneAt_of_constantAt hi, ?_⟩
        cases hbefore : constantAt cs i with
        | false => rfl
        | true =>
          rw [hapart i hbefore] at hi
          cases hi

theorem operands_ofRaw {set : InstructionSet} (hset : set ≠ .arm) (r : RawInstruction) :
    (Decoded.ofRaw set r).instruction.operands.toList = withMarks (markedAt r.operands.toList) r.operands.toList := by
  change (normalize set r.operands).toList = _
  rw [normalize, if_neg hset, String.toList_ofList, markConstants_eq_withMarks]

/-- On an instruction set other than ARM the mnemonic is kept and the operands are marked. The marks are those of the
words that are a single digit if no two of these have one character between them, and no digit begins a longer word
unless it is passed over. -/
theorem ofRaw_marks {set : InstructionSet} (hset : set ≠ .arm) (r : RawInstruction) :
    let cs := r.operands.toList
    let written := (Decoded.ofRaw set r).instruction
    written.mnemonic = r.mnemonic ∧ written.operands.toList = withMarks (markedAt cs) cs ∧
      (written.operands.toList = withMarks (constantAt cs) cs ↔
        (∀ i, constantAt cs i = true → constantAt cs (i + 2) = false) ∧
          ∀ i, loneAt cs i = true → constantAt cs i = true ∨ constantAt cs (i - 2) = true) := by
  intro cs written
  have hwritten : written.operands.toList = withMarks (markedAt cs) cs := operands_ofRaw hset r
  refine ⟨rfl, hwritten, ?_⟩
  rw [hwritten, ← markedAt_eq_constantAt_iff]
  apply withMarks_inj
  · exact fun i hi => placed_loneAt cs i (loneAt_of_markedAt hi)
  · exact fun i hi => placed_loneAt cs i (loneAt_of_constantAt hi)

def vectorAddition : RawInstruction where
  address := 0
  raw := [0x20, 0x84, 0x22, 0x0e]
  mnemonic := "add"
  operands := "v0.8b, v1.8b, v2.8b"

theorem ofRaw_marks_vectorAddition : InstructionSet.aarch64 ≠ .arm ∧
    (Decoded.ofRaw .aarch64 vectorAddition).instruction.mnemonic = "add" ∧
    (Decoded.ofRaw .aarch64 vectorAddition).instruction.operands.toList = "v0.0x8b, v1.0x8b, v2.0x8b".toList := by
  have hset : InstructionSet.aarch64 ≠ .arm := by decide
  obtain ⟨hmnemonic, hoperands, -⟩ := ofRaw_marks hset vectorAddition
  exact ⟨hset, hmnemonic, hoperands.trans (by decide)⟩

/-- An arrangement behind a register's name is marked, though it is no constant. -/
theorem marks_arrangement : ¬∀ (set : InstructionSet) (r : RawInstruction), set ≠ .arm →
    (Decoded.ofRaw set r).instruction.mnemonic = r.mnemonic ∧
    (Decoded.ofRaw set r).instruction.operands.toList =
      withMarks (constantAt r.operands.toList) r.operands.toList := by
  intro h
  have hset : InstructionSet.aarch64 ≠ .arm := by decide
  have hmarks := (h .aarch64 vectorAddition hset).2
  rw [operands_ofRaw hset] at hmarks
  exact absurd hmarks (by decide)

end AssemblyConsole.Operands
