import AssemblyConsole.Assembler.Register
import AssemblyConsole.Proofs.WordRuns

/-!
Taking the letters off registers rewrites a text word by word: a word that is the name of a register becomes its
number, and any other word stays.
-/

namespace AssemblyConsole.Register

open Text

/-- The word is a letter of the registers and the decimal numeral of a number up to 31. -/
def NamesRegister (w : List Char) : Prop := ∃ l ∈ ['r', 'f', 'v'], ∃ n ∈ List.range 32, w = l :: Nat.toDigits 10 n

instance : DecidablePred NamesRegister := fun w =>
  List.decidableBEx (fun l => ∃ n ∈ List.range 32, w = l :: Nat.toDigits 10 n) ['r', 'f', 'v']

def withoutLetter (w : List Char) : List Char := if NamesRegister w then w.tail else w

variable {w cs n rest : List Char} {c d e : Char}

theorem isWordCharacter_of_isLetter (h : isLetter c = true) : isWordCharacter c = true := by
  have hcases : (c = 'r' ∨ c = 'f') ∨ c = 'v' := by simpa [isLetter] using h
  rcases hcases with (rfl | rfl) | rfl <;> decide

theorem endsWord_iff (cs : List Char) : endsWord cs = true ↔ BeginsApart cs := by
  cases cs with
  | nil => simp [endsWord, beginsApart_nil]
  | cons c cs => simp [endsWord, beginsApart_cons]

/-- What is left of a register's name when its letter is taken off. -/
def isNumber : List Char → Bool
  | [d] => d.isDigit
  | [d, e] => d.isDigit && e.isDigit && (d = '1' || d = '2' || (d = '3' && (e = '0' || e = '1')))
  | _ => false

theorem exists_digitChar (h : d.isDigit = true) : ∃ k < 10, d = Nat.digitChar k := by
  obtain ⟨hlow, hhigh⟩ : 48 ≤ d.toNat ∧ d.toNat ≤ 57 := Char.isDigit_iff_toNat.mp h
  refine ⟨d.toNat - 48, by omega, ?_⟩
  apply Char.toNat_inj.mp
  rw [Nat.toNat_digitChar_of_lt_ten (by omega)]
  omega

theorem isNumber_iff (n : List Char) : isNumber n = true ↔ ∃ k ∈ List.range 32, n = Nat.toDigits 10 k := by
  constructor
  · intro h
    match n, h with
    | [d], h =>
      obtain ⟨k, hk, rfl⟩ := exists_digitChar h
      have hone : ∀ k < 10, [Nat.digitChar k] = Nat.toDigits 10 k := by decide
      exact ⟨k, List.mem_range.mpr (by omega), hone k hk⟩
    | [d, e], h =>
      simp only [isNumber, Bool.and_eq_true, Bool.or_eq_true, decide_eq_true_eq] at h
      obtain ⟨⟨-, he⟩, htens⟩ := h
      obtain ⟨k, hk, rfl⟩ := exists_digitChar he
      have htwo : ∀ k < 10, ['1', Nat.digitChar k] = Nat.toDigits 10 (10 + k) ∧
        ['2', Nat.digitChar k] = Nat.toDigits 10 (20 + k) := by decide
      rcases htens with (rfl | rfl) | ⟨rfl, he | he⟩
      · exact ⟨10 + k, List.mem_range.mpr (by omega), (htwo k hk).1⟩
      · exact ⟨20 + k, List.mem_range.mpr (by omega), (htwo k hk).2⟩
      · exact ⟨30, by decide, by rw [he]; rfl⟩
      · exact ⟨31, by decide, by rw [he]; rfl⟩
  · rintro ⟨k, hk, rfl⟩
    have hall : ∀ k ∈ List.range 32, isNumber (Nat.toDigits 10 k) = true := by decide
    exact hall k hk

theorem number?_eq_some_iff :
    number? cs = some (n, rest) ↔ cs = n ++ rest ∧ isNumber n = true ∧ BeginsApart rest := by
  constructor
  · intro h
    unfold number? at h
    split at h
    · rename_i d e cs
      split at h
      · rename_i hd
        split at h
        · rename_i he
          split at h
          · rename_i hends
            obtain ⟨rfl, rfl⟩ := Prod.mk.inj (Option.some.inj h)
            rw [Bool.and_eq_true, endsWord_iff] at hends
            exact ⟨rfl, by simpa [isNumber, hd, he] using hends.1, hends.2⟩
          · cases h
        · split at h
          · rename_i hends
            obtain ⟨rfl, rfl⟩ := Prod.mk.inj (Option.some.inj h)
            exact ⟨rfl, hd, (endsWord_iff _).mp hends⟩
          · cases h
      · cases h
    · split at h
      · rename_i hd
        obtain ⟨rfl, rfl⟩ := Prod.mk.inj (Option.some.inj h)
        exact ⟨rfl, hd, beginsApart_nil⟩
      · cases h
    · cases h
  · rintro ⟨rfl, hn, hrest⟩
    have hends := (endsWord_iff rest).mpr hrest
    match n, hn with
    | [d], hd =>
      have hd : d.isDigit = true := hd
      cases rest with
      | nil => simp [number?, hd]
      | cons e rest =>
        have he : ¬e.isDigit = true := by
          intro he
          have hword := (beginsApart_cons rest).mp hrest
          rw [isWordCharacter_of_isDigit he] at hword
          cases hword
        simp [number?, hd, he, hends]
    | [d, e], hn =>
      simp only [isNumber, Bool.and_eq_true] at hn
      obtain ⟨⟨hd, he⟩, htens⟩ := hn
      simp only [List.cons_append, List.nil_append, number?, hd, he, if_true, htens, hends, Bool.and_self]

theorem namesRegister_cons (c : Char) (w : List Char) :
    NamesRegister (c :: w) ↔ isLetter c = true ∧ isNumber w = true := by
  rw [isNumber_iff]
  simp only [NamesRegister, List.cons.injEq, isLetter]
  constructor
  · rintro ⟨l, hl, k, hk, rfl, rfl⟩
    exact ⟨by simpa [or_assoc] using hl, k, hk, rfl⟩
  · rintro ⟨hc, k, hk, rfl⟩
    exact ⟨c, by simpa [or_assoc] using hc, k, hk, rfl, rfl⟩

theorem isWordCharacter_of_mem_number (hn : isNumber n = true) : ∀ d ∈ n, isWordCharacter d = true := by
  obtain ⟨k, -, rfl⟩ := (isNumber_iff n).mp hn
  intro d hd
  exact isWordCharacter_of_isDigit (Nat.isDigit_of_mem_toDigits (by decide) (by decide) hd)

theorem stripFrom_between (hc : isWordCharacter c = false) (inWord : Bool) (cs : List Char) :
    stripFrom inWord (c :: cs) = c :: stripFrom false cs := by
  have hletter : ¬isLetter c = true := by
    intro hl
    rw [isWordCharacter_of_isLetter hl] at hc
    cases hc
  rw [stripFrom]
  split
  · rename_i h
    simp [hletter] at h
  · rw [hc]

theorem stripFrom_beginsApart (hcs : BeginsApart cs) (inWord : Bool) : stripFrom inWord cs = stripFrom false cs := by
  cases cs with
  | nil => rw [stripFrom, stripFrom]
  | cons c cs =>
    have hc := (beginsApart_cons cs).mp hcs
    rw [stripFrom_between hc, stripFrom_between hc]

theorem stripFrom_inside (hw : ∀ c ∈ w, isWordCharacter c = true) (rest : List Char) :
    stripFrom true (w ++ rest) = w ++ stripFrom true rest := by
  induction w with
  | nil => rfl
  | cons c w ih =>
    obtain ⟨hc, hw⟩ := List.forall_mem_cons.mp hw
    rw [List.cons_append, stripFrom]
    split
    · rename_i h
      simp at h
    · rw [hc, ih hw, List.cons_append]

/-- A number behind the first character of a word goes to the end of the word. -/
theorem number?_word (hw : ∀ c ∈ w, isWordCharacter c = true) (hrest : BeginsApart rest) :
    number? (w ++ rest) = if isNumber w then some (w, rest) else none := by
  split
  · rename_i hn
    exact number?_eq_some_iff.mpr ⟨rfl, hn, hrest⟩
  · rename_i hn
    rw [Option.eq_none_iff_forall_ne_some]
    rintro ⟨m, r⟩ hm
    obtain ⟨heq, hm, hr⟩ := number?_eq_some_iff.mp hm
    rw [eq_of_append_eq hw (isWordCharacter_of_mem_number hm) hrest hr heq] at hn
    exact hn hm

theorem stripFrom_word (hw : IsWord w) (hrest : BeginsApart rest) :
    stripFrom false (w ++ rest) = withoutLetter w ++ stripFrom false rest := by
  obtain ⟨hne, hw⟩ := hw
  obtain ⟨c, w, rfl⟩ := List.exists_cons_of_ne_nil hne
  obtain ⟨hc, hw⟩ := List.forall_mem_cons.mp hw
  have hfound : (if !false && isLetter c then number? (w ++ rest) else none) =
      if NamesRegister (c :: w) then some (w, rest) else none := by
    simp only [number?_word hw hrest, namesRegister_cons]
    split <;> simp_all
  rw [List.cons_append, stripFrom, withoutLetter, ← stripFrom_beginsApart hrest true]
  split
  · rename_i h
    rw [hfound] at h
    split at h
    · rename_i hnames
      obtain ⟨rfl, rfl⟩ := Prod.mk.inj (Option.some.inj h)
      rw [if_pos hnames, List.tail_cons]
    · cases h
  · rename_i h
    rw [hfound] at h
    split at h
    · cases h
    · rename_i hnames
      rw [if_neg hnames, hc, stripFrom_inside hw, List.cons_append]

theorem stripFrom_eq_mapWords (cs : List Char) : stripFrom false cs = mapWords withoutLetter cs := by
  induction cs using words_induction with
  | nil => rw [stripFrom, mapWords_nil]
  | between c cs hc ih => rw [stripFrom_between hc, mapWords_between hc, ih]
  | word w rest hw hrest ih => rw [stripFrom_word hw hrest, mapWords_word hw hrest, ih]

theorem isWord_withoutLetter (hw : IsWord w) : IsWord (withoutLetter w) := by
  rw [withoutLetter]
  split
  · rename_i hnames
    obtain ⟨l, -, k, -, rfl⟩ := hnames
    exact ⟨Nat.toDigits_ne_nil, fun c hc => hw.2 c (List.mem_cons_of_mem _ hc)⟩
  · exact hw

/-- A number is no register's name, since it begins with no letter. -/
theorem withoutLetter_withoutLetter (w : List Char) : withoutLetter (withoutLetter w) = withoutLetter w := by
  by_cases hnames : NamesRegister w
  · obtain ⟨l, hl, k, hk, rfl⟩ := hnames
    have hnumber : ¬NamesRegister (Nat.toDigits 10 k) := by
      rintro ⟨m, hm, n, -, he⟩
      have hmem : m ∈ Nat.toDigits 10 k := by
        rw [he]
        exact List.mem_cons_self
      have hdigit : m.isDigit = true := Nat.isDigit_of_mem_toDigits (by decide) (by decide) hmem
      simp only [List.mem_cons, List.not_mem_nil, or_false] at hm
      rcases hm with rfl | rfl | rfl <;> cases hdigit
    have hrest : withoutLetter (l :: Nat.toDigits 10 k) = Nat.toDigits 10 k := if_pos ⟨l, hl, k, hk, rfl⟩
    rw [hrest, withoutLetter, if_neg hnumber]
  · have hkept : withoutLetter w = w := if_neg hnames
    rw [hkept, hkept]

/-- Each word that names a register becomes its number, and nothing else changes. There is nothing left to take off
then. -/
theorem strip_eq_mapWords (text : String) :
    strip text = String.ofList (mapWords withoutLetter text.toList) ∧ strip (strip text) = strip text := by
  have hstrip (text : String) : strip text = String.ofList (mapWords withoutLetter text.toList) := by
    rw [strip, stripFrom_eq_mapWords]
  refine ⟨hstrip text, ?_⟩
  rw [hstrip (strip text), hstrip text, String.toList_ofList, mapWords_mapWords fun _ => isWord_withoutLetter]
  simp only [withoutLetter_withoutLetter]

example : strip "lwz r31, 8(r01), rf3, f32" = "lwz 31, 8(r01), rf3, f32" := by cbv

end AssemblyConsole.Register
