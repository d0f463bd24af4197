import AssemblyConsole.Text.Hexadecimal
import AssemblyConsole.Text.IntegerLiteral
import Mathlib.Data.List.Induction
import Mathlib.Data.List.TakeWhile
import Mathlib.Data.Nat.Digits.Defs

/-!
The grammar of integer literals. Reading accepts exactly the literals and gives each its value, and the hexadecimal and
decimal numerals of a number are literals for it.
-/

namespace AssemblyConsole.Text

/-- The text without what satisfies the test at its ends. -/
def inner (p : Char → Bool) (cs : List Char) : List Char := ((cs.dropWhile p).reverse.dropWhile p).reverse

theorem inner_append {p : Char → Bool} {before cs after : List Char} (hbefore : ∀ c ∈ before, p c = true)
    (hafter : ∀ c ∈ after, p c = true) (hcs : ∀ c ∈ cs, p c = false) : inner p (before ++ cs ++ after) = cs := by
  have exactly {front rest : List Char} (hfront : ∀ c ∈ front, p c = true) (hrest : ∀ c ∈ rest.head?, p c = false) :
      (front ++ rest).dropWhile p = rest := by
    rw [List.dropWhile_append_of_pos hfront]
    cases rest with
    | nil => rfl
    | cons c rest => exact List.dropWhile_cons_of_neg (by simp [hrest c rfl])
  have hlast : ∀ c ∈ cs.reverse.head?, p c = false := fun c hc => hcs c (List.mem_reverse.mp (List.mem_of_mem_head? hc))
  cases cs with
  | nil =>
    have hall : ∀ c ∈ before ++ [] ++ after, p c = true := by
      simpa [or_imp, forall_and] using And.intro hbefore hafter
    rw [inner, List.dropWhile_eq_nil_iff.mpr hall]
    rfl
  | cons c cs =>
    rw [inner, List.append_assoc, exactly hbefore (by simpa using hcs c List.mem_cons_self), List.reverse_append,
      exactly (by simpa using hafter) hlast, List.reverse_reverse]

theorem exists_inner (p : Char → Bool) (cs : List Char) : ∃ before after, cs = before ++ inner p cs ++ after ∧
    (∀ c ∈ before, p c = true) ∧ ∀ c ∈ after, p c = true := by
  have rest := List.takeWhile_append_dropWhile (p := p) (l := (cs.dropWhile p).reverse)
  refine ⟨cs.takeWhile p, ((cs.dropWhile p).reverse.takeWhile p).reverse, ?_, ?_, ?_⟩
  · rw [List.append_assoc, inner, ← List.reverse_append, rest, List.reverse_reverse, List.takeWhile_append_dropWhile]
  · exact fun c => List.mem_takeWhile_imp
  · intro c hc
    exact List.mem_takeWhile_imp (List.mem_reverse.mp hc)

namespace IntegerLiteral

/-- A decimal digit of any script, or behind nine a letter of either case. -/
def IsDigit (base : Nat) (c : Char) (d : Nat) : Prop :=
  d < base ∧ (decimalDigit? c = some d ∨
    10 ≤ d ∧ d < 36 ∧ (c.toNat = 'a'.toNat + (d - 10) ∨ c.toNat = 'A'.toNat + (d - 10)))

/-- Digits between any two of which there may be a low line. -/
inductive Numeral (base : Nat) : List Char → List Nat → Prop
  | digit {c d} (h : IsDigit base c d) : Numeral base [c] [d]
  | next {c d cs ds} (h : IsDigit base c d) (hrest : Numeral base cs ds) : Numeral base (c :: cs) (d :: ds)
  | low {c d cs ds} (h : IsDigit base c d) (hrest : Numeral base cs ds) : Numeral base (c :: '_' :: cs) (d :: ds)

/-- The letters that mark a base. -/
def marks : List (Char × Nat) := [('x', 16), ('X', 16), ('o', 8), ('O', 8), ('b', 2), ('B', 2)]

/-- A decimal numeral that begins with zero is zero, and there is a limit to its digits; others have the mark of their
base behind a zero. -/
inductive Unsigned : List Char → Nat → Prop
  | decimal {cs ds} (h : Numeral 10 cs ds) (hshort : ds.length ≤ longestDecimal)
      (hzero : ds.head? = some 0 → Nat.ofDigits 10 ds.reverse = 0) : Unsigned cs (Nat.ofDigits 10 ds.reverse)
  | marked {z b base cs ds} (hz : IsDigit 10 z 0) (hb : (b, base) ∈ marks) (h : Numeral base cs ds) :
      Unsigned (z :: b :: cs) (Nat.ofDigits base ds.reverse)
  | markedLow {z b base cs ds} (hz : IsDigit 10 z 0) (hb : (b, base) ∈ marks) (h : Numeral base cs ds) :
      Unsigned (z :: b :: '_' :: cs) (Nat.ofDigits base ds.reverse)

inductive Signed : List Char → Int → Prop
  | bare {cs n} (h : Unsigned cs n) : Signed cs n
  | plus {cs n} (h : Unsigned cs n) : Signed ('+' :: cs) n
  | minus {cs n} (h : Unsigned cs n) : Signed ('-' :: cs) (-n)

/-- The text is a literal for the number, with white space around it. -/
def Denotes (cs : List Char) (i : Int) : Prop := ∃ before literal after, cs = before ++ literal ++ after ∧
  (∀ c ∈ before, isGap c = true) ∧ (∀ c ∈ after, isGap c = true) ∧ Signed literal i

variable {base n : Nat} {c e : Char} {d : Nat} {cs : List Char} {ds : List Nat} {i : Int}

theorem plain_of_lt (h : c.toNat < 0x80) : plain c = c := if_pos h

theorem decimalDigit?_lt_ten (h : decimalDigit? c = some d) : d < 10 := by
  obtain ⟨z, hz, rfl⟩ := Option.map_eq_some_iff.mp h
  have hrange := List.find?_some hz
  rw [Bool.and_eq_true, decide_eq_true_eq, decide_eq_true_eq] at hrange
  omega

theorem decimalDigit?_of_lt (h : c.toNat < 0x80) :
    decimalDigit? c = if 0x30 ≤ c.toNat ∧ c.toNat ≤ 0x39 then some (c.toNat - 0x30) else none := by
  have hlater : decimalZeros.tail.find? (fun z => decide (z ≤ c.toNat) && decide (c.toNat < z + 10)) = none := by
    have hfar : ∀ z ∈ decimalZeros.tail, 0x80 ≤ z := by decide
    rw [List.find?_eq_none]
    intro z hz
    have := hfar z hz
    simp only [Bool.and_eq_true, decide_eq_true_eq, not_and]
    omega
  rw [decimalDigit?, show decimalZeros = 0x30 :: decimalZeros.tail from rfl, List.find?_cons, hlater]
  by_cases hfirst : 0x30 ≤ c.toNat ∧ c.toNat ≤ 0x39
  · have hin : (decide (0x30 ≤ c.toNat) && decide (c.toNat < 0x30 + 10)) = true := by
      rw [Bool.and_eq_true, decide_eq_true_eq, decide_eq_true_eq]
      omega
    rw [if_pos hfirst, hin, Option.map_some]
  · have hout : (decide (0x30 ≤ c.toNat) && decide (c.toNat < 0x30 + 10)) = false := by
      rw [Bool.and_eq_false_iff, decide_eq_false_iff_not, decide_eq_false_iff_not]
      omega
    rw [if_neg hfirst, hout, Option.map_none]

theorem decimalDigit?_of_isBlank (h : isBlank c = true) : decimalDigit? c = none := by
  have hapart : ∀ z ∈ decimalZeros, ∀ k < 10, within blankBounds (z + k) = false := by decide +kernel
  rw [decimalDigit?, Option.map_eq_none_iff, List.find?_eq_none]
  intro z hz hrange
  rw [Bool.and_eq_true, decide_eq_true_eq, decide_eq_true_eq] at hrange
  have hno := hapart z hz (c.toNat - z) (by omega)
  rw [show z + (c.toNat - z) = c.toNat by omega] at hno
  exact absurd h (by simp [isBlank, hno])

theorem digit?_of_lt (h : c.toNat < 0x80) : digit? base c = some d ↔ IsDigit base c d := by
  rw [digit?, Option.filter_eq_some_iff, decide_eq_true_eq, and_comm, IsDigit, decimalDigit?_of_lt h,
    show 'a'.toNat = 0x61 from rfl, show 'A'.toNat = 0x41 from rfl]
  apply and_congr_right
  intro _
  simp only [Bool.and_eq_true, decide_eq_true_eq]
  split_ifs <;> simp only [Option.some.injEq, false_or, false_iff] <;> omega

theorem digit?_of_le (h : 0x80 ≤ c.toNat) : digit? base c = none := by
  rw [digit?, if_neg (by simp; omega), if_neg (by simp; omega), if_neg (by simp; omega)]
  rfl

theorem isDigit_of_le (h : 0x80 ≤ c.toNat) : IsDigit base c d ↔ d < base ∧ decimalDigit? c = some d := by
  rw [IsDigit, or_iff_left]
  rw [show 'a'.toNat = 0x61 from rfl, show 'A'.toNat = 0x41 from rfl]
  omega

/-- A character beyond the first range stands for a space, for a digit or for itself. -/
theorem plain_cases (h : 0x80 ≤ c.toNat) : (isBlank c = true ∧ plain c = ' ') ∨
    (∃ d, decimalDigit? c = some d ∧ plain c = Char.ofNat (0x30 + d)) ∨
    (isBlank c = false ∧ decimalDigit? c = none ∧ plain c = c) := by
  rw [plain, if_neg (by omega)]
  by_cases hb : isBlank c = true
  · exact .inl ⟨hb, if_pos hb⟩
  · rw [if_neg hb]
    cases hd : decimalDigit? c with
    | some d => exact .inr (.inl ⟨d, rfl, rfl⟩)
    | none => exact .inr (.inr ⟨by simpa using hb, rfl, rfl⟩)

theorem toNat_decimal : ∀ d < 10, (Char.ofNat (0x30 + d)).toNat = 0x30 + d := by decide

theorem digit?_plain (base : Nat) (c : Char) (d : Nat) : digit? base (plain c) = some d ↔ IsDigit base c d := by
  by_cases hc : c.toNat < 0x80
  · rw [plain_of_lt hc, digit?_of_lt hc]
  · rw [Nat.not_lt] at hc
    rw [isDigit_of_le hc]
    rcases plain_cases hc with ⟨hb, hp⟩ | ⟨e, he, hp⟩ | ⟨-, hd, hp⟩
    · rw [hp, decimalDigit?_of_isBlank hb]
      simp [digit?]
    · have hlt := decimalDigit?_lt_ten he
      have hn := toNat_decimal e hlt
      rw [hp, he, digit?_of_lt (by omega), IsDigit, decimalDigit?_of_lt (by omega), hn,
        show 'a'.toNat = 0x61 from rfl, show 'A'.toNat = 0x41 from rfl, if_pos (by omega), Nat.add_sub_cancel_left]
      apply and_congr_right
      intro _
      rw [or_iff_left (by omega)]
    · rw [hp, hd, digit?_of_le hc]
      simp

theorem plain_eq_iff (he : e.toNat < 0x80) (hspace : e ≠ ' ') (hdigit : e.isDigit = false) : plain c = e ↔ c = e := by
  by_cases hc : c.toNat < 0x80
  · rw [plain_of_lt hc]
  · rw [Nat.not_lt] at hc
    apply iff_of_false
    · rcases plain_cases hc with ⟨-, hp⟩ | ⟨d, hd, hp⟩ | ⟨-, -, hp⟩
      · exact hp ▸ hspace.symm
      · rw [hp]
        have hdigits : ∀ d < 10, (Char.ofNat (0x30 + d)).isDigit = true := by decide
        rintro rfl
        rw [hdigits d (decimalDigit?_lt_ten hd)] at hdigit
        cases hdigit
      · rw [hp]
        rintro rfl
        omega
    · rintro rfl
      omega

theorem isGap_plain (c : Char) : isGap (plain c) = isGap c := by
  by_cases hc : c.toNat < 0x80
  · rw [plain_of_lt hc]
  · rw [Nat.not_lt] at hc
    rcases plain_cases hc with ⟨hb, hp⟩ | ⟨d, hd, hp⟩ | ⟨-, -, hp⟩
    · have hspace : isGap ' ' = true := by decide
      rw [hp, hspace, isGap, hb, decide_eq_false (show ¬c.toNat ≤ 0x1f by omega), Bool.and_false]
      rfl
    · have hdigits : ∀ d < 10, isGap (Char.ofNat (0x30 + d)) = false := by decide
      have hblank : isBlank c = false := by
        by_contra hb
        rw [decimalDigit?_of_isBlank (by simpa using hb)] at hd
        cases hd
      rw [hp, hdigits d (decimalDigit?_lt_ten hd), isGap, hblank, Bool.false_and]
    · rw [hp]

theorem plain_eq_zero_iff (c : Char) : plain c = '0' ↔ IsDigit 10 c 0 := by
  rw [← digit?_plain, ← Char.toNat_inj, show '0'.toNat = 0x30 from rfl, digit?, Option.filter_eq_some_iff]
  simp only [Bool.and_eq_true, decide_eq_true_eq]
  split_ifs <;> simp only [Option.some.injEq, reduceCtorEq, false_and, iff_false] <;> omega

theorem not_isDigit_low (base d : Nat) : ¬IsDigit base '_' d := by
  rw [← digit?_of_lt (by decide)]
  exact nofun

theorem Numeral.begins (h : Numeral base (c :: cs) ds) : ∃ d, IsDigit base c d := by
  cases h with
  | digit h => exact ⟨_, h⟩
  | next h _ => exact ⟨_, h⟩
  | low h _ => exact ⟨_, h⟩

theorem Numeral.head?_plain (h : Numeral 10 cs ds) : (cs.map plain).head? = some '0' ↔ ds.head? = some 0 := by
  have first {c : Char} {d : Nat} (h : IsDigit 10 c d) : plain c = '0' ↔ d = 0 := by
    rw [plain_eq_zero_iff, ← digit?_plain, (digit?_plain 10 c d).mpr h, Option.some.injEq]
  cases h with
  | digit h => simpa using first h
  | next h _ => simpa using first h
  | low h _ => simpa using first h

theorem numeral_singleton_iff (base : Nat) (c : Char) (ds : List Nat) :
    Numeral base [c] ds ↔ ∃ d, IsDigit base c d ∧ [d] = ds := by
  constructor
  · intro h
    cases h with
    | digit h => exact ⟨_, h, rfl⟩
    | next _ hrest => cases hrest
  · rintro ⟨d, h, rfl⟩
    exact .digit h

theorem numeral_low_iff (base : Nat) (c : Char) (cs : List Char) (ds : List Nat) :
    Numeral base (c :: '_' :: cs) ds ↔ ∃ d, IsDigit base c d ∧ ∃ rest, Numeral base cs rest ∧ d :: rest = ds := by
  constructor
  · intro h
    cases h with
    | next _ hrest =>
      obtain ⟨d, hlow⟩ := hrest.begins
      exact absurd hlow (not_isDigit_low base d)
    | low h hrest => exact ⟨_, h, _, hrest, rfl⟩
  · rintro ⟨d, h, rest, hrest, rfl⟩
    exact .low h hrest

theorem numeral_next_iff (base : Nat) (c : Char) (he : e ≠ '_') (cs : List Char) (ds : List Nat) :
    Numeral base (c :: e :: cs) ds ↔
      ∃ d, IsDigit base c d ∧ ∃ rest, Numeral base (e :: cs) rest ∧ d :: rest = ds := by
  constructor
  · intro h
    cases h with
    | next h hrest => exact ⟨_, h, _, hrest, rfl⟩
    | low _ _ => exact absurd rfl he
  · rintro ⟨d, h, rest, hrest, rfl⟩
    exact .next h hrest

theorem plain_low_iff (c : Char) : plain c = '_' ↔ c = '_' := plain_eq_iff (by decide) (by decide) (by decide)

theorem digits?_eq_some_iff (base : Nat) (cs : List Char) (ds : List Nat) :
    digits? base (cs.map plain) = some ds ↔ Numeral base cs ds := by
  induction cs using List.twoStepInduction generalizing ds with
  | nil => exact iff_of_false nofun nofun
  | singleton c =>
    rw [numeral_singleton_iff, List.map_singleton, digits?, Option.map_eq_some_iff]
    simp only [digit?_plain]
  | cons_cons c e cs ih ihe =>
    rw [List.map_cons, List.map_cons]
    by_cases he : e = '_'
    · rw [he, numeral_low_iff, (plain_low_iff '_').mpr rfl, digits?]
      simp [Option.bind_eq_some_iff, digit?_plain, ih]
    · rw [numeral_next_iff base c he, digits?]
      · simp [Option.bind_eq_some_iff, digit?_plain, ← ihe]
      · nofun
      · rintro rest hrest
        exact he ((plain_low_iff e).mp (List.cons.inj hrest).1)

theorem value_eq (base : Nat) (ds : List Nat) : value base ds = Nat.ofDigits base ds.reverse := by
  rw [value, Nat.ofDigits_eq_foldr, List.foldr_reverse]
  congr 1
  funext n d
  rw [Nat.mul_comm, Nat.add_comm]
  rfl

theorem marked?_eq_some_iff (base : Nat) (cs : List Char) (n : Nat) : marked? base (cs.map plain) = some n ↔
    ∃ ds, (Numeral base cs ds ∨ ∃ rest, cs = '_' :: rest ∧ Numeral base rest ds) ∧ Nat.ofDigits base ds.reverse = n := by
  have found (cs : List Char) : (digits? base (cs.map plain)).map (value base) = some n ↔
      ∃ ds, Numeral base cs ds ∧ Nat.ofDigits base ds.reverse = n := by
    simp only [Option.map_eq_some_iff, digits?_eq_some_iff, value_eq]
  cases cs with
  | nil => simpa [marked?] using found []
  | cons c cs =>
    by_cases hc : c = '_'
    · have hnone (ds : List Nat) : ¬Numeral base ('_' :: cs) ds := by
        intro h
        obtain ⟨d, hlow⟩ := h.begins
        exact not_isDigit_low base d hlow
      rw [hc, List.map_cons, (plain_low_iff '_').mpr rfl, marked?, found]
      simp [hnone]
    · rw [marked?, found]
      · simp [hc]
      · intro rest hrest
        exact hc ((plain_low_iff c).mp (List.cons.inj hrest).1)

theorem decimal?_eq_some_iff (cs : List Char) (n : Nat) : decimal? (cs.map plain) = some n ↔
    ∃ ds, Numeral 10 cs ds ∧ ds.length ≤ longestDecimal ∧
      (ds.head? = some 0 → Nat.ofDigits 10 ds.reverse = 0) ∧ Nat.ofDigits 10 ds.reverse = n := by
  simp only [decimal?, Option.bind_eq_bind, Option.bind_eq_some_iff, digits?_eq_some_iff, value_eq]
  apply exists_congr
  intro ds
  apply and_congr_right
  intro h
  simp only [Bool.or_eq_true, Bool.and_eq_true, decide_eq_true_eq, beq_iff_eq, bne_iff_ne, h.head?_plain]
  split
  · rename_i hbad
    refine iff_of_false nofun ?_
    rintro ⟨hshort, hzero, -⟩
    rcases hbad with hlong | ⟨hhead, hne⟩
    · omega
    · exact hne (hzero hhead)
  · rename_i hgood
    rw [not_or, Nat.not_lt, not_and_not_right] at hgood
    rw [Option.some.injEq, and_iff_right hgood.1, and_iff_right hgood.2]

/-- A letter that marks a base is itself in its plain form, and no other character is one in it. -/
theorem plain_mark_iff {p : Char × Nat} (hp : p ∈ marks) (c : Char) : plain c = p.1 ↔ c = p.1 := by
  have hall : ∀ p ∈ marks, p.1.toNat < 0x80 ∧ p.1 ≠ ' ' ∧ p.1.isDigit = false := by decide
  obtain ⟨hlt, hspace, hdigit⟩ := hall p hp
  exact plain_eq_iff hlt hspace hdigit

theorem unsigned?_mark {b : Char} (hb : (b, base) ∈ marks) (cs : List Char) :
    unsigned? ('0' :: b :: cs) = marked? base cs := by
  simp only [marks, List.mem_cons, Prod.mk.injEq, List.not_mem_nil, or_false] at hb
  rcases hb with ⟨rfl, rfl⟩ | ⟨rfl, rfl⟩ | ⟨rfl, rfl⟩ | ⟨rfl, rfl⟩ | ⟨rfl, rfl⟩ | ⟨rfl, rfl⟩ <;> rfl

theorem unsigned?_no_mark {b : Char} (hb : ∀ base, (b, base) ∉ marks) (cs : List Char) :
    unsigned? ('0' :: b :: cs) = decimal? ('0' :: b :: cs) := by
  have hne : ∀ p ∈ marks, b ≠ p.1 := by
    rintro p hp rfl
    exact hb p.2 hp
  simp only [marks, List.forall_mem_cons] at hne
  simp [unsigned?, hne]

theorem Unsigned.begins (h : Unsigned (c :: cs) n) : ∃ d, IsDigit 10 c d := by
  cases h with
  | decimal h => exact h.begins
  | marked hz => exact ⟨0, hz⟩
  | markedLow hz => exact ⟨0, hz⟩

theorem Numeral.no_mark {z b : Char} (h : Numeral 10 (z :: b :: cs) ds) : (b, base) ∉ marks := by
  intro hb
  have hall : ∀ p ∈ marks, p.1 ≠ '_' ∧ digit? 10 p.1 = none ∧ p.1.toNat < 0x80 := by decide
  obtain ⟨hlow, hdigit, hlt⟩ := hall _ hb
  cases h with
  | next _ hrest =>
    obtain ⟨d, hd⟩ := hrest.begins
    rw [← digit?_of_lt hlt, hdigit] at hd
    cases hd
  | low => exact hlow rfl

/-- A base is marked. -/
def IsMarked (cs : List Char) : Prop :=
  ∃ z b base rest, cs = z :: b :: rest ∧ IsDigit 10 z 0 ∧ (b, base) ∈ marks

theorem unsigned?_of_not_isMarked (h : ¬IsMarked cs) : unsigned? (cs.map plain) = decimal? (cs.map plain) := by
  match cs, h with
  | [], _ => rfl
  | [z], _ =>
    rw [List.map_singleton, unsigned?]
    intro b rest hcs
    simp at hcs
  | z :: b :: rest, h =>
    rw [List.map_cons, List.map_cons]
    by_cases hz : plain z = '0'
    · rw [hz]
      apply unsigned?_no_mark
      intro base hb
      apply h
      refine ⟨z, b, base, rest, rfl, (plain_eq_zero_iff z).mp hz, ?_⟩
      rwa [(plain_mark_iff hb b).mp rfl]
    · rw [unsigned?]
      rintro e more hcs
      exact hz (List.cons.inj hcs).1

theorem unsigned?_eq_some_iff (cs : List Char) (n : Nat) : unsigned? (cs.map plain) = some n ↔ Unsigned cs n := by
  by_cases hcs : IsMarked cs
  · obtain ⟨z, b, base, rest, rfl, hz, hb⟩ := hcs
    rw [List.map_cons, List.map_cons, (plain_eq_zero_iff z).mpr hz, (plain_mark_iff hb b).mpr rfl, unsigned?_mark hb,
      marked?_eq_some_iff]
    constructor
    · rintro ⟨ds, h | ⟨more, rfl, h⟩, rfl⟩
      · exact .marked hz hb h
      · exact .markedLow hz hb h
    · have hone : ∀ p ∈ marks, ∀ q ∈ marks, p.1 = q.1 → p.2 = q.2 := by decide
      intro h
      cases h with
      | decimal h _ _ => exact absurd hb h.no_mark
      | marked _ hb' h =>
        obtain rfl := hone _ hb _ hb' rfl
        exact ⟨_, .inl h, rfl⟩
      | markedLow _ hb' h =>
        obtain rfl := hone _ hb _ hb' rfl
        exact ⟨_, .inr ⟨_, rfl, h⟩, rfl⟩
  · rw [unsigned?_of_not_isMarked hcs, decimal?_eq_some_iff]
    constructor
    · rintro ⟨ds, h, hshort, hzero, rfl⟩
      exact .decimal h hshort hzero
    · intro h
      cases h with
      | decimal h hshort hzero => exact ⟨_, h, hshort, hzero, rfl⟩
      | marked hz hb _ => exact absurd ⟨_, _, _, _, rfl, hz, hb⟩ hcs
      | markedLow hz hb _ => exact absurd ⟨_, _, _, _, rfl, hz, hb⟩ hcs

theorem not_unsigned_nil (n : Nat) : ¬Unsigned [] n := by
  intro h
  cases h with
  | decimal h => cases h

theorem signed_bare_iff (hminus : c ≠ '-') (hplus : c ≠ '+') (cs : List Char) (i : Int) :
    Signed (c :: cs) i ↔ ∃ n, Unsigned (c :: cs) n ∧ (n : Int) = i := by
  constructor
  · intro h
    cases h with
    | bare h => exact ⟨_, h, rfl⟩
    | plus _ => exact absurd rfl hplus
    | minus _ => exact absurd rfl hminus
  · rintro ⟨n, h, rfl⟩
    exact .bare h

theorem not_unsigned_sign (hc : c = '-' ∨ c = '+') (cs : List Char) (n : Nat) : ¬Unsigned (c :: cs) n := by
  intro h
  obtain ⟨d, hd⟩ := h.begins
  rcases hc with rfl | rfl <;>
  · rw [← digit?_of_lt (by decide)] at hd
    cases hd

theorem signed_minus_iff (cs : List Char) (i : Int) : Signed ('-' :: cs) i ↔ ∃ n, Unsigned cs n ∧ -(n : Int) = i := by
  constructor
  · intro h
    cases h with
    | bare h => exact absurd h (not_unsigned_sign (.inl rfl) cs _)
    | minus h => exact ⟨_, h, rfl⟩
  · rintro ⟨n, h, rfl⟩
    exact .minus h

theorem signed_plus_iff (cs : List Char) (i : Int) : Signed ('+' :: cs) i ↔ ∃ n, Unsigned cs n ∧ (n : Int) = i := by
  constructor
  · intro h
    cases h with
    | bare h => exact absurd h (not_unsigned_sign (.inr rfl) cs _)
    | plus h => exact ⟨_, h, rfl⟩
  · rintro ⟨n, h, rfl⟩
    exact .plus h

theorem signed?_eq_some_iff (cs : List Char) (i : Int) : signed? (cs.map plain) = some i ↔ Signed cs i := by
  have plain_minus (c : Char) : plain c = '-' ↔ c = '-' := plain_eq_iff (by decide) (by decide) (by decide)
  have plain_plus (c : Char) : plain c = '+' ↔ c = '+' := plain_eq_iff (by decide) (by decide) (by decide)
  cases cs with
  | nil =>
    apply iff_of_false
    · nofun
    · intro h
      cases h with
      | bare h => exact not_unsigned_nil _ h
  | cons c cs =>
    by_cases hminus : c = '-'
    · rw [hminus, signed_minus_iff, List.map_cons, (plain_minus '-').mpr rfl, signed?]
      simp [Option.bind_eq_some_iff, unsigned?_eq_some_iff]
    · by_cases hplus : c = '+'
      · rw [hplus, signed_plus_iff, List.map_cons, (plain_plus '+').mpr rfl, signed?]
        simp [Option.bind_eq_some_iff, unsigned?_eq_some_iff]
      · rw [signed_bare_iff hminus hplus, signed?]
        · simp only [← unsigned?_eq_some_iff]
          simp [Option.bind_eq_some_iff]
        · intro rest hrest
          exact hminus ((plain_minus c).mp (List.cons.inj hrest).1)
        · intro rest hrest
          exact hplus ((plain_plus c).mp (List.cons.inj hrest).1)

theorem isBlank_of_visible (hlow : 0x21 ≤ c.toNat) (hhigh : c.toNat < 0x80) : isBlank c = false := by
  rw [isBlank, blankBounds, within_of_le _ (by omega), within_of_le _ (by omega), within_of_le _ (by omega),
    within_of_le _ (by omega), within_of_lt _ (by omega)]
  rfl

theorem isBlank_of_isDigit (h : IsDigit base c d) : isBlank c = false := by
  rcases h.2 with hd | ⟨-, hlast, hc⟩
  · by_contra hb
    rw [decimalDigit?_of_isBlank (by simpa using hb)] at hd
    cases hd
  · rw [show 'a'.toNat = 0x61 from rfl, show 'A'.toNat = 0x41 from rfl] at hc
    apply isBlank_of_visible <;> omega

/-- A character that literals without a sign are made of: a low line, or a digit of the largest base. -/
def IsPart (c : Char) : Prop := c = '_' ∨ ∃ d, IsDigit 36 c d

theorem isPart_of_isDigit (h : IsDigit base c d) : IsPart c := by
  refine .inr ⟨d, ?_, h.2⟩
  rcases h.2 with hd | ⟨-, hlast, -⟩
  · have := decimalDigit?_lt_ten hd
    omega
  · exact hlast

theorem isPart_of_mark {p : Char × Nat} (hp : p ∈ marks) : IsPart p.1 := by
  have hall : ∀ p ∈ marks, p.1.toNat < 0x80 ∧ ∃ d < 36, digit? 36 p.1 = some d := by decide
  obtain ⟨hlt, d, -, hd⟩ := hall p hp
  exact .inr ⟨d, (digit?_of_lt hlt).mp hd⟩

theorem isBlank_of_isPart (h : IsPart c) : isBlank c = false := by
  rcases h with rfl | ⟨d, hd⟩
  · decide
  · exact isBlank_of_isDigit hd

theorem Numeral.parts (h : Numeral base cs ds) : ∀ c ∈ cs, IsPart c := by
  induction h with
  | digit h => simpa using isPart_of_isDigit h
  | next h _ ih => exact List.forall_mem_cons.mpr ⟨isPart_of_isDigit h, ih⟩
  | low h _ ih => exact List.forall_mem_cons.mpr ⟨isPart_of_isDigit h, List.forall_mem_cons.mpr ⟨.inl rfl, ih⟩⟩

theorem Unsigned.parts (h : Unsigned cs n) : ∀ c ∈ cs, IsPart c := by
  cases h with
  | decimal h => exact h.parts
  | marked hz hb h =>
    simp only [List.forall_mem_cons]
    exact ⟨isPart_of_isDigit hz, isPart_of_mark hb, h.parts⟩
  | markedLow hz hb h =>
    simp only [List.forall_mem_cons]
    exact ⟨isPart_of_isDigit hz, isPart_of_mark hb, .inl rfl, h.parts⟩

theorem Signed.no_blank (h : Signed cs i) : ∀ c ∈ cs, isBlank c = false := by
  have unsigned {cs : List Char} {n : Nat} (h : Unsigned cs n) : ∀ c ∈ cs, isBlank c = false :=
    fun c hc => isBlank_of_isPart (h.parts c hc)
  cases h with
  | bare h => exact unsigned h
  | plus h => exact List.forall_mem_cons.mpr ⟨by decide, unsigned h⟩
  | minus h => exact List.forall_mem_cons.mpr ⟨by decide, unsigned h⟩

theorem read?_eq (cs : List Char) : read? cs = signed? ((inner isGap cs).map plain) := by
  have hgap : isGap ∘ plain = isGap := funext isGap_plain
  rw [read?, inner, List.dropWhile_map, hgap, ← List.map_reverse, List.dropWhile_map, hgap, List.map_reverse]

theorem read?_eq_some_iff (cs : List Char) (i : Int) : read? cs = some i ↔ Denotes cs i := by
  rw [read?_eq, signed?_eq_some_iff]
  constructor
  · intro h
    obtain ⟨before, after, hcs, hbefore, hafter⟩ := exists_inner isGap cs
    exact ⟨before, _, after, hcs, hbefore, hafter, h⟩
  · rintro ⟨before, literal, after, rfl, hbefore, hafter, h⟩
    have hgaps : ∀ c ∈ literal, isGap c = false := by
      intro c hc
      rw [isGap, h.no_blank c hc, Bool.false_and]
    rwa [inner_append hbefore hafter hgaps]

theorem isDigit_digitChar (hbase : base ≤ 16) (h : d < base) : IsDigit base (Nat.digitChar d) d := by
  have hall : ∀ d < 16, (Nat.digitChar d).toNat < 0x80 ∧ digit? 16 (Nat.digitChar d) = some d := by decide
  obtain ⟨hlt, hdigit⟩ := hall d (by omega)
  exact ⟨h, ((digit?_of_lt hlt).mp hdigit).2⟩

theorem Numeral.concat (h : Numeral base cs ds) (hc : IsDigit base c d) : Numeral base (cs ++ [c]) (ds ++ [d]) := by
  induction h with
  | digit h => exact .next h (.digit hc)
  | next h _ ih => exact .next h ih
  | low h _ ih => exact .low h ih

theorem numeral_toDigits (hone : 1 < base) (hbase : base ≤ 16) (n : Nat) : ∃ ds, Numeral base (Nat.toDigits base n) ds ∧
    Nat.ofDigits base ds.reverse = n ∧ ds.length = (Nat.toDigits base n).length ∧ (ds.head? = some 0 → n = 0) := by
  induction n using Nat.strong_induction_on with
  | _ n ih =>
    rw [Nat.toDigits_eq_if hone]
    split
    · rename_i hlt
      exact ⟨[n], .digit (isDigit_digitChar hbase hlt), by simp, rfl, by simp⟩
    · rename_i hge
      obtain ⟨ds, h, hvalue, hlength, hzero⟩ := ih (n / base) (Nat.div_lt_self (by omega) hone)
      have hlast := Nat.mod_lt n (by omega : base > 0)
      refine ⟨ds ++ [n % base], h.concat (isDigit_digitChar hbase hlast), ?_, by simp [hlength], ?_⟩
      · rw [List.reverse_concat, Nat.ofDigits_cons, hvalue, Nat.mod_add_div]
      · intro hhead
        cases ds with
        | nil => exact absurd (List.length_eq_zero_iff.mp hlength.symm) Nat.toDigits_ne_nil
        | cons e ds =>
          have hquotient := hzero (by simpa using hhead)
          have hsmall := (Nat.div_eq_zero_iff_lt (by omega)).mp hquotient
          omega

theorem unsigned_hexDigits (n : Nat) : Unsigned ('0' :: 'x' :: hexDigits n) n := by
  obtain ⟨ds, h, hvalue, -, -⟩ := numeral_toDigits (by decide) (Nat.le_refl 16) n
  have hzero : IsDigit 10 '0' 0 := isDigit_digitChar (by decide) (by decide)
  have hunsigned := Unsigned.marked hzero (show ('x', 16) ∈ marks by decide) h
  rwa [hvalue] at hunsigned

theorem unsigned_toDigits {n : Nat} (hshort : (Nat.toDigits 10 n).length ≤ longestDecimal) :
    Unsigned (Nat.toDigits 10 n) n := by
  obtain ⟨ds, h, hvalue, hlength, hzero⟩ := numeral_toDigits (show 1 < 10 by decide) (by decide) n
  rw [← hlength] at hshort
  rw [← hvalue] at hzero
  have hunsigned := Unsigned.decimal h hshort hzero
  rwa [hvalue] at hunsigned

theorem Unsigned.denotes (h : Unsigned cs n) : Denotes cs n :=
  ⟨[], cs, [], by simp, by simp, by simp, .bare h⟩

end IntegerLiteral

end AssemblyConsole.Text
