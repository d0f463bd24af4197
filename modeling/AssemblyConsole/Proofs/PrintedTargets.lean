import AssemblyConsole.Disassembler.BranchTarget
import AssemblyConsole.Proofs.IntegerLiterals
import Mathlib.Data.List.Basic

/-!
Branch targets read from operands. The last operand is read as an integer literal, so that a number printed there in
hexadecimal or in decimal is found again, and what is no literal names no target.
-/

namespace AssemblyConsole

theorem Text.pieces_append {p : Char → Bool} {c : Char} (hc : p c = true) (cs ds : List Char) :
    pieces p (cs ++ c :: ds) = pieces p cs ++ pieces p ds := by
  induction cs with
  | nil => simp [pieces, hc]
  | cons d cs ih =>
    rw [List.cons_append, pieces, pieces, ih]
    split
    · rfl
    · cases hpieces : pieces p cs with
      | nil => exact absurd hpieces (pieces_ne_nil p cs)
      | cons q qs => rfl

theorem Text.pieces_of_none {p : Char → Bool} {cs : List Char} (h : ∀ c ∈ cs, p c = false) : pieces p cs = [cs] := by
  induction cs with
  | nil => rfl
  | cons c cs ih =>
    obtain ⟨hc, hcs⟩ := List.forall_mem_cons.mp h
    simp [pieces, hc, ih hcs]

namespace BranchTarget

open Text Text.IntegerLiteral

/-- What stands before the last operand: nothing, or a text and a comma. -/
def Precedes (before : List Char) : Prop := before = [] ∨ ∃ text, before = text ++ [',']

variable {before last gap sigils literal after : List Char} {n : Nat}

theorem getLast?_pieces (hbefore : Precedes before) (hlast : ',' ∉ last) :
    (pieces (· = ',') (before ++ last)).getLast? = some last := by
  have halone : pieces (· = ',') last = [last] := by
    apply pieces_of_none
    intro c hc
    rw [decide_eq_false_iff_not]
    rintro rfl
    exact hlast hc
  rcases hbefore with rfl | ⟨text, rfl⟩
  · rw [List.nil_append, halone, List.getLast?_singleton]
  · rw [List.append_assoc, List.singleton_append, pieces_append (by decide), halone, List.getLast?_concat]

theorem read?_last (hbefore : Precedes before) (hlast : ',' ∉ last) :
    read? (String.ofList (before ++ last)) = IntegerLiteral.read? ((trim last).dropWhile isSigil) := by
  rw [read?, lastOperand, String.toList_ofList, getLast?_pieces hbefore hlast, Option.getD_some]

theorem ne_of_isPart {c : Char} (h : IsPart c) : c ≠ ',' ∧ isSigil c = false := by
  have hno : ∀ e ∈ [',', '#', '$'], c ≠ e := by
    rintro e he rfl
    have hall : ∀ e ∈ [',', '#', '$'], e ≠ '_' ∧ e.toNat < 0x80 ∧ digit? 36 e = none :=
      List.forall_iff_forall_mem.mp (by decide)
    obtain ⟨hlow, hlt, hnone⟩ := hall c he
    rcases h with h | ⟨d, hd⟩
    · exact hlow h
    · rw [← digit?_of_lt hlt, hnone] at hd
      cases hd
  simp only [List.forall_mem_cons] at hno
  simp [isSigil, hno]

theorem dropWhile_isSigil (hsigils : ∀ c ∈ sigils, c = '#' ∨ c = '$') (hparts : ∀ c ∈ literal, IsPart c) :
    (sigils ++ literal).dropWhile isSigil = literal := by
  have hall : ∀ c ∈ sigils, isSigil c = true := by simpa [isSigil] using hsigils
  rw [List.dropWhile_append_of_pos hall]
  cases literal with
  | nil => rfl
  | cons c literal => exact List.dropWhile_cons_of_neg (by simp [(ne_of_isPart (hparts c List.mem_cons_self)).2])

theorem read?_of_unsigned (hbefore : Precedes before) (hgap : ∀ c ∈ gap, isBlank c = true)
    (hsigils : ∀ c ∈ sigils, c = '#' ∨ c = '$') (hafter : ∀ c ∈ after, isBlank c = true)
    (hliteral : Unsigned literal n) :
    read? (String.ofList (before ++ (gap ++ (sigils ++ literal) ++ after))) = some (n : Int) := by
  have hparts := hliteral.parts
  have hinside : ∀ c ∈ sigils ++ literal, c ≠ ',' ∧ isBlank c = false := by
    intro c hc
    rcases List.mem_append.mp hc with hc | hc
    · rcases hsigils c hc with rfl | rfl <;> decide
    · exact ⟨(ne_of_isPart (hparts c hc)).1, isBlank_of_isPart (hparts c hc)⟩
  have hno_comma : ',' ∉ gap ++ (sigils ++ literal) ++ after := by
    have hblank : ¬isBlank ',' = true := by decide
    rw [List.mem_append, List.mem_append]
    rintro ((hc | hc) | hc)
    · exact hblank (hgap _ hc)
    · exact (hinside _ hc).1 rfl
    · exact hblank (hafter _ hc)
  have htrim : trim (gap ++ (sigils ++ literal) ++ after) = sigils ++ literal :=
    inner_append hgap hafter fun c hc => (hinside c hc).2
  rw [read?_last hbefore hno_comma, htrim, dropWhile_isSigil hsigils hparts, read?_eq_some_iff]
  exact hliteral.denotes

/-- A number printed as the last operand is read back, whatever the operands before it, the white space around it and
the sigils in front of it. A last operand that is no integer literal behind its sigils names no target. -/
theorem read?_printed (hbefore : Precedes before) (hgap : ∀ c ∈ gap, isBlank c = true)
    (hsigils : ∀ c ∈ sigils, c = '#' ∨ c = '$') (hafter : ∀ c ∈ after, isBlank c = true) :
    (∀ n : Nat, read? (String.ofList (before ++ (gap ++ (sigils ++ '0' :: 'x' :: hexDigits n) ++ after))) = some (n : Int)) ∧
    (∀ n : Nat, (Nat.toDigits 10 n).length ≤ 4300 →
      read? (String.ofList (before ++ (gap ++ (sigils ++ Nat.toDigits 10 n) ++ after))) = some (n : Int)) ∧
    ∀ last, ',' ∉ last →
      (∀ i, read? (String.ofList (before ++ last)) = some i ↔ Denotes ((trim last).dropWhile isSigil) i) ∧
      ((¬∃ i, Denotes ((trim last).dropWhile isSigil) i) → read? (String.ofList (before ++ last)) = none) := by
  refine ⟨?_, ?_, ?_⟩
  · intro n
    exact read?_of_unsigned hbefore hgap hsigils hafter (unsigned_hexDigits n)
  · intro n hshort
    exact read?_of_unsigned hbefore hgap hsigils hafter (unsigned_toDigits hshort)
  · intro last hlast
    have hread (i : Int) :
        read? (String.ofList (before ++ last)) = some i ↔ Denotes ((trim last).dropWhile isSigil) i := by
      rw [read?_last hbefore hlast, read?_eq_some_iff]
    refine ⟨hread, ?_⟩
    intro hno
    rw [Option.eq_none_iff_forall_ne_some]
    intro i hi
    exact hno ⟨i, (hread i).mp hi⟩

theorem read?_printed_branchUnequal : Precedes "$a0, $zero,".toList ∧ (∀ c ∈ " \u3000".toList, isBlank c = true) ∧
    (∀ c ∈ "#$".toList, c = '#' ∨ c = '$') ∧ (∀ c ∈ "\t".toList, isBlank c = true) ∧
    read? "$a0, $zero, \u3000#$0x2f\t" = some 47 ∧
    (Nat.toDigits 10 47).length ≤ 4300 ∧ read? "$a0, $zero, \u3000#$47\t" = some 47 ∧
    ',' ∉ " #0x 2f".toList ∧ (¬∃ i, Denotes ((trim " #0x 2f".toList).dropWhile isSigil) i) ∧
    read? "$a0, $zero, #0x 2f" = none := by
  have hbefore : Precedes "$a0, $zero,".toList := .inr ⟨"$a0, $zero".toList, by decide⟩
  have hgap : ∀ c ∈ " \u3000".toList, isBlank c = true := List.forall_iff_forall_mem.mp (by decide)
  have hsigils : ∀ c ∈ "#$".toList, c = '#' ∨ c = '$' := List.forall_iff_forall_mem.mp (by decide)
  have hafter : ∀ c ∈ "\t".toList, isBlank c = true := List.forall_iff_forall_mem.mp (by decide)
  have hshort : (Nat.toDigits 10 47).length ≤ 4300 := by decide
  have hlast : ',' ∉ " #0x 2f".toList := by decide
  have hno : ¬∃ i, Denotes ((trim " #0x 2f".toList).dropWhile isSigil) i := by
    have hnone : IntegerLiteral.read? ((trim " #0x 2f".toList).dropWhile isSigil) = none := by decide
    rintro ⟨i, hi⟩
    rw [← read?_eq_some_iff, hnone] at hi
    cases hi
  obtain ⟨hhex, hdecimal, hliteral⟩ := read?_printed hbefore hgap hsigils hafter
  exact ⟨hbefore, hgap, hsigils, hafter, hhex 47, hshort, hdecimal 47 hshort, hlast, hno, (hliteral _ hlast).2 hno⟩

end BranchTarget

end AssemblyConsole
