/-!
Sets of code points, written as the ascending list of the places where membership changes.
-/

namespace AssemblyConsole.Text

/-- Membership in the set whose ranges begin and end, in turn, at the given bounds; a range's end is the
first code point behind it. -/
def within : List Nat → Nat → Bool
  | [], _ => false
  | b :: bs, c => if c < b then false else !within bs c

theorem within_of_lt {b c : Nat} (bs : List Nat) (h : c < b) : within (b :: bs) c = false := by
  simp [within, h]

theorem within_of_le {b c : Nat} (bs : List Nat) (h : b ≤ c) : within (b :: bs) c = !within bs c := by
  simp [within, Nat.not_lt.mpr h]

end AssemblyConsole.Text
