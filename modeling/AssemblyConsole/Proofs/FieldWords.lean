import AssemblyConsole.Assembler.Field
import Mathlib.Tactic.IntervalCases

/-!
Numbers in the bytes of a field: in what order they stand, which numbers look alike, and that a sentinel changes
every byte.
-/

namespace AssemblyConsole

def byteAt (j : Nat) (x : Int) : UInt8 := UInt8.ofNat (x / 256 ^ j % 256).toNat

/-- The number modulo `2 ^ (8 * k)` in `k` bytes. -/
def word (order : ByteOrder) (k : Nat) (x : Int) : Bytes :=
  match order with
  | .little => (List.range k).map fun j => byteAt j x
  | .big => ((List.range k).map fun j => byteAt j x).reverse

/-- The byte of a number that stands at a position of its word. -/
def ByteOrder.place (order : ByteOrder) (k i : Nat) : Nat :=
  match order with
  | .little => i
  | .big => k - 1 - i

variable {order : ByteOrder} {k i j : Nat} {x y : Int}

@[simp] theorem length_word (order : ByteOrder) (k : Nat) (x : Int) : (word order k x).length = k := by
  cases order <;> simp [word]

theorem getElem?_word (h : i < k) (x : Int) : (word order k x)[i]? = some (byteAt (order.place k i) x) := by
  cases order <;> simp [word, ByteOrder.place, h]

theorem place_lt (h : i < k) : order.place k i < k := by
  cases order <;> simp only [ByteOrder.place] <;> omega

theorem place_place (h : i < k) : order.place k (order.place k i) = i := by
  cases order with
  | little => rfl
  | big =>
    simp only [ByteOrder.place]
    omega

theorem byteAt_eq_iff (j : Nat) (x y : Int) : byteAt j x = byteAt j y ↔ x / 256 ^ j % 256 = y / 256 ^ j % 256 := by
  constructor
  · intro h
    have h := congrArg UInt8.toNat h
    simp only [byteAt, UInt8.toNat_ofNat'] at h
    omega
  · intro h
    rw [byteAt, byteAt, h]

/-- A resolver's values are words of 64 bits, which no field can tell from the number. -/
theorem word_congr (hk : k ≤ 8) (h : x % 2 ^ 64 = y % 2 ^ 64) : word order k x = word order k y := by
  have hbyte : ∀ j < 8, byteAt j x = byteAt j y := by
    intro j hj
    rw [byteAt_eq_iff]
    interval_cases j <;> omega
  have hmap : (List.range k).map (fun j => byteAt j x) = (List.range k).map fun j => byteAt j y := by
    apply List.map_congr_left
    intro j hj
    exact hbyte j (by have := List.mem_range.mp hj; omega)
  simp only [word, hmap]

/-- Numbers that are near each other and look alike in a field are the same. -/
theorem eq_of_word_eq (hk : 0 < k) (h : word order k x = word order k y) (hnear : -256 < x - y ∧ x - y < 256) :
    x = y := by
  have hlow := congrArg (·[order.place k 0]?) h
  simp only [getElem?_word (place_lt hk), place_place hk, Option.some.injEq, byteAt_eq_iff] at hlow
  omega

section Sentinels

variable {pair : Int × Int} (hpair : pair ∈ Assembler.sentinels)
include hpair

/-- A sentinel changes every byte of a number up to its own highest. None of its bytes is 0 or 255, so that a carry
from the bytes below does not undo the change. -/
theorem byteAt_sentinel_ne (hj : j < 8) (hreach : 256 ^ j ≤ pair.1) (x : Int) :
    byteAt j (x + pair.1) ≠ byteAt j x := by
  simp only [Assembler.sentinels, List.mem_cons, List.not_mem_nil, or_false] at hpair
  rw [ne_eq, byteAt_eq_iff]
  rcases hpair with rfl | rfl | rfl | rfl <;> interval_cases j <;> omega

/-- Above the highest byte of the sentinels the sign tells, if one of the two brings the number to the other side of
zero. -/
theorem byteAt_sentinels_ne (hj : j < 8) (hreach : 256 ^ j ≤ pair.1 ∨ -pair.1 ≤ x ∧ x < -pair.2) :
    byteAt j (x + pair.1) ≠ byteAt j x ∨ byteAt j (x + pair.2) ≠ byteAt j x := by
  by_cases hlow : 256 ^ j ≤ pair.1
  · exact .inl (byteAt_sentinel_ne hpair hj hlow x)
  have hnear := hreach.resolve_left hlow
  simp only [Assembler.sentinels, List.mem_cons, List.not_mem_nil, or_false] at hpair
  simp only [ne_eq, byteAt_eq_iff]
  by_cases hsign : 0 ≤ x
  · right
    rcases hpair with rfl | rfl | rfl | rfl <;> interval_cases j <;> omega
  · left
    rcases hpair with rfl | rfl | rfl | rfl <;> interval_cases j <;> omega

end Sentinels

/-- The wide sentinel changes every byte of a field. -/
theorem word_sentinel_ne (hi : i < k) (hk : k ≤ 8) (x : Int) :
    (word order k (x + 0x5555555555555550))[i]? ≠ (word order k x)[i]? := by
  rw [getElem?_word hi, getElem?_word hi, ne_eq, Option.some.injEq]
  have hj : order.place k i < 8 := Nat.lt_of_lt_of_le (place_lt hi) hk
  have hwide : (0x5555555555555550, -0x5555555555555560) ∈ Assembler.sentinels := List.mem_cons_self
  apply byteAt_sentinel_ne hwide hj
  generalize order.place k i = j at hj
  interval_cases j <;> norm_num

end AssemblyConsole
