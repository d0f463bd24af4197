/-!
Hexadecimal numerals, in lower case.
-/

namespace AssemblyConsole.Text

/-- The digits of a number, without leading zeros. -/
def hexDigits (n : Nat) : List Char := Nat.toDigits 16 n

/-- The digits of a number, with zeros in front up to the given width. -/
def hexPadded (width n : Nat) : List Char :=
  let ds := hexDigits n
  List.replicate (width - ds.length) '0' ++ ds

def hexSigned (i : Int) : String :=
  String.ofList ((if i < 0 then ['-'] else []) ++ hexDigits i.natAbs)

def hexMarked (i : Int) : String :=
  String.ofList ((if i < 0 then ['-'] else []) ++ '0' :: 'x' :: hexDigits i.natAbs)

/-- As `hexMarked`, with zeros behind the mark until the text is ten characters long. -/
def hexColumn (i : Int) : String :=
  String.ofList <|
    if i < 0 then '-' :: '0' :: 'x' :: hexPadded 7 i.natAbs
    else '0' :: 'x' :: hexPadded 8 i.natAbs

def hexBytes (bs : List UInt8) : String := String.ofList (bs.flatMap fun b => hexPadded 2 b.toNat)

theorem hexPadded_byte (b : UInt8) :
    hexPadded 2 b.toNat = [Nat.digitChar (b.toNat / 16), Nat.digitChar (b.toNat % 16)] := by
  have hb := b.toNat_lt
  rw [hexPadded, hexDigits]
  by_cases hlow : b.toNat < 16
  · rw [Nat.toDigits_of_lt_base hlow, Nat.div_eq_of_lt hlow, Nat.mod_eq_of_lt hlow]
    rfl
  · have hhigh : b.toNat / 16 < 16 := by omega
    rw [Nat.toDigits_of_base_le (by omega) (by omega), Nat.toDigits_of_lt_base hhigh]
    rfl

end AssemblyConsole.Text
