import AssemblyConsole.Text.Blank
import AssemblyConsole.Text.DecimalDigit

/-!
Integer literals: a sign, then a decimal numeral without leading zeros, or `0x`, `0o` or `0b` in either case and
a numeral of that base. Single low lines may stand between digits and after the base, decimal digits of every
script count, and white space around the literal does not.
-/

namespace AssemblyConsole.Text

namespace IntegerLiteral

def longestDecimal : Nat := 4300

/-- White space around a literal; unlike elsewhere the information separators are none. -/
def isGap (c : Char) : Bool := isBlank c && !(decide (0x1c ≤ c.toNat) && decide (c.toNat ≤ 0x1f))

/-- A character of a literal in its plain form: digits of other scripts become those of the first range. -/
def plain (c : Char) : Char :=
  if c.toNat < 0x80 then c
  else if isBlank c then ' '
  else match decimalDigit? c with
    | some d => Char.ofNat (0x30 + d)
    | none => c

def digit? (base : Nat) (c : Char) : Option Nat :=
  let v := c.toNat
  let d :=
    if 0x30 ≤ v && v ≤ 0x39 then some (v - 0x30)
    else if 0x61 ≤ v && v ≤ 0x7a then some (v - 0x61 + 10)
    else if 0x41 ≤ v && v ≤ 0x5a then some (v - 0x41 + 10)
    else none
  d.filter (· < base)

/-- The digits of a numeral, of which there is at least one; a low line may stand between two. -/
def digits? (base : Nat) : List Char → Option (List Nat)
  | [] => none
  | [c] => (digit? base c).map fun d => [d]
  | c :: '_' :: cs => do return (← digit? base c) :: (← digits? base cs)
  | c :: cs => do return (← digit? base c) :: (← digits? base cs)

def value (base : Nat) (ds : List Nat) : Nat := ds.foldl (fun n d => n * base + d) 0

/-- The numeral behind a base mark. -/
def marked? (base : Nat) : List Char → Option Nat
  | '_' :: cs => (digits? base cs).map (value base)
  | cs => (digits? base cs).map (value base)

/-- A decimal numeral; one that begins with zero is zero. -/
def decimal? (cs : List Char) : Option Nat := do
  let ds ← digits? 10 cs
  let n := value 10 ds
  if longestDecimal < ds.length || (cs.head? == some '0' && n != 0) then none else some n

def unsigned? : List Char → Option Nat
  | '0' :: b :: cs =>
    if b = 'x' || b = 'X' then marked? 16 cs
    else if b = 'o' || b = 'O' then marked? 8 cs
    else if b = 'b' || b = 'B' then marked? 2 cs
    else decimal? ('0' :: b :: cs)
  | cs => decimal? cs

def signed? : List Char → Option Int
  | '-' :: cs => (unsigned? cs).map fun n => -(n : Int)
  | '+' :: cs => (unsigned? cs).map fun n => (n : Int)
  | cs => (unsigned? cs).map fun n => (n : Int)

def read? (cs : List Char) : Option Int :=
  signed? (((cs.map plain).dropWhile isGap).reverse.dropWhile isGap).reverse

end IntegerLiteral

end AssemblyConsole.Text
