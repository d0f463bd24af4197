import AssemblyConsole.Text.Hexadecimal

/-!
Reading bytes as text in the variable-width encoding of one to four bytes a character. Bytes that encode no
character are damage: a byte that cannot begin a character, or the beginning of a character that the next byte,
or the end of the input, cuts short. `decode` puts a replacement character for each damaged place, `decode?`
refuses the first.
-/

namespace AssemblyConsole.Text.Utf8

inductive Fault
  | start
  | continuation
  | truncated
deriving DecidableEq, Repr

/-- A damaged place: what is wrong, the position of its first byte, and its bytes. -/
structure Damage where
  fault : Fault
  position : Nat
  bytes : List UInt8
deriving DecidableEq, Repr

/-- A character begun: its bytes so far, the value of their payload, the range of the next byte, and how many
bytes follow that one. -/
structure Begun where
  bytes : List UInt8
  payload : Nat
  low : UInt8
  high : UInt8
  further : Nat

/-- What a first byte of a character of several bytes begins. -/
def begin? (b : UInt8) : Option Begun :=
  if 0xc2 ≤ b && b ≤ 0xdf then some ⟨[b], b.toNat - 0xc0, 0x80, 0xbf, 0⟩
  else if 0xe0 ≤ b && b ≤ 0xef then
    some ⟨[b], b.toNat - 0xe0, if b = 0xe0 then 0xa0 else 0x80, if b = 0xed then 0x9f else 0xbf, 1⟩
  else if 0xf0 ≤ b && b ≤ 0xf4 then
    some ⟨[b], b.toNat - 0xf0, if b = 0xf0 then 0x90 else 0x80, if b = 0xf4 then 0x8f else 0xbf, 2⟩
  else none

abbrev Piece := Except Damage Char

/-- What a byte at a character's beginning gives at once, and what it begins. -/
def first (position : Nat) (b : UInt8) : List Piece × Option Begun :=
  if b < 0x80 then ([.ok (Char.ofNat b.toNat)], none)
  else match begin? b with
    | some begun => ([], some begun)
    | none => ([.error ⟨.start, position, [b]⟩], none)

def next (position : Nat) (begun : Begun) (b : UInt8) : List Piece × Option Begun :=
  if begun.low ≤ b && b ≤ begun.high then
    let payload := begun.payload * 0x40 + (b.toNat - 0x80)
    match begun.further with
    | 0 => ([.ok (Char.ofNat payload)], none)
    | n + 1 => ([], some ⟨begun.bytes ++ [b], payload, 0x80, 0xbf, n⟩)
  else
    let (ps, begun') := first position b
    (.error ⟨.continuation, position - begun.bytes.length, begun.bytes⟩ :: ps, begun')

def scanFrom (position : Nat) (begun : Option Begun) : List UInt8 → List Piece
  | [] =>
    match begun with
    | none => []
    | some c => [.error ⟨.truncated, position - c.bytes.length, c.bytes⟩]
  | b :: bs =>
    let (ps, begun') := match begun with
      | none => first position b
      | some c => next position c b
    ps ++ scanFrom (position + 1) begun' bs

def scan (bs : List UInt8) : List Piece := scanFrom 0 none bs

def replacement : Char := '\uFFFD'

def decode (bs : List UInt8) : List Char :=
  (scan bs).map fun
    | .ok c => c
    | .error _ => replacement

def decode? (bs : List UInt8) : Except Damage (List Char) := (scan bs).mapM id

def encode (cs : List Char) : List UInt8 := cs.flatMap String.utf8EncodeChar

def Fault.text : Fault → String
  | .start => "invalid start byte"
  | .continuation => "invalid continuation byte"
  | .truncated => "unexpected end of data"

/-- What is said of a damaged place: its byte, or the positions of its bytes. -/
def Damage.message (d : Damage) : String :=
  let place :=
    match d.bytes with
    | [b] => s!"byte 0x{hexBytes [b]} in position {d.position}"
    | bs => s!"bytes in position {d.position}-{d.position + bs.length - 1}"
  s!"'utf-8' codec can't decode {place}: {d.fault.text}"

end AssemblyConsole.Text.Utf8
