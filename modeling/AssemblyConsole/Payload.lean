/-!
Machine code with the places in it that wait for the address of a symbol.
-/

namespace AssemblyConsole

abbrev Bytes := List UInt8

/-- A field of `size` bytes at `offset` that depends on the symbol `target`, with the bytes it has when the symbol
is at the placeholder address. Without an offset the code does not depend on the symbol. -/
structure Relocation where
  offset : Option Int
  target : String
  size : Int := 0
  placeholder : Bytes := []
deriving DecidableEq, Repr

namespace Relocation

/-- The address of a symbol that is not known. -/
def placeholderAddress : Int := 0

/-- The same field in code that begins `n` bytes earlier. -/
def shift (n : Nat) (r : Relocation) : Relocation := { r with offset := r.offset.map (· + n) }

/-- Where the placeholder is written, if it is. -/
def writes? (r : Relocation) : Option (Int × Bytes) :=
  if (r.placeholder.length : Int) = r.size then r.offset.map fun o => (o, r.placeholder) else none

/-- Located fields first, the lower offset before the higher. -/
def precedes (r s : Relocation) : Bool :=
  match r.offset, s.offset with
  | some a, some b => a ≤ b
  | some _, none => true
  | none, some _ => false
  | none, none => true

end Relocation

/-- The position that an offset stands for in `length` bytes: counted from the end if it is negative, and kept
between the two ends. -/
def position (length : Nat) (offset : Int) : Nat :=
  if offset < 0 then (length + offset).toNat else min offset.toNat length

/-- The bytes with those between the two offsets replaced. Offsets in the wrong order enclose nothing. -/
def overwrite (bs : Bytes) (start stop : Int) (field : Bytes) : Bytes :=
  let i := position bs.length start
  let j := position bs.length stop
  bs.take i ++ field ++ bs.drop (max i j)

/-- Machine code and its relocations; its bytes are read only once it is filled. -/
structure Payload where
  code : Bytes
  relocations : List Relocation := []
  isFilled : Bool := false
deriving DecidableEq, Repr

namespace Payload

def fillOne (bs : Bytes) (r : Relocation) : Bytes :=
  match r.writes? with
  | some (o, field) => overwrite bs o (o + r.size) field
  | none => bs

def filled (p : Payload) : Bytes := p.relocations.foldl fillOne p.code

def fill (p : Payload) : Payload := { p with isFilled := true }

def bytes? (p : Payload) : Option Bytes := if p.isFilled then some p.filled else none

def unreadableMessage : String := "Encoded payload must be filled before its bytes are read"

/-- The symbols the code waits for, in the order of their first relocations. -/
def unresolved (p : Payload) : List String := (p.relocations.map (·.target)).eraseDups

theorem bytes?_fill (p : Payload) : p.fill.bytes? = some p.filled := rfl

end Payload

theorem position_of_le {length : Nat} {o : Int} (h₀ : 0 ≤ o) (h : o ≤ length) : position length o = o.toNat := by
  unfold position
  split <;> omega

end AssemblyConsole
