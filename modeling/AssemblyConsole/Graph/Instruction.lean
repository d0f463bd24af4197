import AssemblyConsole.Payload
import AssemblyConsole.Text.Blank
import AssemblyConsole.Text.Hexadecimal

/-!
Decoded instructions and how they pass control on.
-/

namespace AssemblyConsole

structure Instruction where
  address : Int
  size : Int
  mnemonic : String
  operands : String
  raw : Bytes := []
deriving DecidableEq, Repr

inductive ControlFlow
  | next
  | jump
  | conditional
  | call
  | returning
deriving DecidableEq, Repr

/-- An instruction with the way it passes control on and the address it names for that, if it names one. -/
structure Decoded where
  instruction : Instruction
  flow : ControlFlow := .next
  target : Option Int := none
deriving DecidableEq, Repr

namespace Instruction

def text (i : Instruction) : String :=
  String.ofList (Text.trim (i.mnemonic.toList ++ ' ' :: i.operands.toList))

def stop (i : Instruction) : Int := i.address + i.size

/-- The line of a dump: address, bytes in a column of twenty characters, and text. -/
def dumpLine (i : Instruction) : String :=
  let raw := Text.hexBytes i.raw
  let column := raw.pushn ' ' (20 - raw.length)
  s!"{Text.hexColumn i.address}  {column}  {i.text}"

end Instruction

end AssemblyConsole
