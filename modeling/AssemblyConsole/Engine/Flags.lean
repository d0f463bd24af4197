import AssemblyConsole.Architecture

/-!
The numbers by which the engines know an architecture: one for the family, and one for the mode, a sum of bits.
-/

namespace AssemblyConsole

structure EngineFlags where
  family : Nat
  mode : Nat
deriving DecidableEq, Repr

/-- How an engine numbers the families, and the two mode bits on which the engines differ. -/
structure Numbering where
  arm : Nat
  aarch64 : Nat
  x86 : Nat
  mips : Nat
  ppc : Nat
  armBit : Nat
  bigBit : Nat

namespace Numbering

def assembler : Numbering := ⟨1, 2, 4, 3, 5, 1, 0x40000000⟩

def disassembler : Numbering := ⟨0, 1, 3, 2, 4, 0, 0x80000000⟩

def family (n : Numbering) : InstructionSet → Nat
  | .arm => n.arm
  | .aarch64 => n.aarch64
  | .x86 => n.x86
  | .mips => n.mips
  | .ppc => n.ppc

def orderBit (n : Numbering) : ByteOrder → Nat
  | .big => n.bigBit
  | .little => 0

def widthBit : Width → Nat
  | .bits16 => 2
  | .bits32 => 4
  | .bits64 => 8

def armModeBit (n : Numbering) : Mode → Nat
  | .thumb => 16
  | .ordinary => n.armBit

/-- The mode of an architecture. Words of 16 bits are known of one family only, and there are no words to tell
apart in the two families whose instructions fix them. -/
def mode? (n : Numbering) (a : Architecture) : Option Nat :=
  match a.set with
  | .aarch64 => some (n.orderBit a.order)
  | .arm => some (n.armModeBit a.mode ||| n.orderBit a.order)
  | .x86 => some (widthBit a.width ||| n.orderBit a.order)
  | .mips | .ppc => if a.width = .bits16 then none else some (widthBit a.width ||| n.orderBit a.order)

def flags? (n : Numbering) (a : Architecture) : Option EngineFlags :=
  (n.mode? a).map fun m => ⟨n.family a.set, m⟩

end Numbering

end AssemblyConsole
