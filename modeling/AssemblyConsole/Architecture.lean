/-!
What an architecture is: an instruction set, the width of its words, the order of the bytes in them, and a mode.
-/

namespace AssemblyConsole

inductive InstructionSet
  | arm
  | aarch64
  | x86
  | mips
  | ppc
deriving DecidableEq, Repr

inductive Width
  | bits16
  | bits32
  | bits64
deriving DecidableEq, Repr

inductive ByteOrder
  | big
  | little
deriving DecidableEq, Repr

inductive Mode
  | ordinary
  | thumb
deriving DecidableEq, Repr

structure Architecture where
  set : InstructionSet
  width : Width
  order : ByteOrder
  mode : Mode := .ordinary
deriving DecidableEq, Repr

def InstructionSet.text : InstructionSet → String
  | .arm => "arm"
  | .aarch64 => "aarch64"
  | .x86 => "x86"
  | .mips => "mips"
  | .ppc => "ppc"

def Width.bits : Width → Nat
  | .bits16 => 16
  | .bits32 => 32
  | .bits64 => 64

def Width.bytes (w : Width) : Nat := w.bits / 8

def ByteOrder.text : ByteOrder → String
  | .big => "big"
  | .little => "little"

def Mode.suffix : Mode → String
  | .ordinary => ""
  | .thumb => "-thumb"

namespace Architecture

/-- The set, the bits of a word and the byte order, then the mode if it is not the ordinary one. -/
def text (a : Architecture) : String :=
  s!"{a.set.text}-{a.width.bits}-{a.order.text}{a.mode.suffix}"

def isLongX86 (a : Architecture) : Bool := a.set == .x86 && a.width == .bits64

end Architecture

end AssemblyConsole
