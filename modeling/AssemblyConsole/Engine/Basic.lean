import AssemblyConsole.Engine.Flags
import AssemblyConsole.Payload

/-!
The two engines the console works with. An engine is a function of what it is asked and of a clock that counts the
requests of a session, so that nothing is taken for granted about how it behaves from one request to the next.
-/

namespace AssemblyConsole

structure Refusal where
  kind : String
  message : String
deriving DecidableEq, Repr

/-- How an assembler ends a request: what it printed on the error stream, the warnings it raised, and the machine
code, which may be missing, or its refusal. -/
structure Reply where
  printed : Bytes := []
  warnings : List String := []
  result : Except Refusal (Option Bytes)

/-- What happens on a request: the assembler asks for the values of symbols it does not know, one after another,
and then replies. -/
inductive Dialogue
  | ask (symbol : Bytes) (resume : UInt64 → Dialogue)
  | reply (r : Reply)

/-- Opening an instance may be refused; an open instance assembles a text at an address. -/
structure AssemblerEngine where
  opening : (clock : Nat) → EngineFlags → Option Refusal
  assembling : (clock : Nat) → EngineFlags → (text : String) → (address : Int) → Dialogue

/-- An instruction as a disassembler reports it; `groups` are the numbers of the classes it belongs to. -/
structure RawInstruction where
  address : Int
  raw : Bytes
  mnemonic : String
  operands : String
  groups : List Nat := []
deriving DecidableEq, Repr

structure DisassemblerEngine where
  opening : (clock : Nat) → EngineFlags → Option Refusal
  decoding : (clock : Nat) → EngineFlags → Bytes → (address : Int) → Except Refusal (List RawInstruction)

/-- The engines answer alike whenever they are asked. -/
def AssemblerEngine.Steady (e : AssemblerEngine) : Prop :=
  (∀ s t, e.opening s = e.opening t) ∧ ∀ s t, e.assembling s = e.assembling t

def DisassemblerEngine.Steady (e : DisassemblerEngine) : Prop :=
  (∀ s t, e.opening s = e.opening t) ∧ ∀ s t, e.decoding s = e.decoding t

/-- What a console runs in: its engines, and whether there is an error stream for the assembler to print on. -/
structure Environment where
  assembler : AssemblerEngine
  disassembler : DisassemblerEngine
  errorStream : Bool := true

end AssemblyConsole
