import AssemblyConsole.Disassembler.BranchTarget
import AssemblyConsole.Disassembler.ControlFlow
import AssemblyConsole.Disassembler.Operands
import AssemblyConsole.Graph.Traversal
import AssemblyConsole.Session

/-!
Decoding bytes, linearly or as a graph.
-/

namespace AssemblyConsole

/-- What the disassembler's report of an instruction means on an instruction set. -/
def Decoded.ofRaw (set : InstructionSet) (r : RawInstruction) : Decoded :=
  let operands := Operands.normalize set r.operands
  let flow := ControlFlow.classify set r.mnemonic operands r.groups
  { instruction := ⟨r.address, r.raw.length, r.mnemonic, operands, r.raw⟩
    flow
    target := if flow.mayName then BranchTarget.read? operands else none }

namespace Disassembler

/-- The open instance for an architecture, opened now if there is none. -/
def instanceFor (env : Environment) (a : Architecture) : Action Session DecodeError EngineInstance := do
  match (← get).disassembler? a with
  | some i => return i
  | none =>
    match Numbering.disassembler.flags? a with
    | none => throw (.unsupported a)
    | some flags =>
      let refusal := env.disassembler.opening (← get).clock flags
      modify (·.record (.opening .disassembler a flags refusal))
      match refusal with
      | some r => throw (.unopened a r)
      | none =>
        let i : EngineInstance := ⟨a, flags⟩
        modify (·.addDisassembler i)
        return i

/-- The instructions from the beginning of the bytes on, as far as there are any. -/
def decode (env : Environment) (a : Architecture) : Decoder Session := fun address bytes => do
  let i ← instanceFor env a
  let result := env.disassembler.decoding (← get).clock i.flags bytes address
  modify (·.record (.decoding a))
  match result with
  | .error r => throw (.refused r)
  | .ok raws => return raws.map (Decoded.ofRaw a.set)

def graph (env : Environment) (a : Architecture) (b : Buffer) (entry : Int) : Action Session DecodeError Graph :=
  Graph.explore (decode env a) a b entry

end Disassembler

end AssemblyConsole
