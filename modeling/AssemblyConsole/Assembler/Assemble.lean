import AssemblyConsole.Assembler.Locate
import AssemblyConsole.Assembler.Placement
import AssemblyConsole.Assembler.Register
import AssemblyConsole.Assembler.SpecialForm

/-!
Assembling a text into a payload.
-/

namespace AssemblyConsole.Assembler

/-- The text as the engine is given it. -/
def prepare (a : Architecture) (text : String) : String := if a.set = .ppc then Register.strip text else text

def relocationsOfAll (env : Environment) (s : Source) (code : Bytes) :
    List String → Action Session EncodeError (List Relocation)
  | [] => return []
  | symbol :: rest => do
    let here ← relocationsOf env s code symbol
    return here ++ (← relocationsOfAll env s code rest)

/-- The payload of a text that is handed to the engine as a whole. -/
def assembleWhole (env : Environment) (s : Source) : Action Session EncodeError Payload := do
  let s := { s with text := prepare s.architecture s.text }
  match ← call env s [] with
  | .error refusal => throw (.refused refusal (← locate env s.architecture s.address (statements s.text)))
  | .ok assembled =>
    let relocations ← relocationsOfAll env s assembled.code assembled.symbols
    return { code := assembled.code, relocations := relocations.mergeSort Relocation.precedes }

/-- The payload of parts, of which the code and relocations so far are given. -/
def assembleParts (env : Environment) (a : Architecture) (address : Int) :
    List SpecialForm.Part → Payload → Action Session EncodeError Payload
  | [], p => return p
  | .special code :: rest, p => assembleParts env a address rest { p with code := p.code ++ code }
  | .ordinary text :: rest, p => do
    let q ← assembleWhole env ⟨text, a, address + p.code.length⟩
    assembleParts env a address rest
      { p with
        code := p.code ++ q.filled
        relocations := p.relocations ++ q.relocations.map (·.shift p.code.length) }

/-- The payload of a text. Special forms are encoded by themselves, and the statements between two of them are
handed to the engine as a text of their own. -/
def assemble (env : Environment) (s : Source) : Action Session EncodeError Payload :=
  let parts := SpecialForm.split s.text
  if s.architecture.isLongX86 && parts.any (·.isSpecial) then
    assembleParts env s.architecture s.address parts { code := [] }
  else assembleWhole env s

def assembleEach (env : Environment) : List Source → Session → List (Except EncodeError Payload) × Session
  | [], session => ([], session)
  | s :: rest, session =>
    match (assemble env s).outcome session with
    | (.ok p, session) =>
      let (outcomes, session) := assembleEach env rest session
      (.ok p :: outcomes, session)
    | (.error e, session) => ([.error e], session)

end AssemblyConsole.Assembler
