import AssemblyConsole.Assembler.Assemble
import AssemblyConsole.Disassembler.Decode
import AssemblyConsole.Graph.Listing
import AssemblyConsole.Target

/-!
Encoding text and decoding bytes for the architecture that is worked for.
-/

namespace AssemblyConsole

/-- What a caller is told beside a result: a warning of the engine, or the symbols that code waits for. -/
inductive Advisory
  | engine (message : String)
  | unresolved (targets : List String)
deriving DecidableEq, Repr

def Advisory.message : Advisory → String
  | .engine m => m
  | .unresolved ts => "encoded string has unresolved relocations: " ++ ", ".intercalate ts

structure Encoding where
  code : Except EncodeError Bytes
  advisories : List Advisory := []

structure Codec where
  target : Target := {}
  session : Session := {}

namespace Codec

def perform {ε α : Type} (c : Codec) (x : Action Session ε α) : Except ε α × Codec :=
  let (outcome, session) := x.outcome c.session
  (outcome, { c with session })

def choose (c : Codec) (choice : Choice) : Except ChoiceError Architecture × Codec :=
  let (outcome, target) := c.target.choose choice
  (outcome, { c with target })

def payload (env : Environment) (text : String) (c : Codec) : Except EncodeError Payload × Codec :=
  c.perform (Assembler.assemble env ⟨text, c.target.architecture, 0⟩)

/-- The advisory about the symbols that a payload waits for, if it waits for any. -/
def advisory? (p : Payload) : Option Advisory :=
  if p.relocations.isEmpty then none else some (.unresolved p.unresolved)

/-- The machine code of a text, with the placeholder address for every symbol that is not known. -/
def encode (env : Environment) (text : String) (c : Codec) : Encoding × Codec :=
  let (outcome, d) := c.payload env text
  let raised := (d.session.warnings.drop c.session.warnings.length).map Advisory.engine
  match outcome with
  | .ok p => (⟨.ok p.filled, raised ++ (advisory? p).toList⟩, d)
  | .error e => (⟨.error e, raised⟩, d)

/-- The graph of bytes at an address, from an entry address or else from their beginning. -/
def graph (env : Environment) (data : Bytes) (base : Int) (entry : Option Int) (c : Codec) :
    Except DecodeError Graph × Codec :=
  c.perform (Disassembler.graph env c.target.architecture ⟨base, data⟩ (entry.getD base))

def decode (env : Environment) (data : Bytes) (base : Int) (entry : Option Int) (c : Codec) :
    Except DecodeError String × Codec :=
  let (outcome, d) := c.graph env data base entry
  (outcome.map (·.text), d)

end Codec

end AssemblyConsole
