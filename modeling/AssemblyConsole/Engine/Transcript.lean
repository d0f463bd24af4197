import AssemblyConsole.Disassembler.Sweep
import AssemblyConsole.Text.Ascii

/-!
Engines that answer from records of what was asked and answered before.
-/

namespace AssemblyConsole

/-- A request on which the assembler asks for these symbols, is given these values, and then replies. -/
structure AnsweredCase where
  asks : List (Bytes × UInt64) := []
  reply : Reply

structure AnsweredRequest where
  flags : EngineFlags
  text : String
  address : Int
  cases : List AnsweredCase

structure KnownInstruction where
  flags : EngineFlags
  place : Int
  instruction : RawInstruction

structure Transcript where
  assemblerRefusals : List (EngineFlags × Refusal) := []
  requests : List AnsweredRequest := []
  disassemblerRefusals : List (EngineFlags × Refusal) := []
  instructions : List KnownInstruction := []
  decodingRefusals : List (EngineFlags × Int × Refusal) := []

namespace Transcript

def unanswered : Refusal := ⟨"Unanswered", "nothing is on record for this request"⟩

/-- The dialogue that the recorded courses allow, at most `n` symbols being asked for. A course without further
symbols ends it. -/
def converse : (n : Nat) → List AnsweredCase → Dialogue
  | n, cases =>
    match cases.find? (·.asks.isEmpty), n, cases with
    | some c, _, _ => .reply c.reply
    | none, n + 1, ⟨(symbol, _) :: _, _⟩ :: _ =>
      .ask symbol fun v => converse n <| cases.filterMap fun c =>
        match c.asks with
        | (_, w) :: rest => if w = v then some { c with asks := rest } else none
        | [] => none
    | none, _, _ => .reply { result := .error unanswered }

def longest (cases : List AnsweredCase) : Nat := cases.foldl (fun n c => max n c.asks.length) 0

def dialogue (t : Transcript) (flags : EngineFlags) (text : String) (address : Int) : Dialogue :=
  let cases := (t.requests.filter fun r => r.flags = flags && r.text = text && r.address = address).flatMap (·.cases)
  converse (longest cases) cases

/-- The assembler of a transcript. It refuses a text with characters outside ASCII, before anything else. -/
def assembler (t : Transcript) : AssemblerEngine where
  opening _ flags := t.assemblerRefusals.lookup flags
  assembling _ flags text address :=
    match Text.foreignRun? text.toList with
    | some run => .reply { result := .error ⟨"UnicodeEncodeError", run.message⟩ }
    | none => t.dialogue flags text address

def instructionAt (t : Transcript) (flags : EngineFlags) : InstructionAt := fun address bytes =>
  (t.instructions.find? fun k =>
    k.flags = flags && k.place = address && k.instruction.raw.isPrefixOf bytes).map (·.instruction)

def disassembler (t : Transcript) : DisassemblerEngine where
  opening _ flags := t.disassemblerRefusals.lookup flags
  decoding _ flags bytes address :=
    match t.decodingRefusals.find? fun (f, a, _) => f = flags && a = address with
    | some (_, _, r) => .error r
    | none => .ok (sweep (t.instructionAt flags) address bytes)

theorem steady_assembler (t : Transcript) : t.assembler.Steady := ⟨fun _ _ => rfl, fun _ _ => rfl⟩

theorem steady_disassembler (t : Transcript) : t.disassembler.Steady := ⟨fun _ _ => rfl, fun _ _ => rfl⟩

end Transcript

end AssemblyConsole
