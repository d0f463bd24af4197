import AssemblyConsole.Assembler.Error
import AssemblyConsole.Assembler.Recorder
import AssemblyConsole.Session

/-!
One request to the assembler within a session.
-/

namespace AssemblyConsole

structure Assembled where
  code : Bytes
  symbols : List String
deriving DecidableEq, Repr

structure Source where
  text : String
  architecture : Architecture
  address : Int
deriving DecidableEq, Repr

namespace Assembler

/-- Requests for these architectures are watched for warnings on the error stream. -/
def isWatched (a : Architecture) : Bool := a.set == .arm || a.set == .aarch64

/-- The open instance for an architecture, opened now if there is none. -/
def instanceFor (env : Environment) (a : Architecture) : Action Session EncodeError EngineInstance := do
  match (← get).assembler? a with
  | some i => return i
  | none =>
    match Numbering.assembler.flags? a with
    | none => throw (.unsupported a)
    | some flags =>
      let refusal := env.assembler.opening (← get).clock flags
      modify (·.record (.opening .assembler a flags refusal))
      match refusal with
      | some r => throw (.unopened a r)
      | none =>
        let i : EngineInstance := ⟨a, flags⟩
        modify (·.addAssembler i)
        return i

/-- The finished request: what the reply's printing comes to on the error stream. -/
def callOf (env : Environment) (a : Architecture) (reply : Reply) : AssemblerCall :=
  if !env.errorStream then ⟨a, reply, none, []⟩
  else if isWatched a then
    let (text, passed) := Stream.watch reply.printed
    ⟨a, reply, some text, passed⟩
  else ⟨a, reply, none, reply.printed⟩

theorem architecture_callOf (env : Environment) (a : Architecture) (reply : Reply) :
    (callOf env a reply).architecture = a := by
  unfold callOf
  split
  · rfl
  · split <;> rfl

theorem reply_callOf (env : Environment) (a : Architecture) (reply : Reply) : (callOf env a reply).reply = reply := by
  unfold callOf
  split
  · rfl
  · split <;> rfl

/-- One request, with values for some symbols. That the engine refuses it is no failure here. -/
def call (env : Environment) (s : Source) (values : List (String × Int)) :
    Action Session EncodeError (Except Refusal Assembled) := do
  let i ← instanceFor env s.architecture
  let dialogue := env.assembler.assembling (← get).clock i.flags s.text s.address
  let (recorder, reply) := dialogue.answer { values }
  modify (·.recordCall (callOf env s.architecture reply))
  return reply.result.map fun code => ⟨code.getD [], recorder.symbols⟩

def probe (env : Environment) (s : Source) (values : List (String × Int)) :
    Action Session EncodeError (Option Bytes) := do
  return (← call env s values).toOption.map (·.code)

end Assembler

end AssemblyConsole
