import AssemblyConsole.Action
import AssemblyConsole.Capture
import AssemblyConsole.Engine.Basic
import AssemblyConsole.Text.Occurrence

/-!
What a console keeps between requests: the open engine instances, and what has happened so far.
-/

namespace AssemblyConsole

structure EngineInstance where
  architecture : Architecture
  flags : EngineFlags
deriving DecidableEq, Repr

inductive Side
  | assembler
  | disassembler
deriving DecidableEq, Repr

/-- A finished request to the assembler. `watched` holds the text captured while it ran, if it was watched, and `shown`
is what reached the error stream. -/
structure AssemblerCall where
  architecture : Architecture
  reply : Reply
  watched : Option (List Char)
  shown : Bytes

inductive Event
  | opening (side : Side) (architecture : Architecture) (flags : EngineFlags) (refusal : Option Refusal)
  | assembling (call : AssemblerCall)
  | decoding (architecture : Architecture)

/-- The instances in the order of their opening, and the events, the latest first. -/
structure Session where
  assemblers : List EngineInstance := []
  disassemblers : List EngineInstance := []
  history : List Event := []

/-- The words by which a warning on the error stream is recognised. -/
def warningWords : List Char := "warning:".toList

namespace AssemblerCall

/-- Whether the call ended well and printed a warning while it was watched. After such a call the open instances are
not to be relied on. -/
def warned (c : AssemblerCall) : Bool :=
  c.reply.result.toOption.isSome && ((c.watched.map (Text.occursIn warningWords)).getD false)

end AssemblerCall

namespace Session

/-- The number of requests so far. -/
def clock (s : Session) : Nat := s.history.length

def record (s : Session) (e : Event) : Session := { s with history := e :: s.history }

def assembler? (s : Session) (a : Architecture) : Option EngineInstance :=
  s.assemblers.find? (·.architecture = a)

def disassembler? (s : Session) (a : Architecture) : Option EngineInstance :=
  s.disassemblers.find? (·.architecture = a)

def addAssembler (s : Session) (i : EngineInstance) : Session := { s with assemblers := s.assemblers ++ [i] }

def addDisassembler (s : Session) (i : EngineInstance) : Session := { s with disassemblers := s.disassemblers ++ [i] }

/-- The session after a request to the assembler; a warning drops the open instances. -/
def recordCall (s : Session) (c : AssemblerCall) : Session :=
  let t := s.record (.assembling c)
  if c.warned then { t with assemblers := [] } else t

def events (s : Session) : List Event := s.history.reverse

def calls (s : Session) : List AssemblerCall :=
  s.events.filterMap fun
    | .assembling c => some c
    | _ => none

def openings (s : Session) : List (Side × EngineFlags) :=
  s.events.filterMap fun
    | .opening side _ flags _ => some (side, flags)
    | _ => none

def warnings (s : Session) : List String := s.calls.flatMap (·.reply.warnings)

def shown (s : Session) : Bytes := s.calls.flatMap (·.shown)

def resetNotice : String := "Keystone printed a warning, resetting keystone instances"

/-- The notices logged: one for each time that the open instances were dropped. -/
def notices (s : Session) : List String := (s.calls.filter (·.warned)).map fun _ => resetNotice

end Session

end AssemblyConsole
