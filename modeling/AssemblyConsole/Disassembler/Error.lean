import AssemblyConsole.Engine.Basic
import AssemblyConsole.Text.Hexadecimal

/-!
Why machine code is not decoded.
-/

namespace AssemblyConsole

inductive DecodeError
  /-- The engine has no numbers for the architecture. -/
  | unsupported (a : Architecture)
  /-- The engine refused to open for the architecture. -/
  | unopened (a : Architecture) (r : Refusal)
  /-- The engine refused to decode. -/
  | refused (r : Refusal)
  /-- The entry address is outside the buffer from `start` to `stop`. -/
  | outside (entry start stop : Int)
  /-- No instruction begins at an address that control reaches; `bytes` are those found there. -/
  | undecodable (a : Architecture) (address : Int) (bytes : Bytes)
deriving DecidableEq, Repr

namespace DecodeError

def kind : DecodeError → String
  | .unsupported _ => "DisassemblerArchSupportError"
  | .unopened _ r => r.kind
  | .refused r => r.kind
  | .outside .. => "EntryPointError"
  | .undecodable .. => "InvalidInstructionError"

def unsupportedMessage (a : Architecture) : String :=
  s!"Cannot generate the capstone mode flag for {a.text}"

def message : DecodeError → String
  | .unsupported a => unsupportedMessage a
  | .unopened a r => s!"Capstone does not support {a.text}: {r.message}"
  | .refused r => r.message
  | .outside entry start stop =>
    s!"Entry address {Text.hexMarked entry} is outside the decoded buffer [{Text.hexMarked start}, {Text.hexMarked stop})"
  | .undecodable a address bytes =>
    s!"Cannot decode a {a.text} instruction at {Text.hexMarked address} from bytes {Text.hexBytes bytes}"

end DecodeError

end AssemblyConsole
