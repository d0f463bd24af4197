import AssemblyConsole.Console

/-!
The command as a program. It is linked without engines, so every text is refused.
-/

namespace AssemblyConsole.Main

def help : String :=
  "usage: asmshell [-h] [--arch ARCH] [--logging-level LEVEL]\n\n" ++
  "Interactive assembler shell: type assembly statements and see them encoded.\n"

def environment : Environment :=
  let absent : Refusal := ⟨"EngineUnavailable", "no engine is linked"⟩
  { assembler := ⟨fun _ _ => some absent, fun _ _ _ _ => .reply { result := .error absent }⟩
    disassembler := ⟨fun _ _ => some absent, fun _ _ _ _ => .error absent⟩ }

/-- Handles the lines typed until the user leaves or there are no more. -/
partial def dialogue (input output : IO.FS.Stream) (codec : Codec) : IO Unit := do
  output.putStr Shell.prompt
  output.flush
  let typed ← input.getLine
  unless typed.isEmpty do
    let line := (Console.inputLines typed.toList).headD ""
    let (response, codec) := Shell.handle (Codec.encode environment) line codec
    output.putStr response.printed
    if response.continues then dialogue input output codec

end AssemblyConsole.Main

open AssemblyConsole in
def main (words : List String) : IO UInt32 := do
  match CommandLine.parse words with
  | .error e =>
    IO.eprintln e.report
    return 2
  | .ok .help =>
    IO.print Main.help
    return 0
  | .ok (.start settings) =>
    match Console.start settings with
    | .error e =>
      IO.eprintln e.message
      return 1
    | .ok (_, target) =>
      let output ← IO.getStdout
      output.putStr (Shell.line Shell.banner)
      Main.dialogue (← IO.getStdin) output { target }
      output.putStr (Shell.line "")
      return 0
