import AssemblyConsole.Engine.Basic

/-!
Linear decoding: one instruction behind another from the beginning of the bytes.
-/

namespace AssemblyConsole

abbrev InstructionAt := (address : Int) → Bytes → Option RawInstruction

set_option linter.unusedVariables false in
/-- The instructions of the bytes, up to the first place where there is none, or none that takes up bytes. -/
def sweep (find : InstructionAt) (address : Int) (bs : Bytes) : List RawInstruction :=
  if hb : bs = [] then []
  else match find address bs with
    | none => []
    | some i =>
      if hr : i.raw = [] then []
      else i :: sweep find (address + i.raw.length) (bs.drop i.raw.length)
termination_by bs.length
decreasing_by
  have := List.length_pos_iff.mpr hb
  have := List.length_pos_iff.mpr hr
  simp only [List.length_drop]
  omega

end AssemblyConsole
