/-!
Runs of consecutive offsets.
-/

namespace AssemblyConsole

structure Run where
  start : Int
  length : Nat
deriving DecidableEq, Repr

namespace Run

/-- The offsets cut where one is not followed by its successor. -/
def ofOffsets : List Int → List Run
  | [] => []
  | o :: os =>
    match ofOffsets os with
    | [] => [⟨o, 1⟩]
    | r :: rs => if r.start = o + 1 then ⟨o, r.length + 1⟩ :: rs else ⟨o, 1⟩ :: r :: rs

def offsets (r : Run) : List Int := (List.range r.length).map fun (i : Nat) => r.start + i

def stop (r : Run) : Int := r.start + r.length

end Run

end AssemblyConsole
