import AssemblyConsole.Graph.Instruction

/-!
Basic blocks: instructions that run one after another, from one entry to one exit.
-/

namespace AssemblyConsole

/-- A block at `address`. `continuesAt` is the address that execution falls through to; `isExit` says that control
continues nowhere; `targets` are the addresses that its instructions name. -/
structure Block where
  address : Int
  instructions : List Instruction := []
  isExit : Bool := false
  continuesAt : Option Int := none
  targets : List Int := []
deriving DecidableEq, Repr

namespace Block

def size (b : Block) : Int := b.instructions.foldr (fun i n => i.size + n) 0

def stop (b : Block) : Int := b.address + b.size

def spans (b : Block) (a : Int) : Bool := decide (b.address ≤ a) && decide (a < b.stop)

def text (b : Block) : String := "\n".intercalate (b.instructions.map (·.text))

def successors (b : Block) : List Int := b.targets ++ b.continuesAt.toList

theorem spans_iff (b : Block) (a : Int) : b.spans a = true ↔ b.address ≤ a ∧ a < b.stop := by
  simp [spans]

/-- What the instructions before and after a cut span together is what they spanned before it. -/
theorem size_append (b : Block) (xs ys : List Instruction) :
    { b with instructions := xs ++ ys }.size = { b with instructions := xs }.size + { b with instructions := ys }.size := by
  induction xs with
  | nil => simp [size]
  | cons i xs ih =>
    simp only [size, List.cons_append, List.foldr_cons] at ih ⊢
    omega

end Block

end AssemblyConsole
