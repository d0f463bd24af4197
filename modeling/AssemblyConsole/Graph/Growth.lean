import AssemblyConsole.Disassembler.Error
import AssemblyConsole.Graph.Buffer

/-!
Gathering decoded instructions into one block.
-/

namespace AssemblyConsole

/-- A block so far, the references found in it, and the address at which its next instruction begins. -/
structure Growth where
  block : Block
  references : List Reference := []
  next : Int

namespace Growth

def start (a : Int) : Growth := { block := { address := a }, next := a }

def add (g : Growth) (d : Decoded) : Growth :=
  { block := { g.block with
      instructions := g.block.instructions ++ [d.instruction]
      targets := g.block.targets ++ d.target.toList }
    references := g.references ++ (d.target.map fun t => ⟨t, d.instruction.address⟩).toList
    next := d.instruction.stop }

def exiting (g : Growth) : Growth := { g with block := { g.block with isExit := true } }

def continuing (g : Growth) : Growth := { g with block := { g.block with continuesAt := some g.next } }

/-- The block ends where its last instruction does, for want of another one: that has to be the buffer's end. -/
def finish (a : Architecture) (b : Buffer) (g : Growth) : Except DecodeError Growth :=
  if b.Holds g.next then .error (.undecodable a g.next ((b.bytesFrom g.next).take 16))
  else .ok g.exiting

/-- The block with the decoded instructions, up to the first that passes control elsewhere, that does not begin
where the one before it ends, or that begins another block. -/
def gather (a : Architecture) (b : Buffer) (starts : List Int) : Growth → List Decoded → Except DecodeError Growth
  | g, [] => g.finish a b
  | g, d :: ds =>
    if d.instruction.address ≠ g.next then g.finish a b
    else if g.block.instructions ≠ [] ∧ g.next ∈ starts then .ok g.continuing
    else
      let g := g.add d
      match d.flow with
      | .returning => .ok g.exiting
      | .jump => .ok (if d.target.isNone then g.exiting else g)
      | .conditional => .ok (if b.Holds g.next then g.continuing else g.exiting)
      | .next | .call => gather a b starts g ds

theorem address_finish {a : Architecture} {b : Buffer} {g h : Growth} (hf : g.finish a b = .ok h) :
    h.block.address = g.block.address := by
  unfold finish at hf
  split at hf
  · simp at hf
  · obtain rfl := Except.ok.inj hf
    rfl

theorem address_gather {a : Architecture} {b : Buffer} {starts : List Int} {ds : List Decoded} {g h : Growth}
    (hg : gather a b starts g ds = .ok h) : h.block.address = g.block.address := by
  induction ds generalizing g with
  | nil => exact address_finish hg
  | cons d ds ih =>
    rw [gather] at hg
    split at hg
    · exact address_finish hg
    · split at hg
      · obtain rfl := Except.ok.inj hg
        rfl
      · have hadd : (g.add d).block.address = g.block.address := rfl
        simp only at hg
        split at hg
        · obtain rfl := Except.ok.inj hg
          rfl
        · obtain rfl := Except.ok.inj hg
          split <;> rfl
        · obtain rfl := Except.ok.inj hg
          split <;> rfl
        · rw [ih hg, hadd]
        · rw [ih hg, hadd]

end Growth

end AssemblyConsole
