import AssemblyConsole.Graph.Basic

/-!
A graph as text: the blocks by address, each that is referred to under a label, except the one at the entry.
-/

namespace AssemblyConsole.Graph

def needsLabel (g : Graph) (b : Block) : Bool :=
  b.address != g.entry && !(g.sources b.address).isEmpty

def label (b : Block) : String := s!"loc_{Text.hexSigned b.address}:"

def text (g : Graph) : String :=
  "\n".intercalate <| g.sorted.flatMap fun b => (if g.needsLabel b then [label b] else []) ++ [b.text]

def dumpLabel (g : Graph) (b : Block) : String :=
  s!"{label b}  ; xrefs: " ++ ", ".intercalate ((g.sources b.address).map Text.hexMarked)

def dump (g : Graph) : String :=
  "\n".intercalate <| g.sorted.flatMap fun b =>
    (if g.needsLabel b then [g.dumpLabel b] else []) ++ b.instructions.map (·.dumpLine)

end AssemblyConsole.Graph
