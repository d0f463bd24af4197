import AssemblyConsole.Graph.Block

/-!
The blocks of a buffer that control reaches from an entry address, and which instruction refers to which address.
-/

namespace AssemblyConsole

structure Reference where
  target : Int
  source : Int
deriving DecidableEq, Repr

/-- The blocks stand in the order in which they were found, no two at one address; no reference stands twice. -/
structure Graph where
  base : Int
  entry : Int
  blocks : List Block := []
  references : List Reference := []
deriving DecidableEq, Repr

namespace Graph

def starts (g : Graph) : List Int := g.blocks.map (·.address)

def block? (g : Graph) (a : Int) : Option Block := g.blocks.find? (·.address = a)

/-- The first block found whose bytes include the address. -/
def blockAround? (g : Graph) (a : Int) : Option Block := g.blocks.find? (·.spans a)

def refer (g : Graph) (r : Reference) : Graph :=
  if r ∈ g.references then g else { g with references := g.references ++ [r] }

/-- The graph with a block in the place of the one at its address, or behind the others if there is none. -/
def put (g : Graph) (b : Block) : Graph :=
  if b.address ∈ g.starts then
    { g with blocks := g.blocks.map fun c => if c.address = b.address then b else c }
  else { g with blocks := g.blocks ++ [b] }

/-- The addresses of the instructions that name an address, in ascending order. -/
def sources (g : Graph) (target : Int) : List Int :=
  ((g.references.filter (·.target = target)).map (·.source)).mergeSort

def referred (g : Graph) : List Int := (g.references.map (·.target)).eraseDups.mergeSort

def sorted (g : Graph) : List Block := g.blocks.mergeSort fun b c => b.address ≤ c.address

def instructions (g : Graph) : List Instruction := g.sorted.flatMap (·.instructions)

theorem mem_starts (g : Graph) (a : Int) : a ∈ g.starts ↔ ∃ b ∈ g.blocks, b.address = a := by
  simp [starts]

theorem mem_sources (g : Graph) (t s : Int) : s ∈ g.sources t ↔ ⟨t, s⟩ ∈ g.references := by
  simp only [sources, List.mem_mergeSort, List.mem_map, List.mem_filter, decide_eq_true_eq]
  constructor
  · rintro ⟨r, ⟨h, rfl⟩, rfl⟩
    exact h
  · intro h
    exact ⟨_, ⟨h, rfl⟩, rfl⟩

theorem mem_references_refer (g : Graph) (r q : Reference) :
    q ∈ (g.refer r).references ↔ q ∈ g.references ∨ q = r := by
  unfold refer
  split
  · rename_i h
    constructor
    · exact Or.inl
    · rintro (hq | rfl)
      · exact hq
      · exact h
  · simp

theorem starts_put (g : Graph) (b : Block) :
    (g.put b).starts = if b.address ∈ g.starts then g.starts else g.starts ++ [b.address] := by
  unfold put
  split
  · simp only [starts, List.map_map]
    apply List.map_congr_left
    intro c _
    simp only [Function.comp_apply]
    split
    · rename_i h
      exact h.symm
    · rfl
  · simp [starts]

end Graph

end AssemblyConsole
