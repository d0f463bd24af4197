import AssemblyConsole.Proofs.TraversalInvariant

/-!
What a cut does to a graph of laid out blocks: the block around the address falls into two that meet there and share
its instructions, its end and its targets, and nothing else changes.
-/

namespace AssemblyConsole

namespace Block

/-- Instructions of at least one byte stand one behind the other from the block's address on. -/
structure Laid (k : Block) : Prop where
  begins : ∃ i rest, k.instructions = i :: rest ∧ i.address = k.address
  contiguous : k.instructions.IsChain fun i j => j.address = i.stop
  positive : ∀ i ∈ k.instructions, 0 < i.size

/-- The two blocks hold the instructions of the first one in their order and meet at the address. -/
structure FallsInto (a : Int) (k head tail : Block) : Prop where
  instructions : head.instructions ++ tail.instructions = k.instructions
  headLaid : head.Laid
  tailLaid : tail.Laid
  headAddress : head.address = k.address
  tailAddress : tail.address = a
  headStop : head.stop = a
  tailStop : tail.stop = k.stop
  headEnds : head.isExit = false ∧ head.continuesAt = some a
  tailEnds : tail.isExit = k.isExit ∧ tail.continuesAt = k.continuesAt
  headTargets : head.targets ⊆ k.targets
  tailTargets : tail.targets ⊆ k.targets

variable {k : Block} {a : Int} {i : Instruction} {before after : List Instruction}

theorem size_cons (k : Block) (i : Instruction) (is : List Instruction) :
    { k with instructions := i :: is }.size = i.size + { k with instructions := is }.size := rfl

/-- In instructions that stand one behind the other, one begins where those before it end. -/
theorem address_of_chain (k : Block) {first : Instruction} {rest : List Instruction}
    (hc : (before ++ i :: after).IsChain fun i j => j.address = i.stop) (he : before ++ i :: after = first :: rest) :
    first.address + { k with instructions := before }.size = i.address := by
  induction before generalizing first rest with
  | nil =>
    obtain ⟨rfl, rfl⟩ := List.cons.inj he
    simp [size]
  | cons x before ih =>
    obtain ⟨rfl, rfl⟩ := List.cons.inj he
    rw [List.cons_append, List.isChain_cons] at hc
    obtain ⟨hnext, hrest⟩ := hc
    have hne : before ++ i :: after ≠ [] := List.append_ne_nil_of_right_ne_nil before (List.cons_ne_nil i after)
    obtain ⟨y, ys, hy⟩ := List.exists_cons_of_ne_nil hne
    have haddress : y.address = x.stop := hnext y (by rw [hy]; rfl)
    rw [size_cons, ← ih hrest hy, haddress, Instruction.stop, Int.add_assoc]

/-- Both parts of a block that is cut behind its start are laid out, and they meet at the cut. -/
theorem Laid.cut (hk : k.Laid) (hi : k.instructions = before ++ i :: after) (ha : i.address = a) (hne : k.address ≠ a)
    {ts us : List Int} (hts : ts ⊆ k.targets) (hus : us ⊆ k.targets) :
    FallsInto a k ⟨k.address, before, false, some a, ts⟩ ⟨a, i :: after, k.isExit, k.continuesAt, us⟩ := by
  obtain ⟨first, rest, hfirst, hbegins⟩ := hk.begins
  have hchain := hi ▸ hk.contiguous
  have hmeet : k.address + { k with instructions := before }.size = a := by
    rw [← ha, ← hbegins]
    exact k.address_of_chain hchain (hi.symm.trans hfirst)
  have hsize : k.size = { k with instructions := before }.size + { k with instructions := i :: after }.size := by
    rw [← size_append, ← hi]
  have hbefore : ∃ x xs, before = x :: xs ∧ x.address = k.address := by
    cases before with
    | nil =>
      obtain ⟨rfl, -⟩ := List.cons.inj (hi.symm.trans hfirst)
      exact absurd (hbegins.symm.trans ha) hne
    | cons x xs =>
      obtain ⟨rfl, -⟩ := List.cons.inj (hi.symm.trans hfirst)
      exact ⟨x, xs, rfl, hbegins⟩
  have hstop : a + { k with instructions := i :: after }.size = k.stop := by
    rw [stop, hsize, ← hmeet, Int.add_assoc]
  obtain ⟨hleft, hright, -⟩ := List.isChain_append.mp hchain
  have hpositive : ∀ j ∈ before ++ i :: after, 0 < j.size := hi ▸ hk.positive
  exact {
    instructions := hi.symm
    headLaid := ⟨hbefore, hleft, fun j hj => hpositive j (List.mem_append_left _ hj)⟩
    tailLaid := ⟨⟨i, after, rfl, ha⟩, hright, fun j hj => hpositive j (List.mem_append_right _ hj)⟩
    headAddress := rfl
    tailAddress := rfl
    headStop := hmeet
    tailStop := hstop
    headEnds := ⟨rfl, rfl⟩
    tailEnds := ⟨rfl, rfl⟩
    headTargets := hts
    tailTargets := hus }

end Block

namespace Graph

variable {g h : Graph} {a : Int}

/-- The graph after an attempt to cut it. -/
def cutAt (g : Graph) (a : Int) : Graph := (g.split? a).getD g

theorem isSome_split?_iff (g : Graph) (a : Int) :
    (g.split? a).isSome ↔ ∃ k, g.blockAround? a = some k ∧ ∃ i ∈ k.instructions, i.address = a := by
  rw [Option.isSome_iff_ne_none, Ne, split?_eq_none_iff]
  push Not
  rfl

/-- A cut moves the instructions of the first block around the address, from the one at the address on, into a new block
behind the others. Where no instruction of that block begins at the address, the graph stays as it is. -/
theorem cutAt_moves (hn : g.starts.Nodup) (hlaid : ∀ k ∈ g.blocks, k.Laid) (ha : a ∉ g.starts) :
    ((g.split? a).isSome ↔ ∃ k, g.blockAround? a = some k ∧ ∃ i ∈ k.instructions, i.address = a) ∧
      (¬(g.split? a).isSome → g.cutAt a = g) ∧
      ((g.split? a).isSome → (g.cutAt a).starts = g.starts ++ [a] ∧
        ∃ before k after head tail, g.blocks = before ++ k :: after ∧ g.blockAround? a = some k ∧
          k.FallsInto a head tail ∧ g.cutAt a = { g with blocks := before ++ head :: after ++ [tail] }) := by
  refine ⟨g.isSome_split?_iff a, ?_, ?_⟩
  · intro hs
    rw [cutAt, Option.not_isSome_iff_eq_none.mp hs, Option.getD_none]
  · intro hs
    obtain ⟨h, hs⟩ := Option.isSome_iff_exists.mp hs
    rw [cutAt, hs, Option.getD_some]
    obtain ⟨before, k, after, head, tail, hblocks, hfound, hcut, he⟩ := split?_eq_some hs ha hn
    have hk : k ∈ g.blocks := List.mem_of_find?_eq_some hfound
    obtain ⟨xs, ys, ts, us, hparts, rfl, rfl, hts, hus⟩ := cutBlock_parts hcut
    obtain ⟨hi, -, i, rest, rfl, hia⟩ := cutInstructions_eq_some hparts
    have hne : k.address ≠ a := fun hka => ha ((g.mem_starts a).mpr ⟨k, hk, hka⟩)
    exact ⟨starts_split? hs ha, before, k, after, _, _, hblocks, hfound,
      (hlaid k hk).cut hi hia hne hts hus, he⟩

/-- Two blocks of which the second begins inside the first one's last instruction. -/
def overlappingRuns : Graph where
  base := 0
  entry := 0
  blocks := [
    ⟨0, [⟨0, 1, "nop", "", []⟩, ⟨1, 2, "je", "0x9", []⟩, ⟨3, 2, "mov", "al, 1", []⟩], false, some 5, [9]⟩,
    ⟨4, [⟨4, 1, "inc", "", []⟩, ⟨5, 1, "ret", "", []⟩], true, none, []⟩]
  references := [⟨9, 1⟩]

theorem cutAt_moves_overlappingRuns :
    overlappingRuns.starts.Nodup ∧ (∀ k ∈ overlappingRuns.blocks, k.Laid) ∧ 3 ∉ overlappingRuns.starts ∧
      (overlappingRuns.split? 3).isSome ∧ ∃ before k after head tail,
        overlappingRuns.blocks = before ++ k :: after ∧ k.FallsInto 3 head tail ∧
          overlappingRuns.cutAt 3 = { overlappingRuns with blocks := before ++ head :: after ++ [tail] } := by
  have hn : overlappingRuns.starts.Nodup := by decide
  have hlaid : ∀ k ∈ overlappingRuns.blocks, k.Laid := by
    intro k hk
    simp only [overlappingRuns, List.mem_cons, List.not_mem_nil, or_false] at hk
    rcases hk with rfl | rfl
    · exact ⟨⟨_, _, rfl, rfl⟩, by decide, by decide⟩
    · exact ⟨⟨_, _, rfl, rfl⟩, by decide, by decide⟩
  have ha : 3 ∉ overlappingRuns.starts := by decide
  have hs : (overlappingRuns.split? 3).isSome := by decide
  obtain ⟨-, -, hcut⟩ := cutAt_moves hn hlaid ha
  obtain ⟨-, before, k, after, head, tail, hblocks, -, hparts, he⟩ := hcut hs
  exact ⟨hn, hlaid, ha, hs, before, k, after, head, tail, hblocks, hparts, he⟩

end Graph

end AssemblyConsole
