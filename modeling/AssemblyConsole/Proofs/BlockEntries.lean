import AssemblyConsole.Proofs.SingleEntry

/-!
Code that overlaps itself. A block may then hold the start of another block behind its first instruction, since a
block is cut only if it is the first one found around the address. It does so only behind an overlap.
-/

namespace AssemblyConsole

open AssemblyConsole.Action Buffer Progress

/-- Knows a move of a byte and a short jump forward, beside what `shortJumps` knows. -/
def shortMoves : InstructionAt := fun address bytes =>
  match bytes with
  | 0xb0 :: n :: _ => some ⟨address, [0xb0, n], "mov", "al, " ++ Text.hexMarked n.toNat, []⟩
  | 0xeb :: n :: _ => some ⟨address, [0xeb, n], "jmp", Text.hexMarked (address + 2 + n.toNat), []⟩
  | _ => shortJumps address bytes

def shortMoveEnvironment : Environment where
  assembler := shortJumpEnvironment.assembler
  disassembler := ⟨fun _ _ => none, fun _ _ bytes address => .ok (sweep shortMoves address bytes)⟩

theorem fits_shortMoves : shortMoves.Fits := by
  intro a bytes i hi
  unfold shortMoves at hi
  split at hi
  case h_3 => exact fits_shortJumps a _ i hi
  all_goals
    obtain rfl := Option.some.inj hi
    simp

theorem local_shortMoves : Disassembler.Local shortMoveEnvironment ⟨.x86, .bits32, .little, .ordinary⟩ shortMoves :=
  ⟨⟨⟨3, 4⟩, by decide, fun _ => rfl, fun _ _ _ => rfl⟩, fits_shortMoves⟩

namespace Disassembler

variable {env : Environment} {a : Architecture} {find : InstructionAt} {b : Buffer} {entry : Int}

/-- A block that holds the start of another one, not as its own first instruction, does so behind an overlap. This is
so at each point of a traversal, in whatever order addresses are taken from the queue. -/
theorem graph_entersBehindOverlaps (h : Local env a find) {s : Session} (hs : s.Sound env) {g : Graph}
    (hg : ((graph env a b entry).outcome s).1 = .ok g) :
    (∀ k ∈ g.blocks, ∀ i ∈ k.instructions.tail, i.address ∈ g.starts →
      b.BehindOverlap (b.decodedAt find a.set) entry i.address) ∧
    ∀ (he : b.Holds entry) (p : Progress b),
      RunsInAnyOrder a (Swept (b.decodedAt find a.set)) (start b entry he) p →
        p.graph.EntersBehindOverlaps b (b.decodedAt find a.set) entry := by
  have hc := b.carries_decodedAt a.set h.fits
  constructor
  · intro k hk i hi hstart
    rcases h.graph_runs hs hg with ⟨-, hnone⟩ | ⟨he, hr⟩
    · rw [hnone] at hk
      simp at hk
    · obtain ⟨ht, hb⟩ := runsInAnyOrder_entersBehindOverlaps hc he hr.inAnyOrder
      have hlt := (ht.coherent.shaped k hk).lt_of_mem_tail hc hi
      rcases hb k hk i (List.mem_of_mem_tail hi) hstart with hfirst | hbehind
      · omega
      · exact hbehind
  · intro he p hr
    exact (runsInAnyOrder_entersBehindOverlaps hc he hr).2

/-- Two moves overlap in front of an instruction without effect. Three conditional jumps lead to the second of them, to
the first, and to the instruction behind both, in this order. -/
def overlappingMoves : Buffer := ⟨0x1000, [0x74, 0x06, 0x74, 0x03, 0x74, 0x03, 0xc3, 0xb0, 0xb0, 0x90, 0xc3]⟩

/-- The block of the first move, which runs on through the instruction behind both. -/
def firstMove : Block where
  address := 0x1007
  instructions := [⟨0x1007, 2, "mov", "al, 0xb0", [0xb0, 0xb0]⟩, ⟨0x1009, 1, "nop", "", [0x90]⟩,
    ⟨0x100a, 1, "ret", "", [0xc3]⟩]
  isExit := true

def overlappingGraph : Graph where
  base := 0x1000
  entry := 0x1000
  blocks := [
    ⟨0x1000, [⟨0x1000, 2, "je", "0x1008", [0x74, 0x06]⟩], false, some 0x1002, [0x1008]⟩,
    ⟨0x1008, [⟨0x1008, 2, "mov", "al, 0x90", [0xb0, 0x90]⟩, ⟨0x100a, 1, "ret", "", [0xc3]⟩], true, none, []⟩,
    ⟨0x1002, [⟨0x1002, 2, "je", "0x1007", [0x74, 0x03]⟩], false, some 0x1004, [0x1007]⟩,
    firstMove,
    ⟨0x1004, [⟨0x1004, 2, "je", "0x1009", [0x74, 0x03]⟩], false, some 0x1006, [0x1009]⟩,
    ⟨0x1009, [⟨0x1009, 1, "nop", "", [0x90]⟩, ⟨0x100a, 1, "ret", "", [0xc3]⟩], true, none, []⟩,
    ⟨0x1006, [⟨0x1006, 1, "ret", "", [0xc3]⟩], true, none, []⟩]
  references := [⟨0x1008, 0x1000⟩, ⟨0x1007, 0x1002⟩, ⟨0x1009, 0x1004⟩]

theorem outcome_overlappingMoves : ((graph shortMoveEnvironment ⟨.x86, .bits32, .little, .ordinary⟩ overlappingMoves
    0x1000).outcome {}).1 = .ok overlappingGraph := by
  cbv

theorem graph_entersBehindOverlaps_overlappingMoves :
    Local shortMoveEnvironment ⟨.x86, .bits32, .little, .ordinary⟩ shortMoves ∧
      Session.Sound shortMoveEnvironment {} ∧
      ((graph shortMoveEnvironment ⟨.x86, .bits32, .little, .ordinary⟩ overlappingMoves 0x1000).outcome {}).1 =
        .ok overlappingGraph ∧
      firstMove ∈ overlappingGraph.blocks ∧ (∃ i ∈ firstMove.instructions.tail, i.address = 0x1009) ∧
      0x1009 ∈ overlappingGraph.starts ∧
      overlappingMoves.BehindOverlap (overlappingMoves.decodedAt shortMoves .x86) 0x1000 0x1009 ∧
      ∃ he : overlappingMoves.Holds 0x1000, (start overlappingMoves 0x1000 he).graph.EntersBehindOverlaps
        overlappingMoves (overlappingMoves.decodedAt shortMoves .x86) 0x1000 := by
  have hs := Session.sound_empty shortMoveEnvironment
  obtain ⟨hbehind, hruns⟩ := graph_entersBehindOverlaps local_shortMoves hs outcome_overlappingMoves
  have hk : firstMove ∈ overlappingGraph.blocks := by decide
  have hi : ⟨0x1009, 1, "nop", "", [0x90]⟩ ∈ firstMove.instructions.tail := by decide
  have hstart : 0x1009 ∈ overlappingGraph.starts := by decide
  have he : overlappingMoves.Holds 0x1000 := by decide
  exact ⟨local_shortMoves, hs, outcome_overlappingMoves, hk, ⟨_, hi, rfl⟩, hstart, hbehind _ hk _ hi hstart, he,
    hruns he _ .refl⟩

/-- With overlaps a block may be entered behind its first instruction. -/
theorem second_entry_overlappingMoves :
    ¬∀ (env : Environment) (a : Architecture) (find : InstructionAt) (b : Buffer) (entry : Int) (s : Session)
      (g : Graph), Local env a find → s.Sound env → ((graph env a b entry).outcome s).1 = .ok g →
        ∀ k ∈ g.blocks, ∀ i ∈ k.instructions.tail, i.address ∉ g.starts := by
  intro hall
  have hs := Session.sound_empty shortMoveEnvironment
  have hk : firstMove ∈ overlappingGraph.blocks := by decide
  have hi : ⟨0x1009, 1, "nop", "", [0x90]⟩ ∈ firstMove.instructions.tail := by decide
  have hstart : 0x1009 ∈ overlappingGraph.starts := by decide
  exact hall _ _ _ _ _ _ _ local_shortMoves hs outcome_overlappingMoves _ hk _ hi hstart

end Disassembler

end AssemblyConsole
