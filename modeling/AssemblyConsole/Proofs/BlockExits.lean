import AssemblyConsole.Proofs.BlockExtent
import AssemblyConsole.Proofs.Leaders

/-!
When a block is marked as one from which control goes no further in the buffer. The mark is right except after two
kinds of instruction: a block that ends in a jump out of the buffer is not marked, and one that ends in a conditional
jump at the end of the buffer is marked even if the jump leads back into it.
-/

namespace AssemblyConsole

open AssemblyConsole.Action Buffer Progress

namespace Decoded

def JumpsOut (b : Buffer) (d : Decoded) : Prop := d.flow = .jump ∧ ∃ c, d.target = some c ∧ ¬b.Holds c

def BranchesAtEnd (b : Buffer) (d : Decoded) : Prop :=
  d.flow = .conditional ∧ ¬b.Holds d.instruction.stop ∧ ∃ c, d.target = some c ∧ b.Holds c

end Decoded

namespace Block

/-- Control may go on to an address of the buffer from the end of the block, where the instruction is. -/
def GoesOnWithin (b : Buffer) (k : Block) (last : Decoded) : Prop :=
  k.continuesAt ≠ none ∨ (last.flow = .jump ∨ last.flow = .conditional) ∧ ∃ c, last.target = some c ∧ b.Holds c

variable {code : Int → Option Decoded} {b : Buffer} {k : Block} {run : List Decoded} {last : Decoded}

theorem Consists.goesOnWithin_iff (hk : k.Consists code b run last) : k.GoesOnWithin b last ↔
    last.continuesAt? b ≠ none ∨
      (last.flow = .jump ∨ last.flow = .conditional) ∧ ∃ c, last.target = some c ∧ b.Holds c := by
  rw [GoesOnWithin, hk.continuesAt]

theorem Consists.isExit_of_jumpsOut (hk : k.Consists code b run last) (h : last.JumpsOut b) :
    k.isExit = false ∧ ¬k.GoesOnWithin b last := by
  obtain ⟨hflow, c, htarget, hout⟩ := h
  rw [hk.goesOnWithin_iff, hk.isExit]
  simp [Decoded.isExit, Decoded.continuesAt?, hflow, htarget, hout]

theorem Consists.isExit_of_branchesAtEnd (hk : k.Consists code b run last) (h : last.BranchesAtEnd b) :
    k.isExit = true ∧ k.GoesOnWithin b last := by
  obtain ⟨hflow, hend, hback⟩ := h
  rw [hk.goesOnWithin_iff, hk.isExit]
  refine ⟨?_, .inr ⟨.inr hflow, hback⟩⟩
  simp [Decoded.isExit, hflow, hend]

theorem Consists.isExit_iff (hk : k.Consists code b run last) (hout : ¬last.JumpsOut b)
    (hend : ¬last.BranchesAtEnd b) : k.isExit = true ↔ ¬k.GoesOnWithin b last := by
  rw [hk.goesOnWithin_iff, hk.isExit]
  cases hflow : last.flow with
  | returning => simp [Decoded.isExit, Decoded.continuesAt?, hflow]
  | next | call => by_cases hstop : b.Holds last.instruction.stop <;>
      simp [Decoded.isExit, Decoded.continuesAt?, hflow, hstop]
  | jump =>
    cases htarget : last.target with
    | none => simp [Decoded.isExit, Decoded.continuesAt?, hflow, htarget]
    | some c =>
      have hinside : b.Holds c := by
        by_contra hc
        exact hout ⟨hflow, c, htarget, hc⟩
      simp [Decoded.isExit, htarget, hflow, hinside]
  | conditional =>
    by_cases hstop : b.Holds last.instruction.stop
    · simp [Decoded.isExit, Decoded.continuesAt?, hflow, hstop]
    · have hback : ¬∃ c, last.target = some c ∧ b.Holds c := fun hback => hend ⟨hflow, hstop, hback⟩
      simp [Decoded.isExit, Decoded.continuesAt?, hflow, hstop, hback]

end Block

variable {code : Int → Option Decoded} {b : Buffer} {entry : Int}

/-- Where control goes on in the buffer a block begins. -/
theorem Progress.Tracks.goesOnWithin_iff (hc : b.Carries code) {g : Graph} (hg : Tracks code entry (b := b) ⟨[], g⟩)
    {k : Block} (hk : k ∈ g.blocks) {run : List Decoded} {last : Decoded} (hlast : k.Consists code b run last) :
    k.GoesOnWithin b last ↔ ∃ l ∈ g.blocks, k.continuesAt = some l.address ∨
      (last.flow = .jump ∨ last.flow = .conditional) ∧ last.target = some l.address := by
  have begins {c : Int} (h : Knows (b := b) ⟨[], g⟩ c) : ∃ l ∈ g.blocks, l.address = c :=
    (g.mem_starts c).mp (mem_starts_of_knows h)
  constructor
  · rintro (hcont | ⟨hflow, c, htarget, hin⟩)
    · obtain ⟨c, hcont⟩ := Option.ne_none_iff_exists'.mp hcont
      obtain ⟨l, hl, rfl⟩ := begins (hg.coherent.continues k hk c hcont)
      exact ⟨l, hl, .inl hcont⟩
    · have hmem : last.instruction ∈ k.instructions := (hlast.mem_instructions hc hlast.closed).mpr (by simp)
      obtain ⟨l, hl, rfl⟩ := begins (hg.targets last ⟨hlast.closed, k, hk, hmem⟩ c htarget hin)
      exact ⟨l, hl, .inr ⟨hflow, htarget⟩⟩
  · rintro ⟨l, hl, hcont | ⟨hflow, htarget⟩⟩
    · exact .inl (by simp [hcont])
    · obtain ⟨d, hd, hl⟩ := hg.coherent.begins hc ((g.mem_starts l.address).mpr ⟨l, hl, rfl⟩)
      exact .inr ⟨hflow, l.address, htarget, hl ▸ hc.holds hd.1⟩

namespace Disassembler

variable {env : Environment} {a : Architecture} {find : InstructionAt}

/-- A block is marked exactly if control goes on to no block of the graph, unless its last instruction is a jump out of
the buffer, which leaves it unmarked, or a conditional jump from the buffer's end back into it, which has it marked. -/
theorem graph_isExit_iff (h : Local env a find) {s : Session} (hs : s.Sound env) {g : Graph}
    (hg : ((graph env a b entry).outcome s).1 = .ok g) : ∀ k ∈ g.blocks, ∃ last,
      k.instructions.getLast? = some last.instruction ∧
      b.decodedAt find a.set last.instruction.address = some last ∧
      (last.JumpsOut b → k.isExit = false ∧ ¬k.GoesOnWithin b last) ∧
      (last.BranchesAtEnd b → k.isExit = true ∧ k.GoesOnWithin b last) ∧
      (¬last.JumpsOut b → ¬last.BranchesAtEnd b → (k.isExit = true ↔ ¬k.GoesOnWithin b last)) ∧
      (k.GoesOnWithin b last ↔ ∃ l ∈ g.blocks, k.continuesAt = some l.address ∨
        (last.flow = .jump ∨ last.flow = .conditional) ∧ last.target = some l.address) := by
  intro k hk
  rcases h.graph_runs hs hg with ⟨-, hnone⟩ | ⟨he, hr⟩
  · rw [hnone] at hk
    simp at hk
  · have hc := b.carries_decodedAt a.set h.fits
    have ht := runs_tracks hc he hr
    obtain ⟨run, last, hlast⟩ := ht.coherent.shaped k hk
    refine ⟨last, ?_, hlast.closed, hlast.isExit_of_jumpsOut, hlast.isExit_of_branchesAtEnd, hlast.isExit_iff,
      ht.goesOnWithin_iff hc hk hlast⟩
    rw [hlast.instructions, List.map_append, List.map_singleton, List.getLast?_concat]

/-- Knows short jumps, and conditional ones, in either direction. -/
def nearJumps : InstructionAt := fun address bytes =>
  match bytes with
  | 0xeb :: n :: _ => some ⟨address, [0xeb, n], "jmp", Text.hexMarked (address + 2 + n.toInt8.toInt), []⟩
  | 0x74 :: n :: _ => some ⟨address, [0x74, n], "je", Text.hexMarked (address + 2 + n.toInt8.toInt), []⟩
  | _ => none

def nearJumpEnvironment : Environment where
  assembler := shortJumpEnvironment.assembler
  disassembler := ⟨fun _ _ => none, fun _ _ bytes address => .ok (sweep nearJumps address bytes)⟩

theorem local_nearJumps : Local nearJumpEnvironment ⟨.x86, .bits32, .little, .ordinary⟩ nearJumps := by
  refine ⟨⟨⟨3, 4⟩, by decide, fun _ => rfl, fun _ _ _ => rfl⟩, ?_⟩
  intro a bytes i hi
  unfold nearJumps at hi
  split at hi
  case h_3 => simp at hi
  all_goals
    obtain rfl := Option.some.inj hi
    simp

/-- A conditional jump over a jump out of the buffer, and behind both a conditional jump back to the beginning. -/
def jumpsAtEnd : Buffer := ⟨0x1000, [0x74, 0x02, 0xeb, 0x10, 0x74, 0xfa]⟩

def jumpOutBlock : Block := ⟨0x1002, [⟨0x1002, 2, "jmp", "0x1014", [0xeb, 0x10]⟩], false, none, [0x1014]⟩

def jumpBackBlock : Block := ⟨0x1004, [⟨0x1004, 2, "je", "0x1000", [0x74, 0xfa]⟩], true, none, [0x1000]⟩

def jumpsAtEndGraph : Graph where
  base := 0x1000
  entry := 0x1000
  blocks := [⟨0x1000, [⟨0x1000, 2, "je", "0x1004", [0x74, 0x02]⟩], false, some 0x1002, [0x1004]⟩, jumpBackBlock,
    jumpOutBlock]
  references := [⟨0x1004, 0x1000⟩, ⟨0x1000, 0x1004⟩, ⟨0x1014, 0x1002⟩]

theorem outcome_jumpsAtEnd : ((graph nearJumpEnvironment ⟨.x86, .bits32, .little, .ordinary⟩ jumpsAtEnd
    0x1000).outcome {}).1 = .ok jumpsAtEndGraph := by
  cbv

def jumpOut : Decoded := ⟨⟨0x1002, 2, "jmp", "0x1014", [0xeb, 0x10]⟩, .jump, some 0x1014⟩

def jumpBackAtEnd : Decoded := ⟨⟨0x1004, 2, "je", "0x1000", [0x74, 0xfa]⟩, .conditional, some 0x1000⟩

theorem decodedAt_jumpsAtEnd : jumpsAtEnd.decodedAt nearJumps .x86 0x1002 = some jumpOut ∧
    jumpsAtEnd.decodedAt nearJumps .x86 0x1004 = some jumpBackAtEnd := by
  constructor <;> cbv

theorem graph_isExit_iff_jumpsAtEnd :
    Local nearJumpEnvironment ⟨.x86, .bits32, .little, .ordinary⟩ nearJumps ∧
      Session.Sound nearJumpEnvironment {} ∧
      ((graph nearJumpEnvironment ⟨.x86, .bits32, .little, .ordinary⟩ jumpsAtEnd 0x1000).outcome {}).1 =
        .ok jumpsAtEndGraph ∧
      jumpOutBlock ∈ jumpsAtEndGraph.blocks ∧ jumpOut.JumpsOut jumpsAtEnd ∧ jumpOutBlock.isExit = false ∧
      ¬jumpOutBlock.GoesOnWithin jumpsAtEnd jumpOut ∧
      jumpBackBlock ∈ jumpsAtEndGraph.blocks ∧ jumpBackAtEnd.BranchesAtEnd jumpsAtEnd ∧
      jumpBackBlock.isExit = true ∧ jumpBackBlock.GoesOnWithin jumpsAtEnd jumpBackAtEnd := by
  have hs := Session.sound_empty nearJumpEnvironment
  have h := graph_isExit_iff local_nearJumps hs outcome_jumpsAtEnd
  have hout : jumpOutBlock ∈ jumpsAtEndGraph.blocks := by decide
  have hback : jumpBackBlock ∈ jumpsAtEndGraph.blocks := by decide
  have hjumpsOut : jumpOut.JumpsOut jumpsAtEnd := ⟨rfl, 0x1014, rfl, by decide⟩
  have hbranches : jumpBackAtEnd.BranchesAtEnd jumpsAtEnd := ⟨rfl, by decide, 0x1000, rfl, by decide⟩
  obtain ⟨last, hlast, hcode, hexit, -⟩ := h _ hout
  obtain ⟨last', hlast', hcode', -, hexit', -⟩ := h _ hback
  rw [← Option.some.inj hlast] at hcode
  rw [← Option.some.inj hlast'] at hcode'
  obtain rfl := Option.some.inj (hcode.symm.trans decodedAt_jumpsAtEnd.1)
  obtain rfl := Option.some.inj (hcode'.symm.trans decodedAt_jumpsAtEnd.2)
  obtain ⟨hunmarked, hleaves⟩ := hexit hjumpsOut
  obtain ⟨hmarked, hstays⟩ := hexit' hbranches
  exact ⟨local_nearJumps, hs, outcome_jumpsAtEnd, hout, hjumpsOut, hunmarked, hleaves, hback, hbranches, hmarked,
    hstays⟩

/-- A block that ends in a jump out of the buffer is not marked. -/
theorem isExit_wrong_jumpsAtEnd :
    ¬∀ (env : Environment) (a : Architecture) (find : InstructionAt) (b : Buffer) (entry : Int) (s : Session)
      (g : Graph), Local env a find → s.Sound env → ((graph env a b entry).outcome s).1 = .ok g →
        ∀ k ∈ g.blocks, ∀ last, k.instructions.getLast? = some last.instruction →
          b.decodedAt find a.set last.instruction.address = some last →
            (k.isExit = true ↔ ¬k.GoesOnWithin b last) := by
  intro hall
  have hs := Session.sound_empty nearJumpEnvironment
  have hout : jumpOutBlock ∈ jumpsAtEndGraph.blocks := by decide
  have hexit := (hall _ _ _ _ _ _ _ local_nearJumps hs outcome_jumpsAtEnd _ hout jumpOut rfl
    decodedAt_jumpsAtEnd.1).mpr
  have hleaves : ¬jumpOutBlock.GoesOnWithin jumpsAtEnd jumpOut := by
    rintro (hcont | ⟨-, c, htarget, hin⟩)
    · exact hcont rfl
    · obtain rfl := Option.some.inj htarget
      exact absurd hin (by decide)
  exact absurd (hexit hleaves) (by decide)

end Disassembler

end AssemblyConsole
