import AssemblyConsole.Proofs.BlockExtent
import AssemblyConsole.Proofs.Leaders

/-!
Every block of a graph is well formed: instructions read off the buffer one behind the other, of which only the last
may keep control from falling through, and an exit that agrees with the last.
-/

namespace AssemblyConsole

open AssemblyConsole.Action Buffer Progress

def Buffer.slice (b : Buffer) (address size : Int) : Bytes := (b.bytesFrom address).take size.toNat

namespace Block

/-- The block passes control on as an instruction at its end does. -/
def EndsWith (b : Buffer) (k : Block) (d : Decoded) : Prop :=
  match d.flow with
  | .returning => k.isExit = true ∧ k.continuesAt = none
  | .jump => (k.isExit = true ↔ d.target = none) ∧ k.continuesAt = none
  | .next | .call | .conditional =>
    (b.Holds k.stop → k.isExit = false ∧ k.continuesAt = some k.stop) ∧
      (¬b.Holds k.stop → k.isExit = true ∧ k.continuesAt = none)

structure WellFormed (code : Int → Option Decoded) (b : Buffer) (k : Block) : Prop where
  begins : ∃ i rest, k.instructions = i :: rest ∧ i.address = k.address
  contiguous : k.instructions.IsChain fun i j => j.address = i.stop
  inside : ∀ i ∈ k.instructions, b.base ≤ i.address ∧ i.address < i.stop ∧ i.stop ≤ b.stop
  raw : ∀ i ∈ k.instructions, i.raw = b.slice i.address i.size
  falls : ∀ i ∈ k.instructions.dropLast, ∃ d, code i.address = some d ∧ d.instruction = i ∧ d.flow.GoesOn
  ends : ∃ d, k.instructions.getLast? = some d.instruction ∧ code d.instruction.address = some d ∧
    d.instruction.stop = k.stop ∧ k.EndsWith b d

variable {code : Int → Option Decoded} {b : Buffer} {k : Block} {run : List Decoded} {last : Decoded}

theorem Consists.endsWith (hc : b.Carries code) (hk : k.Consists code b run last) : k.EndsWith b last := by
  have hexit := hk.isExit
  have hcontinues := hk.continuesAt
  rw [Decoded.isExit, ← hk.stop hc] at hexit
  rw [Decoded.continuesAt?, ← hk.stop hc] at hcontinues
  unfold EndsWith
  cases hflow : last.flow with
  | returning =>
    rw [hflow] at hexit hcontinues
    exact ⟨hexit, hcontinues⟩
  | jump =>
    rw [hflow] at hexit hcontinues
    exact ⟨by rw [hexit, Option.isNone_iff_eq_none], hcontinues⟩
  | next | call | conditional =>
    rw [hflow] at hexit hcontinues
    constructor
    · intro hh
      simpa [hh] using And.intro hexit hcontinues
    · intro hh
      simpa [hh] using And.intro hexit hcontinues

theorem Shaped.wellFormed (hc : b.Carries code)
    (hraw : ∀ c d, code c = some d → d.instruction.raw = b.slice c d.instruction.size) (hk : k.Shaped code b) :
    k.WellFormed code b := by
  have hshaped := hk
  obtain ⟨run, last, hk⟩ := hk
  constructor
  · exact hk.begins hc
  · rw [hk.instructions]
    exact hk.contiguous.chain hc
  · intro i hi
    obtain ⟨d, hd, rfl⟩ := hshaped.decoded hc hi
    exact ⟨(hc.holds hd).1, hc.lt_stop hd, hc.stop_le hd⟩
  · intro i hi
    obtain ⟨d, hd, rfl⟩ := hshaped.decoded hc hi
    exact hraw _ d hd
  · intro i hi
    rw [hk.instructions, List.map_append, List.map_singleton, List.dropLast_concat] at hi
    obtain ⟨d, hd, rfl⟩ := List.mem_map.mp hi
    exact ⟨d, hk.falls.decoded hc d hd, rfl, hk.falls.goesOn d hd⟩
  · refine ⟨last, ?_, hk.closed, (hk.stop hc).symm, hk.endsWith hc⟩
    rw [hk.instructions, List.map_append, List.map_singleton, List.getLast?_concat]

end Block

theorem raw_decodedAt {find : InstructionAt} {set : InstructionSet} {b : Buffer} (hf : find.Fits) {c : Int} {d : Decoded}
    (hd : b.decodedAt find set c = some d) : d.instruction.raw = b.slice c d.instruction.size := by
  obtain ⟨-, i, hi, -, rfl⟩ := decodedAt_eq_some_iff.mp hd
  have hfirst := (hf _ _ _ hi).2
  exact List.prefix_iff_eq_take.mp hfirst

namespace Disassembler

variable {env : Environment} {a : Architecture} {find : InstructionAt} {b : Buffer} {entry : Int}

theorem graph_blocks_wellFormed (h : Local env a find) {s : Session} (hs : s.Sound env) {g : Graph}
    (hg : ((graph env a b entry).outcome s).1 = .ok g) : ∀ k ∈ g.blocks,
      k.WellFormed (b.decodedAt find a.set) b ∧ ∀ c, k.continuesAt = some c → c ∈ g.starts := by
  intro k hk
  rcases h.graph_runs hs hg with ⟨-, hnone⟩ | ⟨he, hr⟩
  · rw [hnone] at hk
    simp at hk
  · have hc := b.carries_decodedAt a.set h.fits
    have ht := (runs_tracks hc he hr).coherent
    refine ⟨(ht.shaped k hk).wellFormed hc fun _ _ => raw_decodedAt h.fits, ?_⟩
    intro c hcontinues
    simpa [Knows] using ht.continues k hk c hcontinues

theorem graph_blocks_wellFormed_skipOne : ∃ g : Graph, ∃ k : Block,
    Local shortJumpEnvironment ⟨.x86, .bits32, .little, .ordinary⟩ shortJumps ∧
      Session.Sound shortJumpEnvironment {} ∧
      ((graph shortJumpEnvironment ⟨.x86, .bits32, .little, .ordinary⟩ skipOne 0x1000).outcome {}).1 = .ok g ∧
      k ∈ g.blocks ∧ k.address = 0x1002 ∧ k.continuesAt = some 0x1003 ∧
      k.WellFormed (skipOne.decodedAt shortJumps .x86) skipOne ∧ 0x1003 ∈ g.starts := by
  have hs := Session.sound_empty shortJumpEnvironment
  have h := graph_blocks_wellFormed local_shortJumps hs outcome_skipOne
  obtain ⟨hform, hcontinues⟩ := h _ (List.mem_cons_of_mem _ (List.mem_cons_of_mem _ List.mem_cons_self))
  exact ⟨_, _, local_shortJumps, hs, outcome_skipOne,
    List.mem_cons_of_mem _ (List.mem_cons_of_mem _ List.mem_cons_self), rfl, rfl, hform, hcontinues _ rfl⟩

end Disassembler

end AssemblyConsole
