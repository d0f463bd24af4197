import AssemblyConsole.Proofs.Reachability

/-!
Blocks begin at the entry, at the addresses that instructions name, and behind conditional jumps, and nowhere else.
-/

namespace AssemblyConsole

open AssemblyConsole.Action Buffer Progress

variable {code : Int → Option Decoded} {b : Buffer} {entry : Int}

/-- A reason for a block to begin at the address. -/
def Graph.Leader (code : Int → Option Decoded) (b : Buffer) (entry : Int) (g : Graph) (c : Int) : Prop :=
  c = entry ∨ b.Holds c ∧ ∃ d, g.Shows code d ∧ d.Branches c

theorem mem_starts_iff_leader (hc : b.Carries code) {g : Graph} (hg : Tracks code entry (b := b) ⟨[], g⟩) (c : Int) :
    c ∈ g.starts ↔ g.Leader code b entry c := by
  constructor
  · intro h
    exact hg.leads c (.inl h)
  · rintro (rfl | ⟨hh, d, hd, ht | ⟨hw, rfl⟩⟩)
    · exact mem_starts_of_knows hg.knowsEntry
    · exact mem_starts_of_knows (hg.targets d hd c ht hh)
    · exact mem_starts_of_knows ((hg.coherent.passes hc hd hh).1 hw)

/-- The addresses of the buffer that a graph refers to anywhere. -/
def Graph.RefersTo (g : Graph) (b : Buffer) (c : Int) : Prop :=
  b.Holds c ∧ ((∃ r ∈ g.references, r.target = c) ∨ ∃ k ∈ g.blocks, c ∈ k.successors)

theorem mem_starts_of_refersTo {g : Graph} (hg : Tracks code entry (b := b) ⟨[], g⟩) {c : Int}
    (h : g.RefersTo b c) : c ∈ g.starts := by
  obtain ⟨hh, ⟨r, hr, rfl⟩ | ⟨k, hk, hs⟩⟩ := h
  · obtain ⟨d, hd, ht, -⟩ := (hg.references r).mp hr
    exact mem_starts_of_knows (hg.targets d hd _ ht hh)
  · rcases List.mem_append.mp hs with ht | hcont
    · obtain ⟨d, hd, ht⟩ := hg.coherent.targets k hk c ht
      exact mem_starts_of_knows (hg.targets d hd c ht hh)
    · exact mem_starts_of_knows (hg.coherent.continues k hk c (Option.mem_toList.mp hcont))

theorem block?_of_mem_starts {g : Graph} {c : Int} (h : c ∈ g.starts) : ∃ k, g.block? c = some k ∧ k.address = c := by
  obtain ⟨k, hk, hc⟩ := (g.mem_starts c).mp h
  cases hf : g.block? c with
  | none => exact absurd (by simpa using hc) (List.find?_eq_none.mp hf k hk)
  | some l => exact ⟨l, rfl, by simpa using List.find?_some hf⟩

namespace Disassembler

variable {env : Environment} {a : Architecture} {find : InstructionAt}

/-- The blocks of a graph begin at the leaders, one at each, so that no reference into the buffer lacks its block. -/
theorem graph_starts_iff_leader (h : Local env a find) {s : Session} (hs : s.Sound env) (he : b.Holds entry)
    {g : Graph} (hg : ((graph env a b entry).outcome s).1 = .ok g) :
    g.starts.Nodup ∧ (∀ c, c ∈ g.starts ↔ g.Leader (b.decodedAt find a.set) b entry c) ∧
      (∀ c ∈ g.starts, ∃ k, g.block? c = some k ∧ k.address = c) ∧
      (∀ c, g.RefersTo b c → c ∈ g.starts) ∧
      ∀ i ∈ g.instructions, ∃ d, g.Shows (b.decodedAt find a.set) d ∧ d.instruction = i := by
  have hc := b.carries_decodedAt a.set h.fits
  have ht := (h.graph_meets he s hs).2.1 g hg
  refine ⟨ht.coherent.nodup, mem_starts_iff_leader hc ht, fun c => block?_of_mem_starts,
    fun c => mem_starts_of_refersTo ht, ?_⟩
  intro i hi
  obtain ⟨k, hk, hi⟩ := List.mem_flatMap.mp hi
  exact ht.coherent.decoded hc (List.mem_mergeSort.mp hk) hi

theorem graph_starts_iff_leader_skipOne : ∃ g : Graph,
    Local shortJumpEnvironment ⟨.x86, .bits32, .little, .ordinary⟩ shortJumps ∧
      Session.Sound shortJumpEnvironment {} ∧ skipOne.Holds 0x1000 ∧
      ((graph shortJumpEnvironment ⟨.x86, .bits32, .little, .ordinary⟩ skipOne 0x1000).outcome {}).1 = .ok g ∧
      g.starts = [0x1000, 0x1003, 0x1002] ∧
      ∀ c, c ∈ g.starts ↔ g.Leader (skipOne.decodedAt shortJumps .x86) skipOne 0x1000 c := by
  have hs := Session.sound_empty shortJumpEnvironment
  have he : skipOne.Holds 0x1000 := by decide
  exact ⟨_, local_shortJumps, hs, he, outcome_skipOne, rfl,
    (graph_starts_iff_leader local_shortJumps hs he outcome_skipOne).2.1⟩

end Disassembler

end AssemblyConsole
