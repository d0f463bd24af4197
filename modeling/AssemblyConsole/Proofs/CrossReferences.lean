import AssemblyConsole.Proofs.BlockPartition
import Mathlib.Data.List.Sort

/-!
The references of a graph are those that its instructions make, no more and no fewer. Blocks that are gathered bring
the references of their instructions with them, and a cut moves instructions and leaves the references alone.
-/

namespace AssemblyConsole

open AssemblyConsole.Action Buffer Progress

namespace Graph

variable {g h : Graph} {a : Int}

/-- An instruction of the graph that stands at `source` names the target. -/
def Names (code : Int → Option Decoded) (g : Graph) (source target : Int) : Prop :=
  ∃ d, g.Shows code d ∧ d.target = some target ∧ d.instruction.address = source

theorem mem_referred (g : Graph) (t : Int) : t ∈ g.referred ↔ ∃ c, c ∈ g.sources t := by
  simp only [referred, List.mem_mergeSort, List.mem_eraseDups, List.mem_map, mem_sources]
  constructor
  · rintro ⟨r, hr, rfl⟩
    exact ⟨r.source, hr⟩
  · rintro ⟨c, hc⟩
    exact ⟨_, hc, rfl⟩

/-- Without a repeated reference the sources of a target ascend strictly. -/
theorem sources_ascending (hn : g.references.Nodup) (t : Int) : (g.sources t).Pairwise (· < ·) := by
  have hinjective : ∀ r ∈ g.references.filter (·.target = t), ∀ q ∈ g.references.filter (·.target = t),
      r.source = q.source → r = q := by
    rintro ⟨t₁, c₁⟩ hr ⟨t₂, c₂⟩ hq hsource
    have hr := of_decide_eq_true (List.mem_filter.mp hr).2
    have hq := of_decide_eq_true (List.mem_filter.mp hq).2
    simp_all
  have hdistinct : (g.sources t).Nodup := by
    apply (List.mergeSort_perm _ _).nodup_iff.mpr
    exact List.Nodup.map_on hinjective (hn.filter _)
  have hsorted : (g.sources t).Pairwise (· ≤ ·) := List.pairwise_mergeSort' (· ≤ ·) _
  apply (hsorted.and hdistinct).imp
  rintro c e ⟨hle, hne⟩
  omega

theorem references_put (g : Graph) (k : Block) : (g.put k).references = g.references := by
  unfold put
  split <;> rfl

theorem references_split? (hs : g.split? a = some h) : h.references = g.references := by
  simp only [split?, Option.bind_eq_bind, Option.bind_eq_some_iff] at hs
  obtain ⟨k, -, ⟨head, tail⟩, -, he⟩ := hs
  rw [← Option.some.inj he, references_put, references_put]

theorem nodup_references_refer (hn : g.references.Nodup) (r : Reference) : (g.refer r).references.Nodup := by
  unfold refer
  split
  · exact hn
  · rename_i hr
    apply List.nodup_append.mpr
    refine ⟨hn, List.nodup_singleton r, ?_⟩
    rintro q hq q' hq' rfl
    exact hr (List.mem_singleton.mp hq' ▸ hq)

theorem nodup_references_install (hn : g.references.Nodup) (s : Growth) : (g.install s).references.Nodup := by
  rw [install, references_put]
  induction s.references generalizing g with
  | nil => exact hn
  | cons r rs ih => exact ih (nodup_references_refer hn r)

end Graph

namespace Progress

variable {code : Int → Option Decoded} {b : Buffer} {arch : Architecture} {p q : Progress b} {entry : Int}
  {answers : Int → List Decoded → Prop}

theorem Step.nodup_references (h : Step arch answers p q) (hp : p.graph.references.Nodup) :
    q.graph.references.Nodup := by
  cases h with
  | known _ => exact hp
  | cut _ hs => exact (Graph.references_split? hs).symm ▸ hp
  | @gathered _ a ha rest ds s _ _ _ => exact Graph.nodup_references_install hp s

theorem runs_nodup_references (he : b.Holds entry) (h : Runs arch answers (start b entry he) p) :
    p.graph.references.Nodup := by
  induction h with
  | refl => exact List.nodup_nil
  | tail _ hs ih => exact hs.nodup_references ih

theorem Tracks.mem_sources_iff_names (hp : p.Tracks code entry) (t c : Int) :
    c ∈ p.graph.sources t ↔ p.graph.Names code c t := by
  rw [Graph.mem_sources, hp.references]
  rfl

end Progress

namespace Disassembler

variable {env : Environment} {a : Architecture} {find : InstructionAt} {b : Buffer} {entry : Int}

/-- An address is among the sources of a target exactly if the instruction there names the target. Each source is
listed once, no target is listed without a source, and to cut a block changes nothing of this. -/
theorem graph_sources_iff_names (h : Local env a find) {s : Session} (hs : s.Sound env) {g : Graph}
    (hg : ((graph env a b entry).outcome s).1 = .ok g) :
    (∀ t c, c ∈ g.sources t ↔ g.Names (b.decodedAt find a.set) c t) ∧
      (∀ t, (g.sources t).Pairwise (· < ·)) ∧ (∀ t ∈ g.referred, g.sources t ≠ []) ∧
      ∀ (k l : Graph) (e : Int), k.starts.Nodup → e ∉ k.starts → k.split? e = some l →
        l.references = k.references ∧
          ∀ c t, l.Names (b.decodedAt find a.set) c t ↔ k.Names (b.decodedAt find a.set) c t := by
  have hc := b.carries_decodedAt a.set h.fits
  have hgraph : (∀ t c, c ∈ g.sources t ↔ g.Names (b.decodedAt find a.set) c t) ∧ g.references.Nodup := by
    by_cases he : b.Holds entry
    · have hr := (explore_ends (h.decode_meets b) he s hs).2.1 g hg
      exact ⟨(runs_tracks hc he hr).mem_sources_iff_names, runs_nodup_references he hr⟩
    · obtain ⟨-, rfl⟩ := graph_of_not_holds he hg
      simp [Graph.mem_sources, Graph.Names, Graph.Shows]
  refine ⟨hgraph.1, Graph.sources_ascending hgraph.2, ?_, ?_⟩
  · intro t ht
    obtain ⟨c, hsource⟩ := (g.mem_referred t).mp ht
    exact List.ne_nil_of_mem hsource
  · intro k l e hn hk hcut
    refine ⟨Graph.references_split? hcut, ?_⟩
    intro c t
    simp only [Graph.Names, Graph.shows_split? _ hcut hk hn]

/-- The blocks of `skipEither` when all but the last cut is made: the second of them is still to be cut at its return. -/
def beforeReturn : Graph where
  base := 0x1000
  entry := 0x1000
  blocks := [
    ⟨0x1000, [⟨0x1000, 2, "je", "0x1004", [0x74, 0x02]⟩], false, some 0x1002, [0x1004]⟩,
    ⟨0x1004, [⟨0x1004, 1, "nop", "", [0x90]⟩, ⟨0x1005, 1, "ret", "", [0xc3]⟩], true, none, []⟩,
    ⟨0x1002, [⟨0x1002, 2, "je", "0x1005", [0x74, 0x01]⟩], false, some 0x1004, [0x1005]⟩]
  references := [⟨0x1004, 0x1000⟩, ⟨0x1005, 0x1002⟩]

theorem graph_sources_iff_names_skipEither : ∃ g : Graph,
    Local shortJumpEnvironment ⟨.x86, .bits32, .little, .ordinary⟩ shortJumps ∧
      Session.Sound shortJumpEnvironment {} ∧
      ((graph shortJumpEnvironment ⟨.x86, .bits32, .little, .ordinary⟩ skipEither 0x1000).outcome {}).1 = .ok g ∧
      (∀ t c, c ∈ g.sources t ↔ g.Names (skipEither.decodedAt shortJumps .x86) c t) ∧
      g.Names (skipEither.decodedAt shortJumps .x86) 0x1002 0x1005 ∧
      beforeReturn.starts.Nodup ∧ 0x1005 ∉ beforeReturn.starts ∧ beforeReturn.split? 0x1005 = some g ∧
      g.references = beforeReturn.references := by
  have hs := Session.sound_empty shortJumpEnvironment
  obtain ⟨hnames, -, -, hcut⟩ := graph_sources_iff_names local_shortJumps hs outcome_skipEither
  have hnodup : beforeReturn.starts.Nodup := by decide
  have hnew : 0x1005 ∉ beforeReturn.starts := by decide
  refine ⟨_, local_shortJumps, hs, outcome_skipEither, hnames, ?_, hnodup, hnew, rfl,
    (hcut beforeReturn _ 0x1005 hnodup hnew rfl).1⟩
  exact (hnames 0x1005 0x1002).mp ((Graph.mem_sources _ _ _).mpr (by simp))

end Disassembler

end AssemblyConsole
