import AssemblyConsole.Proofs.TraversalInvariant
import Mathlib

/-!
The traversal finds the instructions that control reaches from the entry, and fails where control reaches an
address at which there is none.
-/

namespace AssemblyConsole

open AssemblyConsole.Action Buffer Progress

variable {code : Int → Option Decoded} {b : Buffer} {entry : Int}

theorem shows_iff_reaches (hc : b.Carries code) {g : Graph} (hg : Tracks code entry (b := b) ⟨[], g⟩) (c : Int) :
    (∃ d, g.Shows code d ∧ d.instruction.address = c) ↔ b.Reaches code entry c := by
  have begins {c : Int} (h : Knows (b := b) ⟨[], g⟩ c) : ∃ d, g.Shows code d ∧ d.instruction.address = c := by
    rcases h with h | h
    · exact hg.coherent.begins hc h
    · simp at h
  constructor
  · rintro ⟨d, hd, rfl⟩
    exact hg.reaches d hd
  · intro h
    induction h with
    | refl => exact begins hg.knowsEntry
    | tail _ hl ih =>
      obtain ⟨d, hd, rfl⟩ := ih
      obtain ⟨d', hd', hs, hh⟩ := hl
      obtain rfl := Option.some.inj (hd.1.symm.trans hd')
      rcases (mem_successors_iff hc hd').mp hs with (ht | ⟨hw, rfl⟩) | ⟨hw, rfl⟩
      · exact begins (hg.targets d hd _ ht hh)
      · exact begins ((hg.coherent.passes hc hd hh).1 hw)
      · rcases (hg.coherent.passes hc hd hh).2 hw with hk | he
        · exact begins hk
        · exact he

theorem Progress.Fails.reaches (hc : b.Carries code) {arch : Architecture} {p : Progress b} {e : DecodeError}
    (hp : p.Tracks code entry) (hf : Fails arch (Swept code) p e) :
    ∃ c, b.Reaches code entry c ∧ code c = none ∧ e = .undecodable arch c ((b.bytesFrom c).take 16) := by
  obtain ⟨a, ha, rest, ds, hg, hd, he⟩ := hf
  have hsettles : Growth.Settles code b arch p.graph.starts a _ := Growth.gather_start_settles hc hd ha
  rw [he] at hsettles
  obtain ⟨xs, c, hx, hh, hn, he⟩ := hsettles
  have hk : p.Knows a := .inr (by simp [hg.queue])
  exact ⟨c, (hp.reaches_of_knows hc hk).trans (hx.reaches hc hh), hn, he⟩

namespace Disassembler

variable {env : Environment} {a : Architecture} {find : InstructionAt}

theorem Local.graph_meets (h : Local env a find) (he : b.Holds entry) :
    Meets (Session.Sound env) (graph env a b entry)
      (fun g => Tracks (b.decodedAt find a.set) entry (b := b) ⟨[], g⟩)
      (fun e => ∃ c, b.Reaches (b.decodedAt find a.set) entry c ∧ ¬b.Good find c ∧
        e = .undecodable a c ((b.bytesFrom c).take 16)) := by
  have hc := b.carries_decodedAt a.set h.fits
  refine (explore_ends (h.decode_meets b) he).mono ?_ ?_
  · intro g hr
    exact runs_tracks hc he hr
  · rintro e (⟨p, hr, hf⟩ | ⟨_, _, hnever⟩)
    · obtain ⟨c, hreach, hn, he⟩ := hf.reaches hc (runs_tracks hc he hr)
      refine ⟨c, hreach, ?_, he⟩
      rw [good_iff, hn]
      simp
    · exact hnever.elim

theorem graph_of_not_holds {s : Session} {g : Graph} (he : ¬b.Holds entry)
    (hg : ((graph env a b entry).outcome s).1 = .ok g) : b.data = [] ∧ g = { base := b.base, entry := entry } := by
  rw [graph, explore_of_not_holds he] at hg
  split at hg
  · rename_i hempty
    exact ⟨hempty.1, (Except.ok.inj hg).symm⟩
  · simp at hg

/-- A graph is that of no bytes at all, or a run of the traversal has led to it. -/
theorem Local.graph_runs (h : Local env a find) {s : Session} (hs : s.Sound env) {g : Graph}
    (hg : ((graph env a b entry).outcome s).1 = .ok g) : (b.data = [] ∧ g.blocks = []) ∨ ∃ he : b.Holds entry,
      Runs a (Swept (b.decodedAt find a.set)) (start b entry he) ⟨[], g⟩ := by
  by_cases he : b.Holds entry
  · exact .inr ⟨he, (explore_ends (h.decode_meets b) he s hs).2.1 g hg⟩
  · obtain ⟨hb, rfl⟩ := graph_of_not_holds he hg
    exact .inl ⟨hb, rfl⟩

/-- A graph comes about exactly if there is an instruction wherever control goes, and it holds those instructions. -/
theorem graph_iff_reaches_good (h : Local env a find) {s : Session} (hs : s.Sound env) (he : b.Holds entry) :
    ((∃ g, ((graph env a b entry).outcome s).1 = .ok g) ↔
      ∀ c, b.Reaches (b.decodedAt find a.set) entry c → b.Good find c) ∧
    ∀ g, ((graph env a b entry).outcome s).1 = .ok g →
      ∀ c, (∃ k ∈ g.blocks, ∃ i ∈ k.instructions, i.address = c) ↔ b.Reaches (b.decodedAt find a.set) entry c := by
  have hc := b.carries_decodedAt a.set h.fits
  obtain ⟨-, hok, herror⟩ := h.graph_meets he s hs
  have addresses {g : Graph} (hg : ((graph env a b entry).outcome s).1 = .ok g) (c : Int) :
      (∃ k ∈ g.blocks, ∃ i ∈ k.instructions, i.address = c) ↔ b.Reaches (b.decodedAt find a.set) entry c := by
    rw [← shows_iff_reaches hc (hok g hg)]
    constructor
    · rintro ⟨k, hk, i, hi, hic⟩
      obtain ⟨d, hd, rfl⟩ := (hok g hg).coherent.decoded hc hk hi
      exact ⟨d, hd, hic⟩
    · rintro ⟨d, ⟨_, k, hk, hi⟩, hd⟩
      exact ⟨k, hk, _, hi, hd⟩
  refine ⟨⟨?_, ?_⟩, fun g hg => addresses hg⟩
  · rintro ⟨g, hg⟩ c hr
    obtain ⟨d, hd, rfl⟩ := (shows_iff_reaches hc (hok g hg) c).mpr hr
    exact good_iff.mpr ⟨d, hd.1⟩
  · intro hgood
    rcases ho : ((graph env a b entry).outcome s).1 with e | g
    · obtain ⟨c, hr, hn, -⟩ := herror e ho
      exact absurd (hgood c hr) hn
    · exact ⟨g, rfl⟩

/-- A conditional jump over an instruction without effect to a return. -/
def skipOne : Buffer := ⟨0x1000, [0x74, 0x01, 0x90, 0xc3]⟩

theorem outcome_skipOne :
    ((graph shortJumpEnvironment ⟨.x86, .bits32, .little, .ordinary⟩ skipOne 0x1000).outcome {}).1 = .ok
      { base := 0x1000
        entry := 0x1000
        blocks := [
          ⟨0x1000, [⟨0x1000, 2, "je", "0x1003", [0x74, 0x01]⟩], false, some 0x1002, [0x1003]⟩,
          ⟨0x1003, [⟨0x1003, 1, "ret", "", [0xc3]⟩], true, none, []⟩,
          ⟨0x1002, [⟨0x1002, 1, "nop", "", [0x90]⟩], false, some 0x1003, []⟩]
        references := [⟨0x1003, 0x1000⟩] } := by
  cbv

theorem graph_iff_reaches_good_skipOne :
    Local shortJumpEnvironment ⟨.x86, .bits32, .little, .ordinary⟩ shortJumps ∧
      Session.Sound shortJumpEnvironment {} ∧ skipOne.Holds 0x1000 ∧
      (∀ c, skipOne.Reaches (skipOne.decodedAt shortJumps .x86) 0x1000 c → skipOne.Good shortJumps c) ∧
      skipOne.Reaches (skipOne.decodedAt shortJumps .x86) 0x1000 0x1002 := by
  have hs := Session.sound_empty shortJumpEnvironment
  have he : skipOne.Holds 0x1000 := by decide
  have h := graph_iff_reaches_good local_shortJumps hs he
  refine ⟨local_shortJumps, hs, he, h.1.mp ⟨_, outcome_skipOne⟩, (h.2 _ outcome_skipOne _).mp ?_⟩
  exact ⟨_, List.mem_cons_of_mem _ (List.mem_cons_of_mem _ List.mem_cons_self), _, List.mem_cons_self, rfl⟩

end Disassembler

end AssemblyConsole
