import AssemblyConsole.Proofs.BlockEntries
import AssemblyConsole.Proofs.CrossReferences

/-!
The targets that a block lists. A gathered block lists those that its instructions name. A cut gives each part the
targets that are referred to from its addresses, so that a part may keep a target of the other part's, if an
instruction inside it names the same address. It loses none of its own.
-/

namespace AssemblyConsole

open AssemblyConsole.Action Buffer Growth Progress

/-- The addresses that the instructions of a block name, in their order, one for each instruction that names one. -/
def Block.named (code : Int → Option Decoded) (k : Block) : List Int :=
  k.instructions.filterMap fun i => (code i.address).bind (·.target)

namespace Graph

def NamedInside (code : Int → Option Decoded) (g : Graph) (k : Block) (t : Int) : Prop :=
  ∃ c, k.spans c = true ∧ g.Names code c t

def NamedOutside (code : Int → Option Decoded) (g : Graph) (k : Block) (t : Int) : Prop :=
  ∃ c, ¬k.spans c = true ∧ g.Names code c t

/-- The block lists what its instructions name, and around that only targets that are named both inside and outside
of it. -/
def Lists (code : Int → Option Decoded) (g : Graph) (k : Block) : Prop :=
  ∃ before after, k.targets = before ++ k.named code ++ after ∧
    ∀ t ∈ before ++ after, g.NamedInside code k t ∧ g.NamedOutside code k t

variable {code : Int → Option Decoded} {b : Buffer} {g h : Graph} {k l : Block}

theorem Names.mono (hs : ∀ d, g.Shows code d → h.Shows code d) {c t : Int} (hn : g.Names code c t) :
    h.Names code c t := by
  obtain ⟨d, hd, ht, hc⟩ := hn
  exact ⟨d, hs d hd, ht, hc⟩

theorem Lists.mono (hs : ∀ d, g.Shows code d → h.Shows code d) (hk : g.Lists code k) : h.Lists code k := by
  obtain ⟨before, after, he, hsurplus⟩ := hk
  refine ⟨before, after, he, ?_⟩
  intro t ht
  obtain ⟨⟨c, hin, hc⟩, ⟨e, hout, he⟩⟩ := hsurplus t ht
  exact ⟨⟨c, hin, hc.mono hs⟩, ⟨e, hout, he.mono hs⟩⟩

theorem Lists.targets_eq (hk : g.Lists code k) (hapart : ∀ t, g.NamedInside code k t → ¬g.NamedOutside code k t) :
    k.targets = k.named code := by
  obtain ⟨before, after, he, hsurplus⟩ := hk
  have hnone : before ++ after = [] := by
    apply List.eq_nil_iff_forall_not_mem.mpr
    intro t ht
    obtain ⟨hin, hout⟩ := hsurplus t ht
    exact hapart t hin hout
  obtain ⟨rfl, rfl⟩ := List.append_eq_nil_iff.mp hnone
  rw [he, List.nil_append, List.append_nil]

theorem namedInside_of_mem_named (hc : b.Carries code) (hl : l.Shaped code b)
    (hg : ∀ i ∈ l.instructions, ∃ k ∈ g.blocks, i ∈ k.instructions) {t : Int} (ht : t ∈ l.named code) :
    g.NamedInside code l t := by
  obtain ⟨i, hi, ht⟩ := List.mem_filterMap.mp ht
  obtain ⟨d, hd, rfl⟩ := hl.decoded hc hi
  rw [hd, Option.bind_some] at ht
  have hwithin := hl.within hc hd hi
  have hlt := hc.lt_stop hd
  refine ⟨d.instruction.address, ?_, d, ⟨hd, hg _ hi⟩, ht, rfl⟩
  apply (l.spans_iff _).mpr
  omega

theorem Lists.part {p : Int → Bool} (hk : g.Lists code k) (xs ys : List Int)
    (hnamed : k.named code = xs ++ l.named code ++ ys) (htargets : l.targets = k.targets.filter p)
    (hp : ∀ t, p t = true ↔ g.NamedInside code l t) (hspans : ∀ c, l.spans c = true → k.spans c = true)
    (hown : ∀ t ∈ l.named code, g.NamedInside code l t) (hother : ∀ t ∈ xs ++ ys, g.NamedOutside code l t) :
    g.Lists code l := by
  obtain ⟨before, after, he, hsurplus⟩ := hk
  have hkept : (l.named code).filter p = l.named code :=
    List.filter_eq_self.mpr fun t ht => (hp t).mpr (hown t ht)
  refine ⟨(before ++ xs).filter p, (ys ++ after).filter p, ?_, ?_⟩
  · rw [htargets, he, hnamed]
    simp only [List.filter_append, hkept, List.append_assoc]
  · intro t ht
    rw [← List.filter_append, List.mem_filter] at ht
    obtain ⟨ht, hpt⟩ := ht
    refine ⟨(hp t).mp hpt, ?_⟩
    have hcases : t ∈ before ++ after ∨ t ∈ xs ++ ys := by
      simp only [List.mem_append] at ht ⊢
      tauto
    rcases hcases with ht | ht
    · obtain ⟨c, hout, hc⟩ := (hsurplus t ht).2
      exact ⟨c, fun hin => hout (hspans c hin), hc⟩
    · exact hother t ht

end Graph

variable {code : Int → Option Decoded} {b : Buffer}

/-- The two parts of a block that is cut behind its start: their shape, their bytes, and what they name. -/
structure Graph.Parts (code : Int → Option Decoded) (b : Buffer) (k : Block) (a : Int) (head tail : Block) : Prop where
  headShaped : head.Shaped code b
  tailShaped : tail.Shaped code b
  instructions : k.instructions = head.instructions ++ tail.instructions
  headSpans : ∀ c, head.spans c = true ↔ k.address ≤ c ∧ c < a
  tailSpans : ∀ c, tail.spans c = true ↔ a ≤ c ∧ c < k.stop
  low : k.address < a
  high : a < k.stop

theorem Block.Shaped.parts (hc : b.Carries code) {g : Graph} {k head tail : Block} {a : Int} (hk : k.Shaped code b)
    (hcut : g.cutBlock a k = some (head, tail)) (hne : k.address ≠ a) : Graph.Parts code b k a head tail := by
  obtain ⟨before, after, hi, rfl, rfl⟩ := Graph.cutBlock_eq_some hcut
  obtain ⟨hhead, htail⟩ := hk.cut hc hi hne _ _
  have happ := (Graph.cutInstructions_eq_some hi).1
  have hstop := hhead.stop_of_continuesAt hc rfl
  have hsize : k.size = { k with instructions := before }.size + { k with instructions := after }.size := by
    rw [← k.size_append, ← happ]
  have hrest : a + { k with instructions := after }.size = k.stop := by
    have hbefore : k.address + { k with instructions := before }.size = a := hstop
    rw [Block.stop]
    omega
  have hlow := hhead.lt_stop hc
  have hhigh := htail.lt_stop hc
  refine ⟨hhead, htail, happ, ?_, ?_, ?_, ?_⟩
  · intro c
    rw [Block.spans_iff, hstop]
  · intro c
    rw [Block.spans_iff]
    exact and_congr Iff.rfl (by rw [← hrest]; rfl)
  · exact hstop ▸ hlow
  · exact hrest ▸ hhigh

theorem Block.named_eq_append {k head tail : Block} (h : k.instructions = head.instructions ++ tail.instructions) :
    k.named code = head.named code ++ tail.named code := by
  rw [named, h, List.filterMap_append]
  rfl

theorem Block.Consists.named (hc : b.Carries code) {k : Block} {run : List Decoded} {last : Decoded}
    (hk : k.Consists code b run last) : k.named code = (run ++ [last]).filterMap (·.target) := by
  rw [Block.named, hk.instructions, List.filterMap_map]
  apply List.filterMap_congr
  intro d hd
  rw [Function.comp_apply, hk.decoded hc d hd, Option.bind_some]

namespace Progress

variable {arch : Architecture} {p q : Progress b} {entry : Int}

def ListsTargets (code : Int → Option Decoded) (p : Progress b) : Prop := ∀ k ∈ p.graph.blocks, p.graph.Lists code k

theorem Tracks.refersFrom_iff (hp : p.Tracks code entry) (t start stop : Int) :
    p.graph.refersFrom t start stop = true ↔ ∃ c, (start ≤ c ∧ c < stop) ∧ p.graph.Names code c t := by
  rw [Graph.refersFrom_iff]
  apply exists_congr
  intro c
  rw [hp.references, and_comm]
  rfl

section Cut

variable {k head tail : Block} {a : Int}

/-- Each part keeps the targets of the block that are named inside it. -/
theorem Tracks.targets_cut (hp : p.Tracks code entry) (hparts : Graph.Parts code b k a head tail)
    (hcut : p.graph.cutBlock a k = some (head, tail)) : ∃ before after : Int → Bool,
      head.targets = k.targets.filter before ∧ tail.targets = k.targets.filter after ∧
      (∀ t, before t = true ↔ p.graph.NamedInside code head t) ∧
      ∀ t, after t = true ↔ p.graph.NamedInside code tail t := by
  obtain ⟨xs, ys, -, hhead, htail⟩ := Graph.cutBlock_eq_some hcut
  refine ⟨_, _, congrArg Block.targets hhead, congrArg Block.targets htail, ?_, ?_⟩
  · intro t
    simp only [hp.refersFrom_iff, Graph.NamedInside, hparts.headSpans]
  · intro t
    simp only [hp.refersFrom_iff, Graph.NamedInside, hparts.tailSpans]

theorem Tracks.lists_cut (hc : b.Carries code) (hp : p.Tracks code entry) (hk : k ∈ p.graph.blocks)
    (hlists : p.graph.Lists code k) (hcut : p.graph.cutBlock a k = some (head, tail)) (hne : k.address ≠ a) :
    p.graph.Lists code head ∧ p.graph.Lists code tail := by
  have hparts := (hp.coherent.shaped k hk).parts hc hcut hne
  obtain ⟨before, after, hbefore, hafter, hin, hin'⟩ := hp.targets_cut hparts hcut
  have hnamed : k.named code = head.named code ++ tail.named code := Block.named_eq_append hparts.instructions
  have hownHead : ∀ t ∈ head.named code, p.graph.NamedInside code head t := by
    intro t ht
    apply Graph.namedInside_of_mem_named hc hparts.headShaped _ ht
    intro i hi
    exact ⟨k, hk, hparts.instructions ▸ List.mem_append_left _ hi⟩
  have hownTail : ∀ t ∈ tail.named code, p.graph.NamedInside code tail t := by
    intro t ht
    apply Graph.namedInside_of_mem_named hc hparts.tailShaped _ ht
    intro i hi
    exact ⟨k, hk, hparts.instructions ▸ List.mem_append_right _ hi⟩
  have hlow := hparts.low
  have hhigh := hparts.high
  constructor
  · apply hlists.part [] (tail.named code) hnamed hbefore hin _ hownHead
    · intro t ht
      obtain ⟨c, hspans, hc⟩ := hownTail t ht
      refine ⟨c, ?_, hc⟩
      rw [hparts.tailSpans] at hspans
      rw [hparts.headSpans]
      omega
    · intro c hspans
      rw [hparts.headSpans] at hspans
      rw [Block.spans_iff]
      omega
  · apply hlists.part (head.named code) [] (by rw [hnamed, List.append_nil]) hafter hin' _ hownTail
    · intro t ht
      rw [List.append_nil] at ht
      obtain ⟨c, hspans, hc⟩ := hownHead t ht
      refine ⟨c, ?_, hc⟩
      rw [hparts.headSpans] at hspans
      rw [hparts.tailSpans]
      omega
    · intro c hspans
      rw [hparts.tailSpans] at hspans
      rw [Block.spans_iff]
      omega

end Cut

theorem Step.listsTargets (hc : b.Carries code) (h : Step arch (Swept code) p q) (hp : p.Tracks code entry)
    (hlists : p.ListsTargets code) : q.ListsTargets code := by
  obtain ⟨new, hx⟩ := h.extends hc hp.coherent.nodup
  have hmono {k : Block} (hk : p.graph.Lists code k) : q.graph.Lists code k :=
    hk.mono fun d hd => (hx.shows d).mpr (.inl hd)
  cases h with
  | known hk => exact hlists
  | @cut a ha rest g h hk hs =>
    obtain ⟨-, -, k, hmem, head, tail, hcut, hblocks⟩ := Graph.mem_blocks_split? hs hk hp.coherent.nodup
    have hne : k.address ≠ a := fun he => hk ((g.mem_starts a).mpr ⟨k, hmem, he⟩)
    obtain ⟨hhead, htail⟩ := hp.lists_cut hc hmem (hlists k hmem) hcut hne
    intro l hl
    rcases (hblocks l).mp hl with rfl | rfl | ⟨hl, -⟩
    · exact hmono hhead
    · exact hmono htail
    · exact hmono (hlists l hl)
  | @gathered _ a ha rest ds s hg hd hs =>
    obtain ⟨run, last, hs⟩ := gather_local ha hc hd hs
    obtain ⟨hblocks, -, -⟩ := Graph.blocks_install (new_gathered hg hs)
    intro l hl
    rw [hblocks, List.mem_append, List.mem_singleton] at hl
    rcases hl with hl | rfl
    · exact hmono (hlists l hl)
    · refine ⟨[], [], ?_, by simp⟩
      rw [hs.targets, hs.consists.named hc, List.nil_append, List.append_nil]

theorem Tracks.namedInside_of_mem_targets (hc : b.Carries code) (hp : p.Tracks code entry)
    (hlists : p.ListsTargets code) {k : Block} (hk : k ∈ p.graph.blocks) {t : Int} (ht : t ∈ k.targets) :
    p.graph.NamedInside code k t := by
  obtain ⟨before, after, he, hsurplus⟩ := hlists k hk
  have hcases : t ∈ before ++ after ∨ t ∈ k.named code := by
    rw [he] at ht
    simp only [List.mem_append] at ht ⊢
    tauto
  rcases hcases with ht | ht
  · exact (hsurplus t ht).1
  · exact Graph.namedInside_of_mem_named hc (hp.coherent.shaped k hk) (fun i hi => ⟨k, hk, hi⟩) ht

theorem runsInAnyOrder_listsTargets (hc : b.Carries code) (he : b.Holds entry)
    (h : RunsInAnyOrder arch (Swept code) (start b entry he) p) : p.Tracks code entry ∧ p.ListsTargets code := by
  induction h with
  | refl =>
    refine ⟨tracks_start he, ?_⟩
    intro k hk
    exact absurd hk List.not_mem_nil
  | tail _ hs ih =>
    obtain ⟨hp, hlists⟩ := ih
    rcases hs with hs | hs
    · exact ⟨hs.tracks hc hp, hs.listsTargets hc hp hlists⟩
    · refine ⟨hs.tracks hp, ?_⟩
      rw [ListsTargets, hs.2]
      exact hlists

end Progress

namespace Disassembler

variable {env : Environment} {a : Architecture} {find : InstructionAt} {entry : Int}

/-- Each block lists the targets of its instructions in their order, and around them only targets that are named both
inside and outside of it; so it lists just its own if there are none of these. A cut of a block leaves each of its
targets to one of the parts, and to both only if it is named inside both. -/
theorem graph_lists_targets (h : Local env a find) {s : Session} (hs : s.Sound env) {g : Graph}
    (hg : ((graph env a b entry).outcome s).1 = .ok g) :
    (∀ k ∈ g.blocks, g.Lists (b.decodedAt find a.set) k) ∧
      (∀ k ∈ g.blocks, (∀ t, g.NamedInside (b.decodedAt find a.set) k t → ¬g.NamedOutside (b.decodedAt find a.set) k t) →
        k.targets = k.named (b.decodedAt find a.set)) ∧
      ∀ (he : b.Holds entry) (p : Progress b),
        RunsInAnyOrder a (Swept (b.decodedAt find a.set)) (start b entry he) p →
          ∀ k ∈ p.graph.blocks, ∀ c head tail, k.address ≠ c → p.graph.cutBlock c k = some (head, tail) →
            (∀ t ∈ k.targets, t ∈ head.targets ∨ t ∈ tail.targets) ∧
              ∀ t ∈ head.targets, t ∈ tail.targets → p.graph.NamedInside (b.decodedAt find a.set) head t ∧
                p.graph.NamedInside (b.decodedAt find a.set) tail t := by
  have hc := b.carries_decodedAt a.set h.fits
  have hlists : ∀ k ∈ g.blocks, g.Lists (b.decodedAt find a.set) k := by
    intro k hk
    rcases h.graph_runs hs hg with ⟨-, hnone⟩ | ⟨he, hr⟩
    · rw [hnone] at hk
      simp at hk
    · exact (runsInAnyOrder_listsTargets hc he hr.inAnyOrder).2 k hk
  refine ⟨hlists, fun k hk => (hlists k hk).targets_eq, ?_⟩
  intro he p hr k hk c head tail hne hcut
  obtain ⟨ht, hl⟩ := runsInAnyOrder_listsTargets hc he hr
  have hparts := (ht.coherent.shaped k hk).parts hc hcut hne
  obtain ⟨before, after, hbefore, hafter, hin, hin'⟩ := ht.targets_cut hparts hcut
  constructor
  · intro t hmem
    obtain ⟨e, hspans, hnames⟩ := ht.namedInside_of_mem_targets hc hl hk hmem
    rw [Block.spans_iff] at hspans
    rw [hbefore, hafter, List.mem_filter, List.mem_filter, hin, hin']
    rcases Int.lt_or_le e c with hlt | hle
    · exact .inl ⟨hmem, e, (hparts.headSpans e).mpr ⟨hspans.1, hlt⟩, hnames⟩
    · exact .inr ⟨hmem, e, (hparts.tailSpans e).mpr ⟨hle, hspans.2⟩, hnames⟩
  · intro t hhead htail
    rw [hbefore, List.mem_filter, hin] at hhead
    rw [hafter, List.mem_filter, hin'] at htail
    exact ⟨hhead.2, htail.2⟩

/-- A jump from inside a move goes where the conditional jump behind the move goes. Three conditional jumps lead to the
move, into it, and behind it, in this order. -/
def jumpInMove : Buffer := ⟨0x1000, [0x74, 0x05, 0x74, 0x04, 0x74, 0x03, 0xc3, 0xb0, 0xeb, 0x74, 0x73, 0xc3]⟩

def moveAlone : Block := ⟨0x1007, [⟨0x1007, 2, "mov", "al, 0xeb", [0xb0, 0xeb]⟩], false, some 0x1009, [0x107e]⟩

def jumpInMoveGraph : Graph where
  base := 0x1000
  entry := 0x1000
  blocks := [
    ⟨0x1000, [⟨0x1000, 2, "je", "0x1007", [0x74, 0x05]⟩], false, some 0x1002, [0x1007]⟩,
    moveAlone,
    ⟨0x1002, [⟨0x1002, 2, "je", "0x1008", [0x74, 0x04]⟩], false, some 0x1004, [0x1008]⟩,
    ⟨0x100b, [⟨0x100b, 1, "ret", "", [0xc3]⟩], true, none, []⟩,
    ⟨0x1008, [⟨0x1008, 2, "jmp", "0x107e", [0xeb, 0x74]⟩], false, none, [0x107e]⟩,
    ⟨0x1004, [⟨0x1004, 2, "je", "0x1009", [0x74, 0x03]⟩], false, some 0x1006, [0x1009]⟩,
    ⟨0x1009, [⟨0x1009, 2, "je", "0x107e", [0x74, 0x73]⟩], false, some 0x100b, [0x107e]⟩,
    ⟨0x1006, [⟨0x1006, 1, "ret", "", [0xc3]⟩], true, none, []⟩]
  references := [⟨0x1007, 0x1000⟩, ⟨0x107e, 0x1009⟩, ⟨0x1008, 0x1002⟩, ⟨0x107e, 0x1008⟩, ⟨0x1009, 0x1004⟩]

theorem outcome_jumpInMove : ((graph shortMoveEnvironment ⟨.x86, .bits32, .little, .ordinary⟩ jumpInMove
    0x1000).outcome {}).1 = .ok jumpInMoveGraph := by
  cbv

theorem graph_lists_targets_jumpInMove :
    Local shortMoveEnvironment ⟨.x86, .bits32, .little, .ordinary⟩ shortMoves ∧
      Session.Sound shortMoveEnvironment {} ∧
      ((graph shortMoveEnvironment ⟨.x86, .bits32, .little, .ordinary⟩ jumpInMove 0x1000).outcome {}).1 =
        .ok jumpInMoveGraph ∧
      moveAlone ∈ jumpInMoveGraph.blocks ∧ jumpInMoveGraph.Lists (jumpInMove.decodedAt shortMoves .x86) moveAlone := by
  have hs := Session.sound_empty shortMoveEnvironment
  obtain ⟨hlists, -, -⟩ := graph_lists_targets local_shortMoves hs outcome_jumpInMove
  have hk : moveAlone ∈ jumpInMoveGraph.blocks := by decide
  exact ⟨local_shortMoves, hs, outcome_jumpInMove, hk, hlists _ hk⟩

theorem named_moveAlone : moveAlone.named (jumpInMove.decodedAt shortMoves .x86) = [] := by
  cbv

/-- A block may list a target that none of its instructions names. -/
theorem targets_ne_named_jumpInMove :
    ¬∀ (env : Environment) (a : Architecture) (find : InstructionAt) (b : Buffer) (entry : Int) (s : Session)
      (g : Graph), Local env a find → s.Sound env → ((graph env a b entry).outcome s).1 = .ok g →
        ∀ k ∈ g.blocks, k.targets = k.named (b.decodedAt find a.set) := by
  intro hall
  have hs := Session.sound_empty shortMoveEnvironment
  have hk : moveAlone ∈ jumpInMoveGraph.blocks := by decide
  have htargets := hall _ _ _ _ _ _ _ local_shortMoves hs outcome_jumpInMove _ hk
  rw [named_moveAlone] at htargets
  simp [moveAlone] at htargets

end Disassembler

end AssemblyConsole
