import AssemblyConsole.Proofs.Leaders
import AssemblyConsole.Proofs.SingleEntry

/-!
Where no two instructions that control reaches overlap, the blocks of a graph partition those instructions. Which
blocks there are is then a matter of the instructions and the leaders alone, in whatever order the traversal meets them.
-/

namespace AssemblyConsole

open AssemblyConsole.Action Buffer Progress

/-- A reason for a block to begin at the address, told without a graph. -/
def Buffer.Leader (b : Buffer) (code : Int → Option Decoded) (entry c : Int) : Prop :=
  b.Holds c ∧ (c = entry ∨ ∃ d, b.Visits code entry d ∧ d.Branches c)

/-- Control falls from an address through these instructions, up to the first that passes it elsewhere, the next
leader, or the end of the buffer. -/
inductive Stretch (code : Int → Option Decoded) (b : Buffer) (leader : Int → Prop) : Int → List Decoded → Prop
  | last {c d} (hc : code c = some d)
      (hd : d.flow.GoesOn → b.Holds d.instruction.stop → leader d.instruction.stop) : Stretch code b leader c [d]
  | next {c d ds} (hc : code c = some d) (hd : d.flow.GoesOn) (hh : b.Holds d.instruction.stop)
      (hn : ¬leader d.instruction.stop) (h : Stretch code b leader d.instruction.stop ds) :
      Stretch code b leader c (d :: ds)

variable {code : Int → Option Decoded} {b : Buffer} {leader : Int → Prop} {c entry : Int}

theorem Stretch.unique {xs ys : List Decoded} (hx : Stretch code b leader c xs) (hy : Stretch code b leader c ys) :
    xs = ys := by
  induction hx generalizing ys with
  | last hc hd =>
    cases hy with
    | last hc' _ => rw [Option.some.inj (hc.symm.trans hc')]
    | next hc' hgo hh hn _ =>
      obtain rfl := Option.some.inj (hc.symm.trans hc')
      exact absurd (hd hgo hh) hn
  | next hc hgo hh hn _ ih =>
    cases hy with
    | last hc' hd =>
      obtain rfl := Option.some.inj (hc.symm.trans hc')
      exact absurd (hd hgo hh) hn
    | next hc' _ _ _ h =>
      obtain rfl := Option.some.inj (hc.symm.trans hc')
      rw [ih h]

theorem Falls.stretch (hc : b.Carries code) {run : List Decoded} {last : Decoded}
    (hf : Falls code c run last.instruction.address) (hl : code last.instruction.address = some last)
    (hn : ∀ d ∈ (run ++ [last]).tail, ¬leader d.instruction.address)
    (hd : last.flow.GoesOn → b.Holds last.instruction.stop → leader last.instruction.stop) :
    Stretch code b leader c (run ++ [last]) := by
  generalize he : last.instruction.address = e at hf
  induction hf with
  | nil c => exact .last (he ▸ hl) hd
  | @cons c d ds e hcode hgo h ih =>
    subst he
    obtain ⟨x, rest, hx, hcx⟩ := h.begins hl
    have hstop := hc.address hcx
    have hn' : ∀ y ∈ ds ++ [last], ¬leader y.instruction.address := hn
    have hnext := hn' x (hx ▸ List.mem_cons_self)
    rw [hstop] at hnext
    refine .next hcode hgo (hc.holds hcx) hnext (ih ?_ rfl)
    intro y hy
    exact hn' y (List.mem_of_mem_tail hy)

theorem Graph.sorted_ascending {g : Graph} (hn : g.starts.Nodup) :
    g.sorted.Pairwise fun k l => k.address < l.address := by
  have htrans (k l m : Block) : decide (k.address ≤ l.address) = true → decide (l.address ≤ m.address) = true →
      decide (k.address ≤ m.address) = true := by
    simp only [decide_eq_true_eq]
    omega
  have htotal (k l : Block) : (decide (k.address ≤ l.address) || decide (l.address ≤ k.address)) = true := by
    simp only [Bool.or_eq_true, decide_eq_true_eq]
    omega
  have hsorted : g.sorted.Pairwise fun k l => k.address ≤ l.address :=
    (List.pairwise_mergeSort htrans htotal g.blocks).imp of_decide_eq_true
  have hdistinct : g.sorted.Pairwise fun k l => k.address ≠ l.address :=
    List.pairwise_map.mp (((List.mergeSort_perm _ _).map _).nodup_iff.mpr hn)
  apply (hsorted.and hdistinct).imp
  rintro k l ⟨hle, hne⟩
  omega

def Graph.HasBlock (g : Graph) (c : Int) (is : List Instruction) : Prop :=
  ∃ k ∈ g.blocks, k.address = c ∧ k.instructions = is

structure Graph.Partition (code : Int → Option Decoded) (b : Buffer) (entry : Int) (g : Graph) : Prop where
  disjoint : ∀ k ∈ g.blocks, ∀ l ∈ g.blocks, k ≠ l → k.stop ≤ l.address ∨ l.stop ≤ k.address
  once : ∀ d, b.Visits code entry d → ∃! k, k ∈ g.blocks ∧ d.instruction ∈ k.instructions
  ascending : g.instructions.Pairwise fun i j => i.address < j.address
  listed : ∀ i, i ∈ g.instructions ↔ ∃ d, b.Visits code entry d ∧ d.instruction = i
  single : ∀ k ∈ g.blocks, ∀ i ∈ k.instructions.tail, i.address ∉ g.starts
  stretches : ∀ c is, g.HasBlock c is ↔
    b.Leader code entry c ∧ ∃ ds, Stretch code b (b.Leader code entry) c ds ∧ ds.map (·.instruction) = is

section Tracks

variable {g : Graph} (hc : b.Carries code) (hg : Tracks code entry (b := b) ⟨[], g⟩)
include hc hg

theorem shows_iff_visits (d : Decoded) : g.Shows code d ↔ b.Visits code entry d := by
  constructor
  · intro hd
    exact ⟨hd.1, hg.reaches d hd⟩
  · rintro ⟨hd, hr⟩
    obtain ⟨x, hx, hxd⟩ := (shows_iff_reaches hc hg _).mpr hr
    have hcode := hx.1
    rw [hxd, hd] at hcode
    obtain rfl := Option.some.inj hcode
    exact hx

theorem mem_starts_iff (c : Int) : c ∈ g.starts ↔ b.Leader code entry c := by
  have hholds {c : Int} (h : c ∈ g.starts) : b.Holds c := by
    obtain ⟨d, hd, rfl⟩ := hg.coherent.begins hc h
    exact hc.holds hd.1
  rw [Buffer.Leader]
  simp only [← shows_iff_visits hc hg]
  constructor
  · intro h
    rcases (mem_starts_iff_leader hc hg c).mp h with he | ⟨hh, hd⟩
    · exact ⟨hholds h, .inl he⟩
    · exact ⟨hh, .inr hd⟩
  · rintro ⟨hh, he | hd⟩
    · exact (mem_starts_iff_leader hc hg c).mpr (.inl he)
    · exact (mem_starts_iff_leader hc hg c).mpr (.inr ⟨hh, hd⟩)

theorem mem_instructions_iff_visits (i : Instruction) :
    i ∈ g.instructions ↔ ∃ d, b.Visits code entry d ∧ d.instruction = i := by
  rw [Graph.instructions, List.mem_flatMap]
  constructor
  · rintro ⟨k, hk, hi⟩
    obtain ⟨d, hd, rfl⟩ := hg.coherent.decoded hc (List.mem_mergeSort.mp hk) hi
    exact ⟨d, (shows_iff_visits hc hg d).mp hd, rfl⟩
  · rintro ⟨d, hd, rfl⟩
    obtain ⟨-, k, hk, hi⟩ := (shows_iff_visits hc hg d).mpr hd
    exact ⟨k, List.mem_mergeSort.mpr hk, hi⟩

variable (hse : g.SingleEntry)
include hse

theorem notMem_starts_tail {k : Block} (hk : k ∈ g.blocks) {i : Instruction} (hi : i ∈ k.instructions.tail) :
    i.address ∉ g.starts := by
  intro hstart
  have haddress := hse k hk i (List.mem_of_mem_tail hi) hstart
  have hlt := (hg.coherent.shaped k hk).lt_of_mem_tail hc hi
  omega

theorem stretch_of_mem_blocks {k : Block} (hk : k ∈ g.blocks) :
    ∃ ds, Stretch code b (b.Leader code entry) k.address ds ∧ ds.map (·.instruction) = k.instructions := by
  obtain ⟨run, last, hs⟩ := hg.coherent.shaped k hk
  refine ⟨run ++ [last], hs.falls.stretch hc hs.closed ?_ ?_, hs.instructions.symm⟩
  · intro d hd
    rw [← mem_starts_iff hc hg]
    apply notMem_starts_tail hc hg hse hk
    rw [hs.instructions, ← List.map_tail]
    exact List.mem_map_of_mem hd
  · intro hgo hh
    have hcontinues : k.continuesAt = some last.instruction.stop :=
      hs.continuesAt.trans (Decoded.continuesAt?_eq_some_iff.mpr ⟨.inl hgo, hh, rfl⟩)
    rw [← mem_starts_iff hc hg]
    exact mem_starts_of_knows (hg.coherent.continues k hk _ hcontinues)

theorem hasBlock_iff_stretch (c : Int) (is : List Instruction) : g.HasBlock c is ↔
    b.Leader code entry c ∧ ∃ ds, Stretch code b (b.Leader code entry) c ds ∧ ds.map (·.instruction) = is := by
  constructor
  · rintro ⟨k, hk, rfl, rfl⟩
    exact ⟨(mem_starts_iff hc hg _).mp ((g.mem_starts _).mpr ⟨k, hk, rfl⟩), stretch_of_mem_blocks hc hg hse hk⟩
  · rintro ⟨hl, ds, hds, rfl⟩
    obtain ⟨k, hk, rfl⟩ := (g.mem_starts c).mp ((mem_starts_iff hc hg c).mpr hl)
    obtain ⟨xs, hxs, he⟩ := stretch_of_mem_blocks hc hg hse hk
    exact ⟨k, hk, rfl, by rw [← he, hxs.unique hds]⟩

variable (hu : b.Unambiguous code entry)
include hu

theorem blocks_disjoint {k l : Block} (hk : k ∈ g.blocks) (hl : l ∈ g.blocks) (hne : k ≠ l) :
    k.stop ≤ l.address ∨ l.stop ≤ k.address := by
  have hklt := (hg.coherent.shaped k hk).lt_stop hc
  have hllt := (hg.coherent.shaped l hl).lt_stop hc
  by_contra hboth
  apply hne
  -- the later of the two starts lies in both blocks
  apply hg.same_block_of_spans hc hu hse hk hl (a := max k.address l.address)
  · rw [Block.spans_iff]
    omega
  · rw [Block.spans_iff]
    omega

theorem instructions_ascending : g.instructions.Pairwise fun i j => i.address < j.address := by
  have within {k : Block} (hk : k ∈ g.blocks) {i : Instruction} (hi : i ∈ k.instructions) :
      k.address ≤ i.address ∧ i.address < i.stop ∧ i.stop ≤ k.stop := by
    have hshape := hg.coherent.shaped k hk
    obtain ⟨d, hd, rfl⟩ := hshape.decoded hc hi
    have hin := hshape.within hc hd hi
    exact ⟨hin.1, hc.lt_stop hd, hin.2⟩
  rw [Graph.instructions, List.pairwise_flatMap]
  constructor
  · intro k hk
    have hk := List.mem_mergeSort.mp hk
    apply ((hg.coherent.shaped k hk).ascending hc).imp_of_mem
    intro i j hi _ hij
    have hlt := (within hk hi).2.1
    omega
  · apply (Graph.sorted_ascending hg.coherent.nodup).imp_of_mem
    intro k l hk hl hlt i hi j hj
    have hne : k ≠ l := by
      rintro rfl
      omega
    have hk := List.mem_mergeSort.mp hk
    have hl := List.mem_mergeSort.mp hl
    have hiin := within hk hi
    have hjin := within hl hj
    rcases blocks_disjoint hc hg hse hu hk hl hne with hapart | hapart
    · omega
    · omega

theorem partition_of_tracks : g.Partition code b entry where
  disjoint _ hk _ hl hne := blocks_disjoint hc hg hse hu hk hl hne
  once d hd := by
    obtain ⟨-, k, hk, hi⟩ := (shows_iff_visits hc hg d).mpr hd
    refine ⟨k, ⟨hk, hi⟩, ?_⟩
    rintro l ⟨hl, hli⟩
    exact hg.same_block hc hu hse hl hk hd.1 hli hi
  ascending := instructions_ascending hc hg hse hu
  listed := mem_instructions_iff_visits hc hg
  single _ hk _ hi := notMem_starts_tail hc hg hse hk hi
  stretches := hasBlock_iff_stretch hc hg hse

end Tracks

theorem partition_of_no_bytes (hc : b.Carries code) (hb : b.data = []) {g : Graph} (hg : g.blocks = []) :
    g.Partition code b entry := by
  have hholds := Buffer.not_holds_of_no_bytes hb
  have hvisits (d : Decoded) : ¬b.Visits code entry d := fun hd => hholds _ (hc.holds hd.1)
  have hsorted : g.sorted = [] := by simp [Graph.sorted, hg]
  constructor
  · simp [hg]
  · exact fun d hd => absurd hd (hvisits d)
  · simp [Graph.instructions, hsorted]
  · simp [Graph.instructions, hsorted, hvisits]
  · simp [hg]
  · simp [Graph.HasBlock, hg, Buffer.Leader, hholds]

namespace Disassembler

variable {env : Environment} {a : Architecture} {find : InstructionAt}

/-- The blocks partition the instructions that control reaches, and every order of the queue leads to these blocks. -/
theorem graph_partition (h : Local env a find) {s : Session} (hs : s.Sound env) {g : Graph}
    (hg : ((graph env a b entry).outcome s).1 = .ok g) (hu : b.Unambiguous (b.decodedAt find a.set) entry) :
    g.Partition (b.decodedAt find a.set) b entry ∧
      ∀ (he : b.Holds entry) (g' : Graph),
        RunsInAnyOrder a (Swept (b.decodedAt find a.set)) (start b entry he) ⟨[], g'⟩ →
          ∀ c is, g'.HasBlock c is ↔ g.HasBlock c is := by
  have hc := b.carries_decodedAt a.set h.fits
  have partition {he : b.Holds entry} {g : Graph}
      (hr : RunsInAnyOrder a (Swept (b.decodedAt find a.set)) (start b entry he) ⟨[], g⟩) :
      g.Partition (b.decodedAt find a.set) b entry := by
    obtain ⟨ht, hse⟩ := runsInAnyOrder_singleEntry hc hu he hr
    exact partition_of_tracks hc ht hse hu
  have hpartition : g.Partition (b.decodedAt find a.set) b entry := by
    rcases h.graph_runs hs hg with ⟨hb, hnone⟩ | ⟨he, hr⟩
    · exact partition_of_no_bytes hc hb hnone
    · exact partition hr.inAnyOrder
  refine ⟨hpartition, ?_⟩
  intro he g' hr c is
  rw [(partition hr).stretches, hpartition.stretches]

/-- Two conditional jumps, the second to the return behind an instruction without effect, to which the first goes. -/
def skipEither : Buffer := ⟨0x1000, [0x74, 0x02, 0x74, 0x01, 0x90, 0xc3]⟩

theorem outcome_skipEither :
    ((graph shortJumpEnvironment ⟨.x86, .bits32, .little, .ordinary⟩ skipEither 0x1000).outcome {}).1 = .ok
      { base := 0x1000
        entry := 0x1000
        blocks := [
          ⟨0x1000, [⟨0x1000, 2, "je", "0x1004", [0x74, 0x02]⟩], false, some 0x1002, [0x1004]⟩,
          ⟨0x1004, [⟨0x1004, 1, "nop", "", [0x90]⟩], false, some 0x1005, []⟩,
          ⟨0x1002, [⟨0x1002, 2, "je", "0x1005", [0x74, 0x01]⟩], false, some 0x1004, [0x1005]⟩,
          ⟨0x1005, [⟨0x1005, 1, "ret", "", [0xc3]⟩], true, none, []⟩]
        references := [⟨0x1004, 0x1000⟩, ⟨0x1005, 0x1002⟩] } := by
  cbv

theorem unambiguous_skipEither : skipEither.Unambiguous (skipEither.decodedAt shortJumps .x86) 0x1000 := by
  apply unambiguous_of_addresses (carries_decodedAt skipEither .x86 fits_shortJumps)
  decide +kernel

theorem graph_partition_skipEither : ∃ g : Graph,
    Local shortJumpEnvironment ⟨.x86, .bits32, .little, .ordinary⟩ shortJumps ∧
      Session.Sound shortJumpEnvironment {} ∧
      ((graph shortJumpEnvironment ⟨.x86, .bits32, .little, .ordinary⟩ skipEither 0x1000).outcome {}).1 = .ok g ∧
      skipEither.Unambiguous (skipEither.decodedAt shortJumps .x86) 0x1000 ∧
      g.starts = [0x1000, 0x1004, 0x1002, 0x1005] ∧
      g.Partition (skipEither.decodedAt shortJumps .x86) skipEither 0x1000 := by
  have hs := Session.sound_empty shortJumpEnvironment
  have h := graph_partition local_shortJumps hs outcome_skipEither unambiguous_skipEither
  exact ⟨_, local_shortJumps, hs, outcome_skipEither, unambiguous_skipEither, rfl, h.1⟩

end Disassembler

end AssemblyConsole
