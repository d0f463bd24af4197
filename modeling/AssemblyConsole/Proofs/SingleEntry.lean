import AssemblyConsole.Proofs.BlockExtent
import AssemblyConsole.Proofs.Reachability

/-!
Where the start of a block may stand in another block behind its first instruction: only where control falls to it
from an instruction whose last byte another instruction shares. So where no two instructions that control reaches
overlap, control enters each block at its first instruction only, and no two blocks have a byte in common. This is so
all along a traversal, in whatever order it takes the addresses from its queue.
-/

namespace AssemblyConsole

open Buffer Growth Relation

namespace Buffer

def Visits (b : Buffer) (code : Int → Option Decoded) (entry : Int) (d : Decoded) : Prop :=
  code d.instruction.address = some d ∧ b.Reaches code entry d.instruction.address

/-- Instructions that control comes to do not overlap, unless they are the same. -/
def Unambiguous (b : Buffer) (code : Int → Option Decoded) (entry : Int) : Prop :=
  ∀ x y, b.Visits code entry x → b.Visits code entry y → x.instruction.address < y.instruction.stop →
    y.instruction.address < x.instruction.stop → x = y

/-- Control falls to the address from an instruction whose last byte is also a byte of another one, and comes to both. -/
def BehindOverlap (b : Buffer) (code : Int → Option Decoded) (entry c : Int) : Prop :=
  ∃ x y, b.Visits code entry x ∧ b.Visits code entry y ∧ x ≠ y ∧ y.instruction.address < x.instruction.stop ∧
    x.instruction.stop ≤ y.instruction.stop ∧ ∃ run, Falls code x.instruction.address (x :: run) c

end Buffer

theorem unambiguous_of_addresses {code : Int → Option Decoded} {b : Buffer} (hc : b.Carries code) (entry : Int)
    (h : ∀ c ∈ b.addresses, ∀ e ∈ b.addresses, c < e →
      ∀ x ∈ code c, (code e).isSome → x.instruction.stop ≤ e) : b.Unambiguous code entry := by
  intro x y hx hy hxy hyx
  have hxin := (b.mem_addresses _).mpr (hc.holds hx.1)
  have hyin := (b.mem_addresses _).mpr (hc.holds hy.1)
  rcases Int.lt_trichotomy x.instruction.address y.instruction.address with hlt | heq | hlt
  · have hbefore := h _ hxin _ hyin hlt x hx.1 (by simp [hy.1])
    omega
  · have hcode := hx.1
    rw [heq, hy.1] at hcode
    exact (Option.some.inj hcode).symm
  · have hbefore := h _ hyin _ hxin hlt y hy.1 (by simp [hx.1])
    omega

def Graph.SingleEntry (g : Graph) : Prop :=
  ∀ k ∈ g.blocks, ∀ i ∈ k.instructions, i.address ∈ g.starts → i.address = k.address

/-- A block holds the start of another block behind its first instruction only behind an overlap. -/
def Graph.EntersBehindOverlaps (b : Buffer) (code : Int → Option Decoded) (entry : Int) (g : Graph) : Prop :=
  ∀ k ∈ g.blocks, ∀ i ∈ k.instructions, i.address ∈ g.starts → i.address = k.address ∨ b.BehindOverlap code entry i.address

section Overlap

variable {code : Int → Option Decoded} {b : Buffer} {entry c : Int}

theorem Buffer.BehindOverlap.next {d : Decoded} (h : b.BehindOverlap code entry c) (hd : code c = some d)
    (hgo : d.flow.GoesOn) : b.BehindOverlap code entry d.instruction.stop := by
  obtain ⟨x, y, hx, hy, hne, hlow, hhigh, run, hrun⟩ := h
  refine ⟨x, y, hx, hy, hne, hlow, hhigh, run ++ [d], ?_⟩
  rw [← List.cons_append]
  apply falls_append.mpr
  exact ⟨c, hrun, falls_singleton.mpr ⟨hd, hgo, rfl⟩⟩

theorem Buffer.behindOverlap_stop {x y : Decoded} (hx : b.Visits code entry x) (hy : b.Visits code entry y) (hne : x ≠ y)
    (hgo : x.flow.GoesOn) (hlow : y.instruction.address < x.instruction.stop)
    (hhigh : x.instruction.stop ≤ y.instruction.stop) : b.BehindOverlap code entry x.instruction.stop :=
  ⟨x, y, hx, hy, hne, hlow, hhigh, [], falls_singleton.mpr ⟨hx.1, hgo, rfl⟩⟩

theorem Buffer.Unambiguous.not_behindOverlap (hc : b.Carries code) (hu : b.Unambiguous code entry) :
    ¬b.BehindOverlap code entry c := by
  rintro ⟨x, y, hx, hy, hne, hlow, hhigh, -⟩
  have hlt := hc.lt_stop hx.1
  apply hne
  apply hu x y hx hy
  · omega
  · omega

theorem Graph.EntersBehindOverlaps.singleEntry {g : Graph} (hc : b.Carries code) (hu : b.Unambiguous code entry)
    (hg : g.EntersBehindOverlaps b code entry) : g.SingleEntry := by
  intro k hk i hi hstart
  rcases hg k hk i hi hstart with he | hbehind
  · exact he
  · exact absurd hbehind (hu.not_behindOverlap hc)

end Overlap

namespace Progress

variable {code : Int → Option Decoded} {b : Buffer} {arch : Architecture} {p q : Progress b} {entry : Int}

theorem Tracks.visits (hp : p.Tracks code entry) {k : Block} (hk : k ∈ p.graph.blocks) {d : Decoded}
    (hd : code d.instruction.address = some d) (hi : d.instruction ∈ k.instructions) : b.Visits code entry d :=
  ⟨hd, hp.reaches d ⟨hd, k, hk, hi⟩⟩

theorem Tracks.behindOverlap_of_shared (hc : b.Carries code) (hp : p.Tracks code entry)
    (hb : p.graph.EntersBehindOverlaps b code entry) {k l : Block} (hk : k ∈ p.graph.blocks)
    (hl : l ∈ p.graph.blocks) (hne : k ≠ l) {d : Decoded} (hd : code d.instruction.address = some d)
    (hdk : d.instruction ∈ k.instructions) (hdl : d.instruction ∈ l.instructions) :
    b.BehindOverlap code entry d.instruction.address := by
  have hshape := hp.coherent.shaped
  have hapart (he : d.instruction.address = k.address) (he' : d.instruction.address = l.address) : False :=
    hne (Graph.eq_of_address hp.coherent.nodup hk hl (he.symm.trans he'))
  -- on the way back from `d` to the start of `k`, as long as both blocks have the same instruction before `d`
  induction hn : (d.instruction.address - k.address).toNat using Nat.strong_induction_on generalizing d with
  | _ n ih =>
    rcases (hshape k hk).previous hc hd hdk with hstart | ⟨x, hx, hxk, hgo, hxd⟩
    · have hin : d.instruction.address ∈ p.graph.starts := (p.graph.mem_starts _).mpr ⟨k, hk, hstart.symm⟩
      rcases hb l hl _ hdl hin with he | hbehind
      · exact (hapart hstart he).elim
      · exact hbehind
    · rcases (hshape l hl).previous hc hd hdl with hstart | ⟨y, hy, hyl, -, hyd⟩
      · have hin : d.instruction.address ∈ p.graph.starts := (p.graph.mem_starts _).mpr ⟨l, hl, hstart.symm⟩
        rcases hb k hk _ hdk hin with he | hbehind
        · exact (hapart he hstart).elim
        · exact hbehind
      · by_cases hxy : x = y
        · have hlow := ((hshape k hk).within hc hx hxk).1
          have hlt := hc.lt_stop hx
          have hbehind : b.BehindOverlap code entry x.instruction.address := by
            apply ih _ _ hx hxk (hxy ▸ hyl) _ rfl
            · omega
            · intro he he'
              exact hne (Graph.eq_of_address hp.coherent.nodup hk hl (he.symm.trans he'))
          exact hxd ▸ hbehind.next hx hgo
        · have hlt := hc.lt_stop hy
          rw [← hxd]
          apply Buffer.behindOverlap_stop (hp.visits hk hx hxk) (hp.visits hl hy hyl) hxy hgo
          · omega
          · omega

section Cut

variable {a : Int} {ha : b.Holds a} {rest : List { a : Int // b.Holds a }} {g h : Graph}

theorem entersBehindOverlaps_cut (hc : b.Carries code) (hk : a ∉ g.starts) (hs : g.split? a = some h)
    (hp : Tracks code entry (b := b) ⟨⟨a, ha⟩ :: rest, g⟩) (hb : g.EntersBehindOverlaps b code entry) :
    h.EntersBehindOverlaps b code entry := by
  obtain ⟨-, -, k, hmem, head, tail, hcut, hblocks⟩ := Graph.mem_blocks_split? hs hk hp.coherent.nodup
  obtain ⟨before, after, ts, us, hi, rfl, rfl, -, -⟩ := Graph.cutBlock_parts hcut
  obtain ⟨happ, hbefore, j, js, rfl, hj⟩ := Graph.cutInstructions_eq_some hi
  have hshape := hp.coherent.shaped k hmem
  have hjk : j ∈ k.instructions := happ ▸ by simp
  have starts {c : Int} (h' : c ∈ h.starts) : c ∈ g.starts ∨ c = a := by
    rw [Graph.starts_split? hs hk] at h'
    simpa using h'
  intro l hl i hil hstart
  rcases (hblocks l).mp hl with rfl | rfl | ⟨hl, hlk⟩
  · have hik : i ∈ k.instructions := happ ▸ List.mem_append_left _ hil
    rcases starts hstart with hold | hnew
    · exact hb k hmem i hik hold
    · exact absurd hnew (hbefore i hil)
  · have hik : i ∈ k.instructions := happ ▸ List.mem_append_right _ hil
    rcases List.mem_cons.mp hil with rfl | hjs
    · exact .inl hj
    · rcases starts hstart with hold | hnew
      · have hlater : i ∈ k.instructions.tail := by
          rw [happ]
          cases before <;> simp [hjs]
        have hlt := hshape.lt_of_mem_tail hc hlater
        rcases hb k hmem i hik hold with he | hbehind
        · omega
        · exact .inr hbehind
      · exact .inl hnew
  · rcases starts hstart with hold | rfl
    · exact hb l hl i hil hold
    · obtain ⟨x, hx, rfl⟩ := (hp.coherent.shaped l hl).decoded hc hil
      obtain ⟨y, hy, rfl⟩ := hshape.decoded hc hjk
      have hxy : x = y := by
        rw [hj] at hy
        exact Option.some.inj (hx.symm.trans hy)
      exact .inr (hp.behindOverlap_of_shared hc hb hl hmem hlk hx hil (hxy ▸ hjk))

end Cut

section Gathered

variable {a : Int} {ha : b.Holds a} {rest : List { a : Int // b.Holds a }} {s : Growth} {run : List Decoded}
  {last : Decoded}

/-- Where no block is cut although one has an instruction there, the first one found around has the address inside an
instruction. -/
theorem Gathers.straddled (hc : b.Carries code) (hg : Gathers p a ha rest) (hp : p.Tracks code entry) {k : Block}
    (hk : k ∈ p.graph.blocks) (ha : k.spans a = true) : ∃ z, b.Visits code entry z ∧
      z.instruction.address < a ∧ a < z.instruction.stop := by
  have hwhole := (Graph.split?_eq_none_iff _ _).mp hg.whole
  cases hfound : p.graph.blockAround? a with
  | none => exact absurd ha (List.find?_eq_none.mp hfound k hk)
  | some l =>
    have hfind : p.graph.blocks.find? (·.spans a) = some l := hfound
    have hl : l ∈ p.graph.blocks := List.mem_of_find?_eq_some hfind
    have haround : l.spans a = true := by simpa using List.find?_some hfind
    obtain ⟨z, hz, hzl, hlow, hhigh⟩ := (hp.coherent.shaped l hl).covers hc haround
    have hne := hwhole l hfound _ hzl
    exact ⟨z, hp.visits hl hz hzl, by omega, hhigh⟩

theorem entersBehindOverlaps_gathered (hc : b.Carries code) (hg : Gathers p a ha rest)
    (hs : Gathered code b p.graph.starts a s run last) (hp : p.Tracks code entry)
    (hb : p.graph.EntersBehindOverlaps b code entry) : (p.graph.install s).EntersBehindOverlaps b code entry := by
  obtain ⟨hblocks, -, -⟩ := Graph.blocks_install (new_gathered hg hs)
  have starts {c : Int} (h : c ∈ (p.graph.install s).starts) : c ∈ p.graph.starts ∨ c = a := by
    rw [starts_gathered hg hs] at h
    simpa using h
  intro l hl i hil hstart
  rw [hblocks, List.mem_append, List.mem_singleton] at hl
  rcases hl with hl | rfl
  · rcases starts hstart with hold | rfl
    · exact hb l hl i hil hold
    · have hshape := hp.coherent.shaped l hl
      obtain ⟨d, hd, rfl⟩ := hshape.decoded hc hil
      rcases hshape.previous hc hd hil with he | ⟨x, hx, hxl, hgo, hxd⟩
      · exact .inl he
      · have hwithin := hshape.within hc hd hil
        have hlt := hc.lt_stop hd
        have hspans : l.spans d.instruction.address = true := (l.spans_iff _).mpr ⟨hwithin.1, by omega⟩
        obtain ⟨z, hz, hlow, hhigh⟩ := hg.straddled hc hp hl hspans
        right
        rw [← hxd]
        apply Buffer.behindOverlap_stop (hp.visits hl hx hxl) hz _ hgo
        · omega
        · omega
        · rintro rfl
          omega
  · rw [hs.address]
    rcases starts hstart with hold | hnew
    · rw [hs.consists.instructions] at hil
      obtain ⟨d, hd, rfl⟩ := List.mem_map.mp hil
      obtain ⟨x, xs, he, hx⟩ := hs.consists.falls.begins hs.consists.closed
      have hfresh := hs.fresh
      rw [he] at hd hfresh
      rcases List.mem_cons.mp hd with rfl | hd
      · rw [hc.address hx, hs.address]
        exact .inl rfl
      · exact absurd hold (hfresh d hd)
    · exact .inl hnew

end Gathered

theorem Step.entersBehindOverlaps (hc : b.Carries code) (h : Step arch (Swept code) p q) (hp : p.Tracks code entry)
    (hb : p.graph.EntersBehindOverlaps b code entry) : q.graph.EntersBehindOverlaps b code entry := by
  cases h with
  | known hk => exact hb
  | cut hk hs => exact entersBehindOverlaps_cut hc hk hs hp hb
  | @gathered _ a ha rest ds s hg hd hs =>
    obtain ⟨run, last, hs⟩ := gather_local ha hc hd hs
    exact entersBehindOverlaps_gathered hc hg hs hp hb

def Reordered (p q : Progress b) : Prop := q.queue.Perm p.queue ∧ q.graph = p.graph

/-- Runs that may put the queue into another order before each step. -/
abbrev RunsInAnyOrder (arch : Architecture) (answers : Int → List Decoded → Prop) : Progress b → Progress b → Prop :=
  ReflTransGen fun p q => Step arch answers p q ∨ Reordered p q

theorem Runs.inAnyOrder {answers : Int → List Decoded → Prop} (h : Runs arch answers p q) :
    RunsInAnyOrder arch answers p q :=
  ReflTransGen.mono (fun _ _ hs => Or.inl hs) _ _ h

theorem Reordered.tracks (h : Reordered p q) (hp : p.Tracks code entry) : q.Tracks code entry := by
  obtain ⟨pq, pg⟩ := p
  obtain ⟨qq, qg⟩ := q
  obtain ⟨hqueue, rfl⟩ : qq.Perm pq ∧ qg = pg := h
  have hknows (c : Int) : Knows (b := b) ⟨qq, qg⟩ c ↔ Knows ⟨pq, qg⟩ c :=
    or_congr Iff.rfl (hqueue.map _).mem_iff
  obtain ⟨⟨hnodup, hshaped, hcontinues, htargets⟩, hentry, hleads, hreaches, hknown, href⟩ := hp
  refine ⟨⟨hnodup, hshaped, ?_, htargets⟩, (hknows entry).mpr hentry, ?_, hreaches, ?_, href⟩
  · intro k hk c hcontinue
    exact (hknows c).mpr (hcontinues k hk c hcontinue)
  · intro c hc
    exact hleads c ((hknows c).mp hc)
  · intro d hd t ht hh
    exact (hknows t).mpr (hknown d hd t ht hh)

theorem runsInAnyOrder_entersBehindOverlaps (hc : b.Carries code) (he : b.Holds entry)
    (h : RunsInAnyOrder arch (Swept code) (start b entry he) p) :
    p.Tracks code entry ∧ p.graph.EntersBehindOverlaps b code entry := by
  induction h with
  | refl =>
    refine ⟨tracks_start he, ?_⟩
    intro k hk
    exact absurd hk List.not_mem_nil
  | tail _ hs ih =>
    obtain ⟨hp, hb⟩ := ih
    rcases hs with hs | hs
    · exact ⟨hs.tracks hc hp, hs.entersBehindOverlaps hc hp hb⟩
    · exact ⟨hs.tracks hp, hs.2 ▸ hb⟩

theorem runsInAnyOrder_singleEntry (hc : b.Carries code) (hu : b.Unambiguous code entry) (he : b.Holds entry)
    (h : RunsInAnyOrder arch (Swept code) (start b entry he) p) : p.Tracks code entry ∧ p.graph.SingleEntry := by
  obtain ⟨hp, hb⟩ := runsInAnyOrder_entersBehindOverlaps hc he h
  exact ⟨hp, hb.singleEntry hc hu⟩

section Unambiguous

variable (hc : b.Carries code) (hu : b.Unambiguous code entry) (hp : p.Tracks code entry) (hse : p.graph.SingleEntry)
include hc hu hp hse

theorem Tracks.same_block {k l : Block} (hk : k ∈ p.graph.blocks) (hl : l ∈ p.graph.blocks) {d : Decoded}
    (hd : code d.instruction.address = some d) (hdk : d.instruction ∈ k.instructions)
    (hdl : d.instruction ∈ l.instructions) : k = l := by
  have hb : p.graph.EntersBehindOverlaps b code entry := fun k hk i hi hstart => .inl (hse k hk i hi hstart)
  by_contra hne
  exact hu.not_behindOverlap hc (hp.behindOverlap_of_shared hc hb hk hl hne hd hdk hdl)

theorem Tracks.same_block_of_spans {k l : Block} (hk : k ∈ p.graph.blocks) (hl : l ∈ p.graph.blocks) {a : Int}
    (hka : k.spans a = true) (hla : l.spans a = true) : k = l := by
  have hshape := hp.coherent.shaped
  obtain ⟨x, hx, hxk, hxa⟩ := (hshape k hk).covers hc hka
  obtain ⟨y, hy, hyl, hya⟩ := (hshape l hl).covers hc hla
  have hxy : x = y := by
    apply hu x y (hp.visits hk hx hxk) (hp.visits hl hy hyl)
    · omega
    · omega
  exact hp.same_block hc hu hse hk hl hx hxk (hxy ▸ hyl)

end Unambiguous

end Progress

end AssemblyConsole
