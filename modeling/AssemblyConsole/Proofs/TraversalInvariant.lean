import AssemblyConsole.Proofs.BlockShape
import AssemblyConsole.Proofs.TraversalEnds
import Mathlib.Data.List.Nodup

/-!
What holds of the queue and the graph all along a traversal, when each address of the buffer is decoded on its own.
-/

namespace AssemblyConsole

open Buffer Growth

namespace Graph

variable {g h : Graph} {a : Int}

theorem eq_of_address (hn : g.starts.Nodup) {k l : Block} (hk : k ∈ g.blocks) (hl : l ∈ g.blocks)
    (he : k.address = l.address) : k = l :=
  List.inj_on_of_nodup_map hn hk hl he

theorem put_new {k : Block} (h : k.address ∉ g.starts) : g.put k = { g with blocks := g.blocks ++ [k] } := by
  rw [put, if_neg h]

theorem put_known {k : Block} (h : k.address ∈ g.starts) :
    g.put k = { g with blocks := g.blocks.map fun c => if c.address = k.address then k else c } := by
  rw [put, if_pos h]

/-- Of blocks at different addresses, the one at a block's address gives way to it. -/
theorem replace_eq {before after : List Block} {k head : Block}
    (hn : ((before ++ k :: after).map (·.address)).Nodup) (he : head.address = k.address) :
    ((before ++ k :: after).map fun c => if c.address = head.address then head else c) = before ++ head :: after := by
  rw [List.map_append, List.map_cons, List.nodup_append, List.nodup_cons] at hn
  obtain ⟨-, ⟨hafter, -⟩, hbefore⟩ := hn
  have keep {ls : List Block} (hls : ∀ l ∈ ls, l.address ≠ k.address) :
      (ls.map fun c => if c.address = head.address then head else c) = ls := by
    rw [List.map_congr_left (g := id), List.map_id]
    intro l hl
    rw [he, if_neg (hls l hl), id]
  rw [List.map_append, List.map_cons, if_pos he.symm, keep, keep]
  · intro l hl hla
    exact hafter (hla ▸ List.mem_map_of_mem hl)
  · intro l hl
    exact hbefore _ (List.mem_map_of_mem hl) _ List.mem_cons_self

/-- A cut puts one part where the block stood and the other behind all blocks. -/
theorem split?_eq_some (hs : g.split? a = some h) (ha : a ∉ g.starts) (hn : g.starts.Nodup) :
    ∃ before k after head tail, g.blocks = before ++ k :: after ∧ g.blockAround? a = some k ∧
      g.cutBlock a k = some (head, tail) ∧ h = { g with blocks := before ++ head :: after ++ [tail] } := by
  simp only [split?, Option.bind_eq_bind, Option.bind_eq_some_iff] at hs
  obtain ⟨k, hk, ⟨head, tail⟩, hcut, he⟩ := hs
  obtain ⟨before, after, hblocks⟩ := List.append_of_mem (List.mem_of_find?_eq_some hk)
  obtain ⟨_, _, -, hhead, htail⟩ := cutBlock_eq_some hcut
  have haddress : head.address = k.address := by rw [hhead]
  have hstart : head.address ∈ g.starts := (g.mem_starts _).mpr ⟨k, List.mem_of_find?_eq_some hk, haddress.symm⟩
  have hnew : tail.address ∉ (g.put head).starts := by
    rw [starts_put, if_pos hstart, htail]
    exact ha
  refine ⟨before, k, after, head, tail, hblocks, hk, hcut, ?_⟩
  rw [starts, hblocks] at hn
  rw [← Option.some.inj he, put_new hnew, put_known hstart, hblocks, replace_eq hn haddress]

theorem mem_blocks_split? (hs : g.split? a = some h) (ha : a ∉ g.starts) (hn : g.starts.Nodup) :
    h.references = g.references ∧ h.entry = g.entry ∧ ∃ k ∈ g.blocks, ∃ head tail,
      g.cutBlock a k = some (head, tail) ∧ ∀ l, l ∈ h.blocks ↔ l = head ∨ l = tail ∨ (l ∈ g.blocks ∧ l ≠ k) := by
  obtain ⟨before, k, after, head, tail, hblocks, -, hcut, rfl⟩ := split?_eq_some hs ha hn
  rw [starts, hblocks] at hn
  obtain ⟨hk, -⟩ := List.nodup_cons.mp (List.nodup_middle.mp (List.Nodup.of_map _ hn))
  have hothers (l : Block) : l ∈ before ++ after ↔ l ∈ g.blocks ∧ l ≠ k := by
    rw [hblocks, List.perm_middle.mem_iff, List.mem_cons, or_and_right, and_not_self_iff, false_or, iff_self_and]
    rintro hl rfl
    exact hk hl
  refine ⟨rfl, rfl, k, by simp [hblocks], head, tail, hcut, ?_⟩
  intro l
  rw [← hothers, List.mem_append, List.perm_middle.mem_iff, List.mem_cons, List.mem_singleton, or_assoc,
    or_comm (a := l = tail)]

theorem foldl_refer (rs : List Reference) (g : Graph) :
    (rs.foldl refer g).blocks = g.blocks ∧ (rs.foldl refer g).entry = g.entry ∧
      ∀ q, q ∈ (rs.foldl refer g).references ↔ q ∈ g.references ∨ q ∈ rs := by
  induction rs generalizing g with
  | nil => simp
  | cons r rs ih =>
    obtain ⟨hb, he, hr⟩ := ih (g.refer r)
    have hrefer : (g.refer r).blocks = g.blocks ∧ (g.refer r).entry = g.entry := by
      unfold refer
      split <;> exact ⟨rfl, rfl⟩
    refine ⟨hb.trans hrefer.1, he.trans hrefer.2, ?_⟩
    intro q
    rw [List.foldl_cons, hr, mem_references_refer, List.mem_cons, or_assoc]

theorem blocks_install {s : Growth} (hs : s.block.address ∉ g.starts) :
    (g.install s).blocks = g.blocks ++ [s.block] ∧ (g.install s).entry = g.entry ∧
      ∀ q, q ∈ (g.install s).references ↔ q ∈ g.references ∨ q ∈ s.references := by
  obtain ⟨hb, he, hr⟩ := foldl_refer s.references g
  have hn : s.block.address ∉ (s.references.foldl refer g).starts := by rwa [starts_foldl_refer]
  rw [install, put_new hn]
  exact ⟨by rw [hb], he, hr⟩

theorem cutBlock_parts {k head tail : Block} (h : g.cutBlock a k = some (head, tail)) :
    ∃ before after ts us, cutInstructions a k.instructions = some (before, after) ∧
      head = ⟨k.address, before, false, some a, ts⟩ ∧ tail = ⟨a, after, k.isExit, k.continuesAt, us⟩ ∧
      ts ⊆ k.targets ∧ us ⊆ k.targets := by
  obtain ⟨before, after, hc, rfl, rfl⟩ := cutBlock_eq_some h
  exact ⟨before, after, _, _, hc, rfl, rfl, List.filter_subset_self _, List.filter_subset_self _⟩

theorem mem_fresh {b : Buffer} {successors : List Int} {c : Int} :
    c ∈ (fresh b g successors).map (·.1) ↔ c ∈ successors ∧ b.Holds c ∧ c ∉ g.starts := by
  simp only [fresh, List.mem_map, List.mem_filterMap]
  constructor
  · rintro ⟨⟨d, hd⟩, ⟨e, he, hf⟩, rfl⟩
    split at hf
    · split at hf
      · simp at hf
      · rename_i hn
        obtain rfl := congrArg Subtype.val (Option.some.inj hf)
        exact ⟨he, hd, hn⟩
    · simp at hf
  · rintro ⟨hs, hh, hn⟩
    exact ⟨⟨c, hh⟩, ⟨c, hs, by rw [dif_pos hh, if_neg hn]⟩, rfl⟩

def Shows (code : Int → Option Decoded) (g : Graph) (d : Decoded) : Prop :=
  code d.instruction.address = some d ∧ ∃ k ∈ g.blocks, d.instruction ∈ k.instructions

/-- A cut leaves each instruction in the graph, and brings none. -/
theorem shows_split? (code : Int → Option Decoded) (hs : g.split? a = some h) (ha : a ∉ g.starts)
    (hn : g.starts.Nodup) (d : Decoded) : h.Shows code d ↔ g.Shows code d := by
  obtain ⟨-, -, k, hmem, head, tail, hcut, hblocks⟩ := mem_blocks_split? hs ha hn
  obtain ⟨before, after, ts, us, hi, rfl, rfl, -, -⟩ := cutBlock_parts hcut
  have hsplit := (cutInstructions_eq_some hi).1
  simp only [Shows, hblocks]
  apply and_congr_right
  intro _
  constructor
  · rintro ⟨l, rfl | rfl | ⟨hl, -⟩, hd⟩
    · exact ⟨k, hmem, hsplit ▸ List.mem_append_left _ hd⟩
    · exact ⟨k, hmem, hsplit ▸ List.mem_append_right _ hd⟩
    · exact ⟨l, hl, hd⟩
  · rintro ⟨l, hl, hd⟩
    by_cases he : l = k
    · rw [he, hsplit] at hd
      rcases List.mem_append.mp hd with hd | hd
      · exact ⟨_, .inl rfl, hd⟩
      · exact ⟨_, .inr (.inl rfl), hd⟩
    · exact ⟨l, .inr (.inr ⟨hl, he⟩), hd⟩

end Graph

namespace Progress

/-- A block begins at the address, or will. -/
def Knows {b : Buffer} (p : Progress b) (c : Int) : Prop := c ∈ p.graph.starts ∨ c ∈ p.queue.map (·.1)

theorem mem_starts_of_knows {b : Buffer} {g : Graph} {c : Int} (h : Knows (b := b) ⟨[], g⟩ c) : c ∈ g.starts := by
  simpa [Knows] using h

structure Coherent (code : Int → Option Decoded) {b : Buffer} (p : Progress b) : Prop where
  nodup : p.graph.starts.Nodup
  shaped : ∀ k ∈ p.graph.blocks, k.Shaped code b
  continues : ∀ k ∈ p.graph.blocks, ∀ c, k.continuesAt = some c → p.Knows c
  targets : ∀ k ∈ p.graph.blocks, ∀ t ∈ k.targets, ∃ d, p.graph.Shows code d ∧ d.target = some t

/-- What a step adds: the instructions `new`, and the addresses that they lead to. -/
structure Extends (code : Int → Option Decoded) {b : Buffer} (p q : Progress b) (new : List Decoded) : Prop where
  shows : ∀ d, q.graph.Shows code d ↔ p.graph.Shows code d ∨ d ∈ new
  knows : ∀ c, p.Knows c → q.Knows c
  learns : ∀ c, q.Knows c → p.Knows c ∨ b.Holds c ∧ ∃ d ∈ new, d.Branches c
  targets : ∀ d ∈ new, ∀ t, d.target = some t → b.Holds t → q.Knows t
  falls : ∀ d ∈ new, ∃ c, p.Knows c ∧ ∃ run, Falls code c run d.instruction.address
  references : ∀ r, r ∈ q.graph.references ↔ r ∈ p.graph.references ∨
    ∃ d ∈ new, d.target = some r.target ∧ d.instruction.address = r.source
  entry : q.graph.entry = p.graph.entry

variable {code : Int → Option Decoded} {b : Buffer} {arch : Architecture} {p q : Progress b}

theorem gather_local {a : Int} {ds : List Decoded} {s : Growth} (ha : b.Holds a)
    (hc : b.Carries code) (hd : Swept code a ds)
    (hg : Growth.gather arch b p.graph.starts (.start a) ds = .ok s) :
    ∃ run last, Gathered code b p.graph.starts a s run last := by
  have hsettles : Settles code b arch p.graph.starts a _ := gather_start_settles hc hd ha
  rwa [hg] at hsettles

theorem extends_known {a : Int} {ha : b.Holds a} {rest : List { a : Int // b.Holds a }} {g : Graph}
    (hk : a ∈ g.starts) : Extends code (b := b) ⟨⟨a, ha⟩ :: rest, g⟩ ⟨rest, g⟩ [] := by
  refine ⟨by simp, ?_, ?_, by simp, by simp, by simp, rfl⟩
  · rintro c (h | h)
    · exact .inl h
    · rcases List.mem_cons.mp h with rfl | h
      · exact .inl hk
      · exact .inr h
  · rintro c (h | h)
    · exact .inl (.inl h)
    · exact .inl (.inr (List.mem_cons_of_mem _ h))

theorem extends_cut {a : Int} {ha : b.Holds a} {rest : List { a : Int // b.Holds a }} {g h : Graph}
    (hk : a ∉ g.starts) (hs : g.split? a = some h) (hn : g.starts.Nodup) :
    Extends code (b := b) ⟨⟨a, ha⟩ :: rest, g⟩ ⟨rest, h⟩ [] := by
  have hstarts := Graph.starts_split? hs hk
  obtain ⟨href, hentry, -⟩ := Graph.mem_blocks_split? hs hk hn
  refine ⟨?_, ?_, ?_, by simp, by simp, by simp [href], hentry⟩
  · intro d
    simp [Graph.shows_split? code hs hk hn]
  · rintro c (h | h)
    · exact .inl (hstarts ▸ List.mem_append_left _ h)
    · rcases List.mem_cons.mp h with rfl | h
      · exact .inl (hstarts ▸ by simp)
      · exact .inr h
  · rintro c (h | h)
    · rw [hstarts] at h
      rcases List.mem_append.mp h with h | h
      · exact .inl (.inl h)
      · exact .inl (.inr (by simp [List.mem_singleton.mp h]))
    · exact .inl (.inr (List.mem_cons_of_mem _ h))

section Gathered

variable {a : Int} {ha : b.Holds a} {rest : List { a : Int // b.Holds a }} {s : Growth} {run : List Decoded}
  {last : Decoded}

theorem new_gathered (hp : Gathers p a ha rest) (hs : Gathered code b p.graph.starts a s run last) :
    s.block.address ∉ p.graph.starts := hs.address ▸ hp.unknown

theorem starts_gathered (hp : Gathers p a ha rest) (hs : Gathered code b p.graph.starts a s run last) :
    (p.graph.install s).starts = p.graph.starts ++ [a] := by
  rw [Graph.starts_install (new_gathered hp hs), hs.address]

theorem shows_gathered (hc : b.Carries code) (hp : Gathers p a ha rest)
    (hs : Gathered code b p.graph.starts a s run last) (d : Decoded) :
    (p.graph.install s).Shows code d ↔ p.graph.Shows code d ∨ d ∈ run ++ [last] := by
  obtain ⟨hblocks, -, -⟩ := Graph.blocks_install (new_gathered hp hs)
  simp only [Graph.Shows, hblocks, List.mem_append (t := [s.block]), List.mem_singleton]
  constructor
  · rintro ⟨hd, k, hk | rfl, hi⟩
    · exact .inl ⟨hd, k, hk, hi⟩
    · exact .inr ((hs.consists.mem_instructions hc hd).mp hi)
  · rintro (⟨hd, k, hk, hi⟩ | h)
    · exact ⟨hd, k, .inl hk, hi⟩
    · have hd := hs.consists.decoded hc d h
      exact ⟨hd, _, .inr rfl, (hs.consists.mem_instructions hc hd).mpr h⟩

/-- What waits behind a gathered block waited before, or an instruction of the block leads there. -/
theorem learns_gathered (hp : Gathers p a ha rest) (hs : Gathered code b p.graph.starts a s run last) {c : Int}
    (h : Knows (b := b) ⟨rest ++ Graph.fresh b (p.graph.install s) s.block.successors, p.graph.install s⟩ c) :
    p.Knows c ∨ b.Holds c ∧ ∃ d ∈ run ++ [last], d.Branches c := by
  have hstarts := starts_gathered hp hs
  rcases h with h | h
  · rw [hstarts] at h
    rcases List.mem_append.mp h with h | h
    · exact .inl (.inl h)
    · exact .inl (.inr (by simp [hp.queue, List.mem_singleton.mp h]))
  · rw [List.map_append, List.mem_append, Graph.mem_fresh] at h
    rcases h with h | ⟨h, hh, hn⟩
    · exact .inl (.inr (by rw [hp.queue]; exact List.mem_cons_of_mem _ h))
    · rw [Block.successors, List.mem_append, hs.targets, List.mem_filterMap] at h
      rcases h with ⟨d, hd, ht⟩ | h
      · exact .inr ⟨hh, d, hd, .inl ht⟩
      · rw [Option.mem_toList, hs.consists.continuesAt] at h
        obtain ⟨hgo | hcond, -, he⟩ := Decoded.continuesAt?_eq_some_iff.mp h
        · have hin := hs.joins hgo (he ▸ hh)
          rw [hstarts, he] at *
          exact absurd (List.mem_append_left _ hin) hn
        · exact .inr ⟨hh, last, by simp, .inr ⟨hcond, he⟩⟩

theorem references_gathered (hp : Gathers p a ha rest) (hs : Gathered code b p.graph.starts a s run last)
    (r : Reference) : r ∈ (p.graph.install s).references ↔ r ∈ p.graph.references ∨
      ∃ d ∈ run ++ [last], d.target = some r.target ∧ d.instruction.address = r.source := by
  obtain ⟨-, -, href⟩ := Graph.blocks_install (new_gathered hp hs)
  rw [href, hs.references, List.mem_filterMap]
  apply or_congr Iff.rfl
  constructor
  · rintro ⟨d, hd, hr⟩
    obtain ⟨t, ht, rfl⟩ := Option.map_eq_some_iff.mp hr
    exact ⟨d, hd, ht, rfl⟩
  · rintro ⟨d, hd, ht, hr⟩
    exact ⟨d, hd, by rw [ht, hr]; rfl⟩

theorem extends_gathered (hc : b.Carries code) (hp : Gathers p a ha rest)
    (hs : Gathered code b p.graph.starts a s run last) :
    Extends code p ⟨rest ++ Graph.fresh b (p.graph.install s) s.block.successors, p.graph.install s⟩
      (run ++ [last]) := by
  have hstarts := starts_gathered hp hs
  refine ⟨shows_gathered hc hp hs, ?_, fun c => learns_gathered hp hs, ?_, ?_, references_gathered hp hs,
    (Graph.blocks_install (new_gathered hp hs)).2.1⟩
  · rintro c (h | h)
    · exact .inl (hstarts ▸ List.mem_append_left _ h)
    · rw [hp.queue] at h
      rcases List.mem_cons.mp h with rfl | h
      · exact .inl (hstarts ▸ by simp)
      · refine .inr ?_
        rw [List.map_append]
        exact List.mem_append_left _ h
  · intro d hd t ht hh
    by_cases hk : t ∈ (p.graph.install s).starts
    · exact .inl hk
    · refine .inr ?_
      rw [List.map_append, List.mem_append, Graph.mem_fresh, Block.successors, List.mem_append, hs.targets]
      exact .inr ⟨.inl (List.mem_filterMap.mpr ⟨d, hd, ht⟩), hh, hk⟩
  · intro d hd
    have hf := hs.consists.falls
    rw [hs.address] at hf
    exact ⟨a, .inr (by simp [hp.queue]), hf.upTo hc d hd⟩

end Gathered

theorem Step.extends (hc : b.Carries code) (h : Step arch (Swept code) p q) (hp : p.graph.starts.Nodup) :
    ∃ new, Extends code p q new := by
  cases h with
  | known hk => exact ⟨[], extends_known hk⟩
  | cut hk hs => exact ⟨[], extends_cut hk hs hp⟩
  | @gathered _ a ha rest ds s hp' hd hg =>
    obtain ⟨run, last, hs⟩ := gather_local ha hc hd hg
    exact ⟨run ++ [last], extends_gathered hc hp' hs⟩

theorem coherent_cut {a : Int} {ha : b.Holds a} {rest : List { a : Int // b.Holds a }} {g h : Graph}
    (hc : b.Carries code) (hk : a ∉ g.starts) (hs : g.split? a = some h)
    (hp : Coherent code (b := b) ⟨⟨a, ha⟩ :: rest, g⟩) (hn : h.starts.Nodup) :
    Coherent code (b := b) ⟨rest, h⟩ := by
  have hx : Extends code (b := b) ⟨⟨a, ha⟩ :: rest, g⟩ ⟨rest, h⟩ [] := extends_cut hk hs hp.nodup
  obtain ⟨-, -, k, hmem, head, tail, hcut, hblocks⟩ := Graph.mem_blocks_split? hs hk hp.nodup
  obtain ⟨before, after, ts, us, hi, rfl, rfl, hts, hus⟩ := Graph.cutBlock_parts hcut
  have hne : k.address ≠ a := fun he => hk ((g.mem_starts a).mpr ⟨k, hmem, he⟩)
  obtain ⟨hhead, htail⟩ := (hp.shaped k hmem).cut hc hi hne ts us
  have old {l : Block} (hl : l ∈ g.blocks) {t : Int} (ht : t ∈ l.targets) :
      ∃ d, h.Shows code d ∧ d.target = some t := by
    obtain ⟨d, hd, he⟩ := hp.targets l hl t ht
    exact ⟨d, (hx.shows d).mpr (.inl hd), he⟩
  refine ⟨hn, ?_, ?_, ?_⟩
  · intro l hl
    rcases (hblocks l).mp hl with rfl | rfl | ⟨hl, -⟩
    · exact hhead
    · exact htail
    · exact hp.shaped l hl
  · intro l hl c hcont
    rcases (hblocks l).mp hl with rfl | rfl | ⟨hl, -⟩
    · obtain rfl := Option.some.inj hcont
      exact .inl (by simp [Graph.starts_split? hs hk])
    · exact hx.knows c (hp.continues k hmem c hcont)
    · exact hx.knows c (hp.continues l hl c hcont)
  · intro l hl t ht
    rcases (hblocks l).mp hl with rfl | rfl | ⟨hl, -⟩
    · exact old hmem (hts ht)
    · exact old hmem (hus ht)
    · exact old hl ht

theorem coherent_gathered {a : Int} {ha : b.Holds a} {rest : List { a : Int // b.Holds a }} {s : Growth}
    {run : List Decoded} {last : Decoded} (hc : b.Carries code) (hg : Gathers p a ha rest)
    (hs : Gathered code b p.graph.starts a s run last) (hp : p.Coherent code) (hn : (p.graph.install s).starts.Nodup) :
    Coherent code (b := b)
      ⟨rest ++ Graph.fresh b (p.graph.install s) s.block.successors, p.graph.install s⟩ := by
  have hx := extends_gathered hc hg hs
  have hblocks := (Graph.blocks_install (g := p.graph) (s := s) (hs.address ▸ hg.unknown)).1
  have mem {l : Block} (hl : l ∈ (p.graph.install s).blocks) : l ∈ p.graph.blocks ∨ l = s.block := by
    simpa [hblocks] using hl
  refine ⟨hn, ?_, ?_, ?_⟩
  · intro l hl
    rcases mem hl with hl | rfl
    · exact hp.shaped l hl
    · exact ⟨run, last, hs.consists⟩
  · intro l hl c hcont
    rcases mem hl with hl | rfl
    · exact hx.knows c (hp.continues l hl c hcont)
    · have hh : b.Holds c := by
        rw [hs.consists.continuesAt] at hcont
        exact (Decoded.continuesAt?_eq_some_iff.mp hcont).2.1
      by_cases hk : c ∈ (p.graph.install s).starts
      · exact .inl hk
      · refine .inr ?_
        rw [List.map_append, List.mem_append, Graph.mem_fresh, Block.successors, hcont]
        exact .inr ⟨by simp, hh, hk⟩
  · intro l hl t ht
    rcases mem hl with hl | rfl
    · obtain ⟨d, hd, he⟩ := hp.targets l hl t ht
      exact ⟨d, (hx.shows d).mpr (.inl hd), he⟩
    · rw [hs.targets] at ht
      obtain ⟨d, hd, he⟩ := List.mem_filterMap.mp ht
      exact ⟨d, (hx.shows d).mpr (.inr hd), he⟩

theorem Step.coherent (hc : b.Carries code) (h : Step arch (Swept code) p q) (hp : p.Coherent code) :
    q.Coherent code := by
  have hn := h.nodup hp.nodup
  cases h with
  | @known a ha rest g hk =>
    have hx : Extends code (b := b) ⟨⟨a, ha⟩ :: rest, g⟩ ⟨rest, g⟩ [] := extends_known hk
    refine ⟨hn, hp.shaped, ?_, hp.targets⟩
    intro l hl c hcont
    exact hx.knows c (hp.continues l hl c hcont)
  | cut hk hs => exact coherent_cut hc hk hs hp hn
  | @gathered _ a ha rest ds s hg hd hs =>
    obtain ⟨run, last, hs⟩ := gather_local ha hc hd hs
    exact coherent_gathered hc hg hs hp hn

theorem Coherent.decoded (hc : b.Carries code) (hp : p.Coherent code) {k : Block} (hk : k ∈ p.graph.blocks)
    {i : Instruction} (hi : i ∈ k.instructions) : ∃ d, p.graph.Shows code d ∧ d.instruction = i := by
  obtain ⟨run, last, hs⟩ := hp.shaped k hk
  have hm := hi
  rw [hs.instructions] at hm
  obtain ⟨d, hd, rfl⟩ := List.mem_map.mp hm
  exact ⟨d, ⟨hs.decoded hc d hd, k, hk, hi⟩, rfl⟩

theorem Coherent.begins (hc : b.Carries code) (hp : p.Coherent code) {c : Int} (h : c ∈ p.graph.starts) :
    ∃ d, p.graph.Shows code d ∧ d.instruction.address = c := by
  obtain ⟨k, hk, rfl⟩ := (p.graph.mem_starts c).mp h
  obtain ⟨run, last, hs⟩ := hp.shaped k hk
  obtain ⟨d, rest, he, hd⟩ := hs.falls.begins hs.closed
  have hmem : d ∈ run ++ [last] := he ▸ List.mem_cons_self
  have hcode := hs.decoded hc d hmem
  exact ⟨d, ⟨hcode, k, hk, (hs.mem_instructions hc hcode).mpr hmem⟩, hc.address hd⟩

/-- Where an instruction lets control pass, the next one is in the graph or will be. -/
theorem Coherent.passes (hc : b.Carries code) (hp : p.Coherent code) {d : Decoded} (hd : p.graph.Shows code d)
    (hh : b.Holds d.instruction.stop) : (d.flow = .conditional → p.Knows d.instruction.stop) ∧
      (d.flow.GoesOn → p.Knows d.instruction.stop ∨
        ∃ e, p.graph.Shows code e ∧ e.instruction.address = d.instruction.stop) := by
  obtain ⟨hcode, k, hk, hi⟩ := hd
  obtain ⟨run, last, hs⟩ := hp.shaped k hk
  have shown {e : Decoded} (he : e ∈ run ++ [last]) : p.graph.Shows code e :=
    have hcode := hs.decoded hc e he
    ⟨hcode, k, hk, (hs.mem_instructions hc hcode).mpr he⟩
  rcases List.mem_append.mp ((hs.mem_instructions hc hcode).mp hi) with hrun | hlast
  · have hgo := hs.falls.goesOn d hrun
    constructor
    · intro hcond
      rw [hcond] at hgo
      exact hgo.elim
    · intro _
      rcases hs.falls.next hc d hrun with he | ⟨x, hx, he⟩
      · exact .inr ⟨last, shown (by simp), he.symm⟩
      · exact .inr ⟨x, shown (by simp [hx]), he⟩
  · obtain rfl := List.mem_singleton.mp hlast
    have knows (hw : d.flow.GoesOn ∨ d.flow = .conditional) : p.Knows d.instruction.stop :=
      hp.continues k hk _ (hs.continuesAt.trans (Decoded.continuesAt?_eq_some_iff.mpr ⟨hw, hh, rfl⟩))
    exact ⟨fun h => knows (.inr h), fun h => .inl (knows (.inl h))⟩

/-- What the queue and the graph have to do with the entry. -/
structure Tracks (code : Int → Option Decoded) (entry : Int) {b : Buffer} (p : Progress b) : Prop where
  coherent : p.Coherent code
  knowsEntry : p.Knows entry
  leads : ∀ c, p.Knows c → c = entry ∨ b.Holds c ∧ ∃ d, p.graph.Shows code d ∧ d.Branches c
  reaches : ∀ d, p.graph.Shows code d → b.Reaches code entry d.instruction.address
  targets : ∀ d, p.graph.Shows code d → ∀ t, d.target = some t → b.Holds t → p.Knows t
  references : ∀ r, r ∈ p.graph.references ↔
    ∃ d, p.graph.Shows code d ∧ d.target = some r.target ∧ d.instruction.address = r.source

variable {entry : Int}

theorem tracks_start (he : b.Holds entry) : Tracks code entry (.start b entry he) := by
  have hshows (d : Decoded) : ¬(start b entry he).graph.Shows code d := by
    rintro ⟨-, k, hk, -⟩
    exact List.not_mem_nil hk
  refine ⟨⟨List.nodup_nil, ?_, ?_, ?_⟩, .inr List.mem_cons_self, ?_, ?_, ?_, ?_⟩
  · exact fun k hk => absurd hk List.not_mem_nil
  · exact fun k hk => absurd hk List.not_mem_nil
  · exact fun k hk => absurd hk List.not_mem_nil
  · rintro c (h | h)
    · exact absurd h List.not_mem_nil
    · exact .inl (List.mem_singleton.mp h)
  · exact fun d hd => absurd hd (hshows d)
  · exact fun d hd => absurd hd (hshows d)
  · intro r
    constructor
    · exact fun h => absurd h List.not_mem_nil
    · rintro ⟨d, hd, -⟩
      exact absurd hd (hshows d)

theorem Tracks.reaches_of_knows (hc : b.Carries code) (hp : p.Tracks code entry) {c : Int} (h : p.Knows c) :
    b.Reaches code entry c := by
  rcases hp.leads c h with rfl | ⟨hh, d, hd, hb⟩
  · exact .refl
  · exact (hp.reaches d hd).tail ⟨d, hd.1, (mem_successors_iff hc hd.1).mpr (.inl hb), hh⟩

theorem Step.tracks (hc : b.Carries code) (h : Step arch (Swept code) p q) (hp : p.Tracks code entry) :
    q.Tracks code entry := by
  obtain ⟨new, hx⟩ := h.extends hc hp.coherent.nodup
  refine ⟨h.coherent hc hp.coherent, hx.knows entry hp.knowsEntry, ?_, ?_, ?_, ?_⟩
  · intro c hk
    rcases hx.learns c hk with hk | ⟨hh, d, hd, hb⟩
    · rcases hp.leads c hk with he | ⟨hh, d, hd, hb⟩
      · exact .inl he
      · exact .inr ⟨hh, d, (hx.shows d).mpr (.inl hd), hb⟩
    · exact .inr ⟨hh, d, (hx.shows d).mpr (.inr hd), hb⟩
  · intro d hd
    rcases (hx.shows d).mp hd with hd' | hd'
    · exact hp.reaches d hd'
    · obtain ⟨c, hk, xs, hf⟩ := hx.falls d hd'
      exact (hp.reaches_of_knows hc hk).trans (hf.reaches hc (hc.holds hd.1))
  · intro d hd t ht hh
    rcases (hx.shows d).mp hd with hd | hd
    · exact hx.knows t (hp.targets d hd t ht hh)
    · exact hx.targets d hd t ht hh
  · intro r
    rw [hx.references, hp.references]
    constructor
    · rintro (⟨d, hd, h⟩ | ⟨d, hd, h⟩)
      · exact ⟨d, (hx.shows d).mpr (.inl hd), h⟩
      · exact ⟨d, (hx.shows d).mpr (.inr hd), h⟩
    · rintro ⟨d, hd, h⟩
      rcases (hx.shows d).mp hd with hd | hd
      · exact .inl ⟨d, hd, h⟩
      · exact .inr ⟨d, hd, h⟩

theorem runs_tracks (hc : b.Carries code) (he : b.Holds entry)
    (h : Runs arch (Swept code) (start b entry he) p) : p.Tracks code entry := by
  induction h with
  | refl => exact tracks_start he
  | tail _ hs ih => exact hs.tracks hc ih

end Progress

end AssemblyConsole
