import AssemblyConsole.Graph.Traversal
import AssemblyConsole.Proofs.Contract
import Mathlib.Logic.Relation

/-!
The traversal of a buffer as steps from one queue and graph to the next. A run of the traversal is a sequence of
steps; it ends with an empty queue or at an address from which no block can be gathered.
-/

namespace AssemblyConsole

open AssemblyConsole.Action Relation

structure Progress (b : Buffer) where
  queue : List { a : Int // b.Holds a }
  graph : Graph

namespace Progress

variable {b : Buffer}

def start (b : Buffer) (entry : Int) (h : b.Holds entry) : Progress b :=
  ⟨[⟨entry, h⟩], { base := b.base, entry := entry }⟩

/-- Where the traversal gathers a block: at the head of the queue, if no block begins there and none is cut there. -/
structure Gathers (p : Progress b) (a : Int) (ha : b.Holds a) (rest : List { a : Int // b.Holds a }) : Prop where
  queue : p.queue = ⟨a, ha⟩ :: rest
  unknown : a ∉ p.graph.starts
  whole : p.graph.split? a = none

/-- One step, where `answers` are the instructions that may be decoded from an address on. -/
inductive Step (arch : Architecture) (answers : Int → List Decoded → Prop) : Progress b → Progress b → Prop
  | known {a ha rest g} (hk : a ∈ g.starts) : Step arch answers ⟨⟨a, ha⟩ :: rest, g⟩ ⟨rest, g⟩
  | cut {a ha rest g h} (hk : a ∉ g.starts) (hs : g.split? a = some h) :
      Step arch answers ⟨⟨a, ha⟩ :: rest, g⟩ ⟨rest, h⟩
  | gathered {p a ha rest ds s} (hp : Gathers p a ha rest) (hd : answers a ds)
      (hg : Growth.gather arch b p.graph.starts (.start a) ds = .ok s) :
      Step arch answers p ⟨rest ++ Graph.fresh b (p.graph.install s) s.block.successors, p.graph.install s⟩

abbrev Runs (arch : Architecture) (answers : Int → List Decoded → Prop) : Progress b → Progress b → Prop :=
  ReflTransGen (Step arch answers)

/-- The traversal ends with an error: it decodes from an address where no block can be gathered. -/
def Fails (arch : Architecture) (answers : Int → List Decoded → Prop) (p : Progress b) (e : DecodeError) : Prop :=
  ∃ a ha rest ds, Gathers p a ha rest ∧ answers a ds ∧
    Growth.gather arch b p.graph.starts (.start a) ds = .error e

end Progress

open Progress

variable {σ : Type} {decoder : Decoder σ} {arch : Architecture} {b : Buffer} {a : Int} {ha : b.Holds a}
  {rest : List { a : Int // b.Holds a }} {g : Graph}

theorem follow_known (hk : a ∈ g.starts) :
    Graph.follow decoder arch b (⟨a, ha⟩ :: rest) g = Graph.follow decoder arch b rest g := by
  rw [Graph.follow, dif_pos hk]

theorem follow_cut {h : Graph} (hk : a ∉ g.starts) (hs : g.split? a = some h) :
    Graph.follow decoder arch b (⟨a, ha⟩ :: rest) g = Graph.follow decoder arch b rest h := by
  rw [Graph.follow, dif_neg hk]
  split
  · rename_i t ht
    rw [Option.some.inj (hs.symm.trans ht)]
  · rename_i hn
    rw [hs] at hn
    simp at hn

theorem follow_gather (hk : a ∉ g.starts) (hn : g.split? a = none) :
    Graph.follow decoder arch b (⟨a, ha⟩ :: rest) g = (do
      let decoded ← decoder a (b.bytesFrom a)
      match Growth.gather arch b g.starts (.start a) decoded with
      | .error e => throw e
      | .ok s =>
        Graph.follow decoder arch b (rest ++ Graph.fresh b (g.install s) s.block.successors) (g.install s)) := by
  rw [Graph.follow, dif_neg hk]
  split
  · rename_i h hs
    rw [hs] at hn
    simp at hn
  · congr
    funext decoded
    split
    · rename_i hg
      rw [hg]
    · rename_i hg
      rw [hg]

/-- The traversal is a run, whatever the decoder does to the state beside it, unless the decoder fails. -/
theorem follow_ends {I : σ → Prop} {answers : Int → List Decoded → Prop} {failures : Int → DecodeError → Prop}
    (hd : ∀ a, b.Holds a → Meets I (decoder a (b.bytesFrom a)) (answers a) (failures a))
    (queue : List { a : Int // b.Holds a }) (g : Graph) :
    Meets I (Graph.follow decoder arch b queue g) (fun h => Runs arch answers ⟨queue, g⟩ ⟨[], h⟩)
      (fun e => (∃ p, Runs arch answers ⟨queue, g⟩ p ∧ Fails arch answers p e) ∨ ∃ a, b.Holds a ∧ failures a e) := by
  induction queue, g using Graph.follow.induct arch b with
  | case1 g =>
    rw [Graph.follow]
    exact meets_pure .refl
  | case2 g a ha rest hk ih =>
    rw [follow_known hk]
    apply ih.mono
    · intro h hr
      exact .head (.known hk) hr
    · rintro e (⟨p, hr, hf⟩ | hf)
      · exact .inl ⟨p, .head (.known hk) hr, hf⟩
      · exact .inr hf
  | case3 g a ha rest hk h hs ih =>
    rw [follow_cut hk hs]
    apply ih.mono
    · intro h hr
      exact .head (.cut hk hs) hr
    · rintro e (⟨p, hr, hf⟩ | hf)
      · exact .inl ⟨p, .head (.cut hk hs) hr, hf⟩
      · exact .inr hf
  | case4 g a ha rest hk hn ih =>
    rw [follow_gather hk hn]
    have hp : Gathers ⟨⟨a, ha⟩ :: rest, g⟩ a ha rest := ⟨rfl, hk, hn⟩
    refine ((hd a ha).mono (fun _ h => h) fun _ h => .inr ⟨a, ha, h⟩).bind ?_
    intro ds hds
    split
    · rename_i e hg
      exact meets_throw (.inl ⟨_, .refl, a, ha, rest, ds, hp, hds, hg⟩)
    · rename_i s hg
      apply (ih ds s hg).mono
      · intro h hr
        exact .head (.gathered hp hds hg) hr
      · rintro e (⟨p, hr, hf⟩ | hf)
        · exact .inl ⟨p, .head (.gathered hp hds hg) hr, hf⟩
        · exact .inr hf

theorem explore_of_holds {entry : Int} (he : b.Holds entry) :
    Graph.explore decoder arch b entry =
      Graph.follow decoder arch b [⟨entry, he⟩] { base := b.base, entry := entry } := by
  have hne : ¬(b.data = [] ∧ entry = b.base) := fun h => Buffer.not_holds_of_no_bytes h.1 entry he
  rw [Graph.explore, if_neg hne, dif_pos he]

theorem explore_of_not_holds {entry : Int} (he : ¬b.Holds entry) (s : σ) :
    ((Graph.explore decoder arch b entry).outcome s).1 =
      if b.data = [] ∧ entry = b.base then .ok { base := b.base, entry := entry }
      else .error (.outside entry b.base b.stop) := by
  rw [Graph.explore, dif_neg he]
  split <;> rfl

theorem explore_ends {I : σ → Prop} {answers : Int → List Decoded → Prop} {failures : Int → DecodeError → Prop}
    (hd : ∀ a, b.Holds a → Meets I (decoder a (b.bytesFrom a)) (answers a) (failures a))
    {entry : Int} (he : b.Holds entry) :
    Meets I (Graph.explore decoder arch b entry) (fun h => Runs arch answers (.start b entry he) ⟨[], h⟩)
      (fun e => (∃ p, Runs arch answers (.start b entry he) p ∧ Fails arch answers p e) ∨
        ∃ a, b.Holds a ∧ failures a e) := by
  rw [explore_of_holds he]
  exact follow_ends hd _ _

end AssemblyConsole
