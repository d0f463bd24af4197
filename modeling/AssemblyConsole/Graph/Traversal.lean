import AssemblyConsole.Action
import AssemblyConsole.Graph.Growth
import AssemblyConsole.Graph.Split

/-!
Finding the blocks of a buffer that control reaches from an entry address. Addresses wait in a queue; one at which no
block begins yet either cuts a block that is there or begins a new one, whose successors join the queue.
-/

namespace AssemblyConsole

/-- Decodes the bytes at an address, one instruction after another, for as long as it can. -/
abbrev Decoder (σ : Type) := (address : Int) → Bytes → Action σ DecodeError (List Decoded)

namespace Graph

theorem starts_split? {g h : Graph} {a : Int} (hs : g.split? a = some h) (ha : a ∉ g.starts) :
    h.starts = g.starts ++ [a] := by
  simp only [split?, Option.bind_eq_bind, Option.bind_eq_some_iff] at hs
  obtain ⟨b, hb, ⟨head, tail⟩, hc, he⟩ := hs
  obtain rfl := Option.some.inj he
  simp only [cutBlock, Option.map_eq_some_iff] at hc
  obtain ⟨⟨before, after⟩, _, hc⟩ := hc
  simp only [Prod.mk.injEq] at hc
  obtain ⟨rfl, rfl⟩ := hc
  have hmem : b.address ∈ g.starts := (g.mem_starts _).mpr ⟨b, List.mem_of_find?_eq_some hb, rfl⟩
  rw [starts_put, starts_put, if_pos hmem, if_neg ha]

def install (g : Graph) (s : Growth) : Graph := (s.references.foldl refer g).put s.block

theorem starts_foldl_refer (g : Graph) (rs : List Reference) : (rs.foldl refer g).starts = g.starts := by
  induction rs generalizing g with
  | nil => rfl
  | cons r rs ih =>
    rw [List.foldl_cons, ih]
    unfold refer
    split <;> rfl

theorem starts_install {g : Graph} {s : Growth} (h : s.block.address ∉ g.starts) :
    (g.install s).starts = g.starts ++ [s.block.address] := by
  rw [install, starts_put, starts_foldl_refer, if_neg h]

/-- The successors of a block that are in the buffer and at which no block begins. -/
def fresh (b : Buffer) (g : Graph) (successors : List Int) : List { a : Int // b.Holds a } :=
  successors.filterMap fun a => if h : b.Holds a then (if a ∈ g.starts then none else some ⟨a, h⟩) else none

set_option linter.unusedVariables false in
/-- The graph when the addresses in the queue, and all that they lead to, are done. -/
def follow {σ : Type} (decoder : Decoder σ) (arch : Architecture) (b : Buffer) (queue : List { a : Int // b.Holds a })
    (g : Graph) : Action σ DecodeError Graph :=
  match queue with
  | [] => return g
  | ⟨a, ha⟩ :: rest =>
    if hk : a ∈ g.starts then follow decoder arch b rest g
    else
      match hs : g.split? a with
      | some h => follow decoder arch b rest h
      | none => do
        let decoded ← decoder a (b.bytesFrom a)
        match hg : Growth.gather arch b g.starts (.start a) decoded with
        | .error e => throw e
        | .ok s => follow decoder arch b (rest ++ fresh b (g.install s) s.block.successors) (g.install s)
termination_by ((b.uncovered g.starts).length, queue.length)
decreasing_by
  · exact Prod.Lex.right _ (by simp)
  · apply Prod.Lex.left
    rw [starts_split? hs hk]
    exact Buffer.uncovered_append_lt ha hk
  · apply Prod.Lex.left
    have he : s.block.address = a := Growth.address_gather hg
    rw [starts_install (by rwa [he]), he]
    exact Buffer.uncovered_append_lt ha hk

/-- The graph of the buffer from an entry address. A buffer without bytes has the graph without blocks at its base
address, and elsewhere the entry address is outside the buffer. -/
def explore {σ : Type} (decoder : Decoder σ) (arch : Architecture) (b : Buffer) (entry : Int) :
    Action σ DecodeError Graph :=
  if b.data = [] ∧ entry = b.base then return { base := b.base, entry := entry }
  else if h : b.Holds entry then follow decoder arch b [⟨entry, h⟩] { base := b.base, entry := entry }
  else throw (.outside entry b.base b.stop)

end Graph

end AssemblyConsole
