import AssemblyConsole.Proofs.Traversal
import Mathlib

/-!
The traversal ends, whatever the decoder answers. A step either takes an address from the queue and leaves the blocks
as they are, or begins a block at an address of the buffer where none began; an answer to one request need not agree
with that to another.
-/

namespace AssemblyConsole

open AssemblyConsole.Action Relation

theorem Buffer.length_le_of_holds {b : Buffer} {as : List Int} (hn : as.Nodup) (h : ∀ a ∈ as, b.Holds a) :
    as.length ≤ b.data.length := by
  have hsubset : as ⊆ b.addresses := fun a ha => (b.mem_addresses a).mpr (h a ha)
  have hlength : b.addresses.length = b.data.length := by rw [addresses, List.length_map, List.length_range]
  exact hlength ▸ (List.subperm_of_subset hn hsubset).length_le

/-- No two blocks begin at one address, and each begins in the buffer. -/
structure Graph.Keyed (b : Buffer) (g : Graph) : Prop where
  once : g.starts.Nodup
  inside : ∀ c ∈ g.starts, b.Holds c

theorem Graph.Keyed.length_blocks_le {b : Buffer} {g : Graph} (h : g.Keyed b) : g.blocks.length ≤ b.data.length := by
  rw [← List.length_map (f := Block.address)]
  exact Buffer.length_le_of_holds h.once h.inside

namespace Progress

variable {b : Buffer} {arch : Architecture} {answers : Int → List Decoded → Prop} {p q : Progress b}

/-- The queue is shorter and no other block begins, or one does, where none began before. -/
def Advances (p q : Progress b) : Prop :=
  (q.graph.starts = p.graph.starts ∧ q.queue.length < p.queue.length) ∨
    ∃ c, b.Holds c ∧ c ∉ p.graph.starts ∧ q.graph.starts = p.graph.starts ++ [c]

theorem Step.advances (h : Step arch answers p q) : p.Advances q := by
  cases h with
  | known hk => exact .inl ⟨rfl, Nat.lt_succ_self _⟩
  | @cut a ha rest g h hk hs => exact .inr ⟨a, ha, hk, Graph.starts_split? hs hk⟩
  | @gathered _ a ha rest ds s hp hd hg =>
    have he : s.block.address = a := Growth.address_gather hg
    refine .inr ⟨a, ha, hp.unknown, ?_⟩
    rw [Graph.starts_install (he ▸ hp.unknown), he]

theorem Step.nodup (h : Step arch answers p q) (hp : p.graph.starts.Nodup) : q.graph.starts.Nodup := by
  rcases h.advances with ⟨hsame, -⟩ | ⟨c, -, hnew, hstarts⟩
  · rwa [hsame]
  · rw [hstarts, ← List.concat_eq_append]
    exact hp.concat hnew

theorem Step.keyed (h : Step arch answers p q) (hp : p.graph.Keyed b) : q.graph.Keyed b := by
  refine ⟨h.nodup hp.once, ?_⟩
  intro a ha
  rcases h.advances with ⟨hsame, -⟩ | ⟨c, hc, -, hstarts⟩
  · exact hp.inside a (hsame ▸ ha)
  · rw [hstarts] at ha
    rcases List.mem_append.mp ha with ha | ha
    · exact hp.inside a ha
    · rwa [List.mem_singleton.mp ha]

theorem runs_keyed {entry : Int} {he : b.Holds entry} (h : Runs arch answers (start b entry he) p) :
    p.graph.Keyed b := by
  induction h with
  | refl => exact ⟨List.nodup_nil, fun c hc => absurd hc List.not_mem_nil⟩
  | tail _ hs ih => exact hs.keyed ih

-- the addresses without a block come first, since a gathered block may put any number of addresses into the queue
def rank (p : Progress b) : Nat × Nat := ((b.uncovered p.graph.starts).length, p.queue.length)

theorem Step.rank_lt (h : Step arch answers p q) : Prod.Lex (· < ·) (· < ·) q.rank p.rank := by
  rcases h.advances with ⟨hsame, hqueue⟩ | ⟨c, hc, hnew, hstarts⟩
  · rw [rank, rank, hsame]
    exact .right _ hqueue
  · rw [rank, rank, hstarts]
    exact .left _ _ (Buffer.uncovered_append_lt hc hnew)

theorem step_wellFounded (arch : Architecture) (b : Buffer) (answers : Int → List Decoded → Prop) :
    WellFounded fun q p : Progress b => Step arch answers p q :=
  Subrelation.wf (fun h => h.rank_lt) (InvImage.wf rank (Prod.lex ⟨_, wellFounded_lt⟩ ⟨_, wellFounded_lt⟩).wf)

/-- With an answer to every request the traversal goes on until the queue is empty, or fails. -/
theorem step_or_fails (hanswers : ∀ a, b.Holds a → ∃ ds, answers a ds) (hqueue : p.queue ≠ []) :
    (∃ q, Step arch answers p q) ∨ ∃ e, Fails arch answers p e := by
  obtain ⟨queue, g⟩ := p
  obtain ⟨⟨a, ha⟩, rest, rfl⟩ := List.exists_cons_of_ne_nil hqueue
  by_cases hk : a ∈ g.starts
  · exact .inl ⟨_, .known hk⟩
  · cases hs : g.split? a with
    | some h => exact .inl ⟨_, .cut hk hs⟩
    | none =>
      have hp : Gathers ⟨⟨a, ha⟩ :: rest, g⟩ a ha rest := ⟨rfl, hk, hs⟩
      obtain ⟨ds, hd⟩ := hanswers a ha
      cases hg : Growth.gather arch b g.starts (.start a) ds with
      | error e => exact .inr ⟨e, a, ha, rest, ds, hp, hd, hg⟩
      | ok s => exact .inl ⟨_, .gathered hp hd hg⟩

end Progress

namespace Decoder

variable {σ : Type}

/-- An answer to a request about the bytes from an address on, in some state. -/
def Answers (decoder : Decoder σ) (b : Buffer) (a : Int) (ds : List Decoded) : Prop :=
  ∃ s, ((decoder a (b.bytesFrom a)).outcome s).1 = .ok ds

def Raises (decoder : Decoder σ) (b : Buffer) (e : DecodeError) : Prop :=
  ∃ a s, b.Holds a ∧ ((decoder a (b.bytesFrom a)).outcome s).1 = .error e

theorem meets_answers (decoder : Decoder σ) (b : Buffer) (a : Int) (ha : b.Holds a) :
    Meets (fun _ => True) (decoder a (b.bytesFrom a)) (decoder.Answers b a) (decoder.Raises b) := by
  intro s _
  exact ⟨trivial, fun ds h => ⟨s, h⟩, fun e h => ⟨a, s, ha, h⟩⟩

end Decoder

open Progress

/-- Whatever the decoder answers the traversal ends: with the graph of a finished run, at an address from which no
block can be gathered, or where the decoder itself fails. -/
theorem explore_terminates {σ : Type} (decoder : Decoder σ) (arch : Architecture) (b : Buffer) (entry : Int) :
    (∀ answers : Int → List Decoded → Prop,
      (WellFounded fun q p : Progress b => Step arch answers p q) ∧
      (∀ p q : Progress b, Step arch answers p q → p.Advances q) ∧
      (∀ p : Progress b, (∀ a, b.Holds a → ∃ ds, answers a ds) → p.queue ≠ [] →
        (∃ q, Step arch answers p q) ∨ ∃ e, Fails arch answers p e) ∧
      ∀ he p, Runs arch answers (start b entry he) p →
        p.graph.Keyed b ∧ p.graph.blocks.length ≤ b.data.length) ∧
    ∀ s,
      (∀ g, ((Graph.explore decoder arch b entry).outcome s).1 = .ok g →
        (g.Keyed b ∧ g.blocks.length ≤ b.data.length) ∧
        ((b.data = [] ∧ entry = b.base ∧ g.blocks = []) ∨
          ∃ he, Runs arch (decoder.Answers b) (start b entry he) ⟨[], g⟩)) ∧
      ∀ e, ((Graph.explore decoder arch b entry).outcome s).1 = .error e →
        (¬b.Holds entry ∧ e = .outside entry b.base b.stop) ∨ decoder.Raises b e ∨
          ∃ he p, Runs arch (decoder.Answers b) (start b entry he) p ∧ Fails arch (decoder.Answers b) p e := by
  have keyed {answers : Int → List Decoded → Prop} {he : b.Holds entry} {p : Progress b}
      (h : Runs arch answers (start b entry he) p) : p.graph.Keyed b ∧ p.graph.blocks.length ≤ b.data.length :=
    ⟨runs_keyed h, (runs_keyed h).length_blocks_le⟩
  refine ⟨?_, ?_⟩
  · intro answers
    refine ⟨step_wellFounded arch b answers, fun p q h => h.advances, ?_, fun he p h => keyed h⟩
    intro p hanswers hqueue
    exact step_or_fails hanswers hqueue
  · intro s
    by_cases he : b.Holds entry
    · have hmeets : Meets (fun _ => True) (Graph.explore decoder arch b entry) _ _ :=
        explore_ends (decoder.meets_answers b) he
      obtain ⟨-, hok, herror⟩ := hmeets s trivial
      refine ⟨?_, ?_⟩
      · intro g hg
        exact ⟨keyed (hok g hg), .inr ⟨he, hok g hg⟩⟩
      · intro e h
        rcases herror e h with ⟨p, hruns, hfails⟩ | ⟨_, _, hraises⟩
        · exact .inr (.inr ⟨he, p, hruns, hfails⟩)
        · exact .inr (.inl hraises)
    · rw [explore_of_not_holds he]
      split
      · rename_i hempty
        refine ⟨?_, fun e h => by simp at h⟩
        intro g hg
        obtain rfl := Except.ok.inj hg
        refine ⟨⟨⟨List.nodup_nil, ?_⟩, Nat.zero_le _⟩, .inl ⟨hempty.1, hempty.2, rfl⟩⟩
        intro c hc
        exact absurd hc List.not_mem_nil
      · refine ⟨fun g h => by simp at h, ?_⟩
        intro e h
        exact .inl ⟨he, (Except.error.inj h).symm⟩

/-- Answers that contradict one another: instructions without bytes, of negative size and beyond the buffer. -/
def erratic : Decoder Nat := fun a _ => do
  let n ← get
  set (n + 1)
  return match n with
    | 0 => [⟨⟨a, 0, "call", "", []⟩, .call, some (a + 2)⟩, ⟨⟨a, -1, "jmp", "", []⟩, .jump, some (a + 1)⟩]
    | 1 => [⟨⟨a, 7, "je", "", []⟩, .conditional, some (a - 1)⟩]
    | _ => [⟨⟨a, 0, "jmp", "", []⟩, .jump, some (a - 1)⟩, ⟨⟨a + 9, 1, "ret", "", []⟩, .returning, none⟩]

def erraticArchitecture : Architecture := ⟨.x86, .bits32, .little, .ordinary⟩

def threeBytes : Buffer := ⟨0x10, [0x01, 0x02, 0x03]⟩

theorem outcome_erratic :
    ((Graph.explore erratic erraticArchitecture threeBytes 0x10).outcome 0).1 = .ok
      { base := 0x10
        entry := 0x10
        blocks := [
          ⟨0x10, [⟨0x10, 0, "call", "", []⟩, ⟨0x10, -1, "jmp", "", []⟩], false, none, [0x12, 0x11]⟩,
          ⟨0x12, [⟨0x12, 7, "je", "", []⟩], true, none, [0x11]⟩,
          ⟨0x11, [⟨0x11, 0, "jmp", "", []⟩], false, none, [0x10]⟩]
        references := [⟨0x12, 0x10⟩, ⟨0x11, 0x10⟩, ⟨0x11, 0x12⟩, ⟨0x10, 0x11⟩] } := by
  cbv

theorem explore_terminates_erratic :
    (∀ a, threeBytes.Holds a → ∃ ds, erratic.Answers threeBytes a ds) ∧ threeBytes.Holds 0x10 ∧
      ((∃ q, Step erraticArchitecture (erratic.Answers threeBytes) (start threeBytes 0x10 (by decide)) q) ∨
        ∃ e, Fails erraticArchitecture (erratic.Answers threeBytes) (start threeBytes 0x10 (by decide)) e) ∧
      ∃ g, ((Graph.explore erratic erraticArchitecture threeBytes 0x10).outcome 0).1 = .ok g ∧
        g.starts = [0x10, 0x12, 0x11] ∧ g.Keyed threeBytes ∧ g.blocks.length ≤ threeBytes.data.length ∧
        ∃ he, Runs erraticArchitecture (erratic.Answers threeBytes) (start threeBytes 0x10 he) ⟨[], g⟩ := by
  have hanswers : ∀ a, threeBytes.Holds a → ∃ ds, erratic.Answers threeBytes a ds := fun a _ => ⟨_, 0, rfl⟩
  obtain ⟨hsteps, hends⟩ := explore_terminates erratic erraticArchitecture threeBytes 0x10
  obtain ⟨-, -, hprogress, -⟩ := hsteps (erratic.Answers threeBytes)
  obtain ⟨⟨hkeyed, hfew⟩, hnone | hruns⟩ := (hends 0).1 _ outcome_erratic
  · exact absurd hnone.1 (by decide)
  · exact ⟨hanswers, by decide, hprogress _ hanswers (by decide), _, outcome_erratic, rfl, hkeyed, hfew, hruns⟩

end AssemblyConsole
