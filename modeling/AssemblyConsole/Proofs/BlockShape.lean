import AssemblyConsole.Graph.Split
import AssemblyConsole.Proofs.ControlGraph
import Mathlib.Data.List.Induction

/-!
What a block looks like: instructions through which control falls one after another, and a last one that settles how
the block ends. A gathered block has this shape, and so have the two parts of a block that is cut.
-/

namespace AssemblyConsole

open Buffer

def Decoded.continuesAt? (b : Buffer) (d : Decoded) : Option Int :=
  match d.flow with
  | .jump | .returning => none
  | .next | .call | .conditional => if b.Holds d.instruction.stop then some d.instruction.stop else none

def Decoded.isExit (b : Buffer) (d : Decoded) : Bool :=
  match d.flow with
  | .returning => true
  | .jump => d.target.isNone
  | .next | .call | .conditional => !decide (b.Holds d.instruction.stop)

structure Block.Consists (code : Int → Option Decoded) (b : Buffer) (k : Block) (run : List Decoded)
    (last : Decoded) : Prop where
  instructions : k.instructions = (run ++ [last]).map (·.instruction)
  falls : Falls code k.address run last.instruction.address
  closed : code last.instruction.address = some last
  isExit : k.isExit = last.isExit b
  continuesAt : k.continuesAt = last.continuesAt? b

theorem Decoded.continuesAt?_eq_some_iff {b : Buffer} {d : Decoded} {c : Int} : d.continuesAt? b = some c ↔
    (d.flow.GoesOn ∨ d.flow = .conditional) ∧ b.Holds c ∧ d.instruction.stop = c := by
  unfold Decoded.continuesAt?
  cases hf : d.flow <;> simp only [ControlFlow.GoesOn]
  case jump | returning => simp
  all_goals
    split
    · rename_i hh
      simp only [Option.some.injEq]
      constructor
      · rintro rfl
        simp [hh]
      · exact fun h => h.2.2
    · rename_i hh
      simp only [reduceCtorEq, false_iff]
      rintro ⟨-, h, rfl⟩
      exact hh h

theorem Decoded.isExit_of_goesOn {b : Buffer} {d : Decoded} (h : d.flow.GoesOn) :
    d.isExit b = !decide (b.Holds d.instruction.stop) := by
  unfold Decoded.isExit
  cases hf : d.flow <;> simp_all [ControlFlow.GoesOn]

theorem Decoded.continuesAt?_of_goesOn {b : Buffer} {d : Decoded} (h : d.flow.GoesOn) :
    d.continuesAt? b = if b.Holds d.instruction.stop then some d.instruction.stop else none := by
  unfold Decoded.continuesAt?
  cases hf : d.flow <;> simp_all [ControlFlow.GoesOn]

def Block.Shaped (code : Int → Option Decoded) (b : Buffer) (k : Block) : Prop := ∃ run last, k.Consists code b run last

variable {code : Int → Option Decoded} {b : Buffer}

namespace Growth

def grown (a : Int) (ds : List Decoded) : Growth := ds.foldl add (start a)

theorem grown_concat (a : Int) (ds : List Decoded) (d : Decoded) : grown a (ds ++ [d]) = (grown a ds).add d := by
  simp [grown]

theorem block_grown (a : Int) (ds : List Decoded) : (grown a ds).block =
    { address := a, instructions := ds.map (·.instruction), targets := ds.filterMap (·.target) } := by
  induction ds using List.reverseRecOn with
  | nil => rfl
  | append_singleton ds d ih =>
    rw [grown_concat, add, ih]
    cases h : d.target <;> simp [h]

theorem references_grown (a : Int) (ds : List Decoded) : (grown a ds).references =
    ds.filterMap fun d => d.target.map fun t => ⟨t, d.instruction.address⟩ := by
  induction ds using List.reverseRecOn with
  | nil => rfl
  | append_singleton ds d ih =>
    rw [grown_concat, add, ih]
    cases h : d.target <;> simp [h]

theorem next_grown {a c : Int} {ds : List Decoded} (hc : b.Carries code) (h : Falls code a ds c) :
    (grown a ds).next = c := by
  rcases List.eq_nil_or_concat ds with rfl | ⟨ds, d, rfl⟩
  · cases h
    rfl
  · rw [List.concat_eq_append] at h ⊢
    rw [grown_concat]
    exact ((falls_concat hc).mp h).2.2.2

/-- A block gathered at an address where no known block's start is run past. -/
structure Gathered (code : Int → Option Decoded) (b : Buffer) (starts : List Int) (a : Int) (s : Growth)
    (run : List Decoded) (last : Decoded) : Prop where
  consists : s.block.Consists code b run last
  address : s.block.address = a
  targets : s.block.targets = (run ++ [last]).filterMap (·.target)
  references : s.references = (run ++ [last]).filterMap fun d => d.target.map fun t => ⟨t, d.instruction.address⟩
  fresh : ∀ d ∈ (run ++ [last]).tail, d.instruction.address ∉ starts
  joins : last.flow.GoesOn → b.Holds last.instruction.stop → last.instruction.stop ∈ starts

variable {starts : List Int} {arch : Architecture}

theorem gathered_grown {a : Int} {run : List Decoded} {last : Decoded}
    (hf : Falls code a run last.instruction.address) (hl : code last.instruction.address = some last)
    (hn : ∀ d ∈ (run ++ [last]).tail, d.instruction.address ∉ starts)
    (hj : last.flow.GoesOn → b.Holds last.instruction.stop → last.instruction.stop ∈ starts) {s : Growth}
    (hr : s.references = (grown a (run ++ [last])).references)
    (hb : s.block = { (grown a (run ++ [last])).block with
      isExit := last.isExit b
      continuesAt := last.continuesAt? b }) :
    Gathered code b starts a s run last := by
  rw [block_grown] at hb
  rw [references_grown] at hr
  refine ⟨⟨?_, ?_, hl, ?_, ?_⟩, ?_, ?_, hr, hn, hj⟩
  all_goals simp only [hb]
  exact hf

/-- How the gathering of a block from an address ends. -/
def Settles (code : Int → Option Decoded) (b : Buffer) (arch : Architecture) (starts : List Int) (a : Int) :
    Except DecodeError Growth → Prop
  | .ok s => ∃ run last, Gathered code b starts a s run last
  | .error e => ∃ run c, Falls code a run c ∧ b.Holds c ∧ code c = none ∧
    e = .undecodable arch c ((b.bytesFrom c).take 16)

section Settles

variable {a c : Int} {run : List Decoded} {d : Decoded}

/-- Without a further instruction the block is settled at the buffer's end and fails elsewhere. -/
theorem settles_finish (hc : b.Carries code) (hf : Falls code a run c) (hnone : code c = none) (ha : b.Holds a)
    (hn : ∀ d ∈ run.tail, d.instruction.address ∉ starts) :
    Settles code b arch starts a ((grown a run).finish arch b) := by
  rw [finish, next_grown hc hf]
  split
  · rename_i hh
    exact ⟨run, c, hf, hh, hnone, rfl⟩
  · rename_i hh
    rcases List.eq_nil_or_concat run with rfl | ⟨run, last, rfl⟩
    · cases hf
      exact absurd ha hh
    · rw [List.concat_eq_append] at hf hn ⊢
      obtain ⟨hrun, hl, hgo, rfl⟩ := (falls_concat hc).mp hf
      refine ⟨run, last, gathered_grown hrun hl hn (fun _ h => absurd h hh) rfl ?_⟩
      simp [exiting, block_grown, Decoded.isExit_of_goesOn hgo, Decoded.continuesAt?_of_goesOn hgo, hh]

theorem settles_continuing (hc : b.Carries code) (hf : Falls code a run c) (hh : b.Holds c) (hne : run ≠ [])
    (hk : c ∈ starts) (hn : ∀ d ∈ run.tail, d.instruction.address ∉ starts) :
    Settles code b arch starts a (.ok (grown a run).continuing) := by
  have hnext := next_grown hc hf
  rcases List.eq_nil_or_concat run with rfl | ⟨run, last, rfl⟩
  · exact absurd rfl hne
  · rw [List.concat_eq_append] at hf hn hnext ⊢
    obtain ⟨hrun, hl, hgo, rfl⟩ := (falls_concat hc).mp hf
    refine ⟨run, last, gathered_grown hrun hl hn (fun _ _ => hk) rfl ?_⟩
    simp [continuing, hnext, block_grown, Decoded.isExit_of_goesOn hgo, Decoded.continuesAt?_of_goesOn hgo, hh]

theorem settles_returning (hf : Falls code a run d.instruction.address) (hd : code d.instruction.address = some d)
    (hn : ∀ x ∈ (run ++ [d]).tail, x.instruction.address ∉ starts) (hw : d.flow = .returning) :
    Settles code b arch starts a (.ok (grown a (run ++ [d])).exiting) := by
  refine ⟨run, d, gathered_grown hf hd hn (by simp [hw, ControlFlow.GoesOn]) rfl ?_⟩
  simp [exiting, block_grown, Decoded.isExit, Decoded.continuesAt?, hw]

theorem settles_jump (hf : Falls code a run d.instruction.address) (hd : code d.instruction.address = some d)
    (hn : ∀ x ∈ (run ++ [d]).tail, x.instruction.address ∉ starts) (hw : d.flow = .jump) :
    Settles code b arch starts a
      (.ok (if d.target.isNone then (grown a (run ++ [d])).exiting else grown a (run ++ [d]))) := by
  refine ⟨run, d, gathered_grown hf hd hn (by simp [hw, ControlFlow.GoesOn]) ?_ ?_⟩
  · split <;> rfl
  · cases ht : d.target.isNone <;>
      simp [exiting, block_grown, Decoded.isExit, Decoded.continuesAt?, hw, ht]

theorem settles_conditional (hf : Falls code a run d.instruction.address) (hd : code d.instruction.address = some d)
    (hn : ∀ x ∈ (run ++ [d]).tail, x.instruction.address ∉ starts) (hw : d.flow = .conditional) :
    Settles code b arch starts a (.ok (if b.Holds (grown a (run ++ [d])).next then (grown a (run ++ [d])).continuing
      else (grown a (run ++ [d])).exiting)) := by
  have hnext : (grown a (run ++ [d])).next = d.instruction.stop := by
    rw [grown_concat]
    rfl
  refine ⟨run, d, gathered_grown hf hd hn (by simp [hw, ControlFlow.GoesOn]) ?_ ?_⟩
  · split <;> rfl
  · rw [hnext]
    by_cases hh : b.Holds d.instruction.stop
    · simp [continuing, block_grown, hnext, Decoded.isExit, Decoded.continuesAt?, hw, hh]
    · simp [exiting, block_grown, hnext, Decoded.isExit, Decoded.continuesAt?, hw, hh]

/-- Once control has fallen through `run`, the instructions swept from there on settle the block. -/
theorem gather_settles (hc : b.Carries code) {ds : List Decoded} (hf : Falls code a run c) (hs : Swept code c ds)
    (ha : b.Holds a) (hn : ∀ d ∈ run.tail, d.instruction.address ∉ starts) :
    Settles code b arch starts a (gather arch b starts (grown a run) ds) := by
  -- on what was swept: an instruction that lets control go on joins `run`, any other settles the block
  induction hs generalizing run with
  | @stop c ds hnone hne =>
    have hg : gather arch b starts (grown a run) ds = (grown a run).finish arch b := by
      cases ds with
      | nil => rfl
      | cons d ds => rw [gather, next_grown hc hf, if_pos (hne d rfl)]
    rw [hg]
    exact settles_finish hc hf hnone ha hn
  | @step c d ds hd hs ih =>
    have hda : d.instruction.address = c := hc.address hd
    have hinst : (grown a run).block.instructions = run.map (·.instruction) := by rw [block_grown]
    rw [gather, next_grown hc hf, if_neg (not_not_intro hda), hinst]
    split
    · rename_i hk
      exact settles_continuing hc hf (hc.holds hd) (by simpa using hk.1) hk.2 hn
    · rename_i hk
      have hn' : ∀ x ∈ (run ++ [d]).tail, x.instruction.address ∉ starts := by
        intro x hx
        cases run with
        | nil => simp at hx
        | cons y ys =>
          rcases List.mem_append.mp hx with hx | hx
          · exact hn x hx
          · rw [List.mem_singleton.mp hx, hda]
            exact fun h => hk ⟨by simp, h⟩
      rw [← hda] at hf hd
      have onward (hgo : d.flow.GoesOn) :
          Settles code b arch starts a (gather arch b starts (grown a (run ++ [d])) ds) :=
        ih ((falls_concat hc).mpr ⟨hf, hd, hgo, rfl⟩) hn'
      simp only [← grown_concat]
      cases hw : d.flow with
      | returning => exact settles_returning hf hd hn' hw
      | jump => exact settles_jump hf hd hn' hw
      | conditional => exact settles_conditional hf hd hn' hw
      | next => exact onward (by simp [hw, ControlFlow.GoesOn])
      | call => exact onward (by simp [hw, ControlFlow.GoesOn])

theorem gather_start_settles (hc : b.Carries code) {ds : List Decoded} (hs : Swept code a ds) (ha : b.Holds a) :
    Settles code b arch starts a (gather arch b starts (start a) ds) :=
  gather_settles hc (.nil a) hs ha (by simp)

end Settles

end Growth

namespace Block

theorem Consists.decoded {k : Block} {run : List Decoded} {last : Decoded} (hc : b.Carries code)
    (hk : k.Consists code b run last) : ∀ d ∈ run ++ [last], code d.instruction.address = some d := by
  intro d hd
  rcases List.mem_append.mp hd with hd | hd
  · exact hk.falls.decoded hc d hd
  · rw [List.mem_singleton.mp hd]
    exact hk.closed

theorem Consists.mem_instructions {k : Block} {run : List Decoded} {last d : Decoded} (hc : b.Carries code)
    (hk : k.Consists code b run last) (hd : code d.instruction.address = some d) :
    d.instruction ∈ k.instructions ↔ d ∈ run ++ [last] := by
  rw [hk.instructions]
  constructor
  · intro h
    obtain ⟨e, he, hi⟩ := List.mem_map.mp h
    have hed := hk.decoded hc e he
    rw [hi, hd] at hed
    rwa [Option.some.inj hed]
  · exact List.mem_map_of_mem

theorem Shaped.cut {k : Block} {c : Int} {before after : List Instruction} (hc : b.Carries code)
    (hk : k.Shaped code b) (hcut : Graph.cutInstructions c k.instructions = some (before, after))
    (hne : k.address ≠ c) (ts us : List Int) :
    Shaped code b ⟨k.address, before, false, some c, ts⟩ ∧
      Shaped code b ⟨c, after, k.isExit, k.continuesAt, us⟩ := by
  obtain ⟨run, last, hk⟩ := hk
  obtain ⟨happ, -, i, rest, hafter, hi⟩ := Graph.cutInstructions_eq_some hcut
  rw [hk.instructions] at happ
  obtain ⟨xs, ys, hxy, rfl, hys⟩ := List.map_eq_append_iff.mp happ
  -- The cut falls before the last instruction or on it, so that the part behind it still ends with that one.
  obtain ⟨zs, rfl, hrun⟩ : ∃ zs, ys = zs ++ [last] ∧ run = xs ++ zs := by
    rcases List.eq_nil_or_concat ys with rfl | ⟨zs, z, rfl⟩
    · rw [hafter] at hys
      simp at hys
    · rw [List.concat_eq_append, ← List.append_assoc] at hxy
      obtain ⟨hr, hz⟩ := List.append_inj' hxy rfl
      exact ⟨zs, by rw [List.concat_eq_append, ← hz], hr⟩
  have hf := hk.falls
  rw [hrun, falls_append] at hf
  obtain ⟨m, hx, hz⟩ := hf
  obtain ⟨d, ds, hd, hm⟩ := hz.begins hk.closed
  have hmc : m = c := by
    have hh := hys
    rw [hd, hafter, List.map_cons, List.cons.injEq] at hh
    rw [← hc.address hm, hh.1, hi]
  subst hmc
  refine ⟨?_, zs, last, hys.symm, hz, hk.closed, hk.isExit, hk.continuesAt⟩
  rcases List.eq_nil_or_concat xs with rfl | ⟨us, u, rfl⟩
  · exact absurd (falls_nil.mp hx) hne
  · rw [List.concat_eq_append] at hx ⊢
    obtain ⟨hu, hcu, hgo, rfl⟩ := (falls_concat hc).mp hx
    have hh := hc.holds hm
    refine ⟨us, u, rfl, hu, hcu, ?_, ?_⟩
    · simp [Decoded.isExit_of_goesOn hgo, hh]
    · simp [Decoded.continuesAt?_of_goesOn hgo, hh]

end Block

end AssemblyConsole
