import AssemblyConsole.Proofs.BlockShape
import Mathlib.Data.List.Chain

/-!
Where the instructions of a block lie: one behind the other, from the block's address up to its end.
-/

namespace AssemblyConsole

open Buffer

/-- Instructions stand one behind the other from an address up to another, however they pass control on. -/
inductive Contiguous (code : Int → Option Decoded) : Int → List Decoded → Int → Prop
  | nil (c : Int) : Contiguous code c [] c
  | cons {c d ds e} (hc : code c = some d) (h : Contiguous code d.instruction.stop ds e) : Contiguous code c (d :: ds) e

variable {code : Int → Option Decoded} {b : Buffer} {c e : Int} {ds : List Decoded}

theorem Falls.contiguous (h : Falls code c ds e) : Contiguous code c ds e := by
  induction h with
  | nil c => exact .nil c
  | cons hc _ _ ih => exact .cons hc ih

theorem contiguous_append {xs ys : List Decoded} :
    Contiguous code c (xs ++ ys) e ↔ ∃ m, Contiguous code c xs m ∧ Contiguous code m ys e := by
  induction xs generalizing c with
  | nil =>
    constructor
    · intro h
      exact ⟨c, .nil c, h⟩
    · rintro ⟨m, hm, h⟩
      cases hm
      exact h
  | cons d ds ih =>
    constructor
    · rintro (_ | ⟨hc, h⟩)
      obtain ⟨m, hm, hy⟩ := ih.mp h
      exact ⟨m, .cons hc hm, hy⟩
    · rintro ⟨m, _ | ⟨hc, hm⟩, hy⟩
      exact .cons hc (ih.mpr ⟨m, hm, hy⟩)

namespace Contiguous

theorem within (hc : b.Carries code) (h : Contiguous code c ds e) :
    c ≤ e ∧ ∀ d ∈ ds, c ≤ d.instruction.address ∧ d.instruction.stop ≤ e := by
  induction h with
  | nil c => simp
  | @cons c d ds e hd _ ih =>
    obtain ⟨hle, hds⟩ := ih
    have haddress := hc.address hd
    have hlt := hc.lt_stop hd
    refine ⟨by omega, ?_⟩
    intro x hx
    rcases List.mem_cons.mp hx with rfl | hx
    · exact ⟨by omega, hle⟩
    · obtain ⟨hlow, hhigh⟩ := hds x hx
      exact ⟨by omega, hhigh⟩

theorem covers (hc : b.Carries code) (h : Contiguous code c ds e) {a : Int} (hlow : c ≤ a) (hhigh : a < e) :
    ∃ d ∈ ds, d.instruction.address ≤ a ∧ a < d.instruction.stop := by
  induction h with
  | nil c => omega
  | @cons c d ds e hd _ ih =>
    have haddress := hc.address hd
    by_cases ha : a < d.instruction.stop
    · exact ⟨d, List.mem_cons_self, by omega, ha⟩
    · obtain ⟨x, hx, hxa⟩ := ih (by omega) hhigh
      exact ⟨x, List.mem_cons_of_mem _ hx, hxa⟩

theorem ascending (hc : b.Carries code) (h : Contiguous code c ds e) :
    ds.Pairwise fun x y => x.instruction.stop ≤ y.instruction.address := by
  induction h with
  | nil c => exact .nil
  | cons _ h ih => exact .cons (fun x hx => ((h.within hc).2 x hx).1) ih

theorem chain (hc : b.Carries code) (h : Contiguous code c ds e) :
    (ds.map (·.instruction)).IsChain fun i j => j.address = i.stop := by
  induction h with
  | nil c => exact .nil
  | cons _ h ih =>
    apply List.isChain_cons.mpr
    refine ⟨?_, ih⟩
    intro i hi
    obtain _ | ⟨hx, _⟩ := h
    · simp at hi
    · obtain rfl := Option.some.inj hi
      exact hc.address hx

theorem size (hc : b.Carries code) (h : Contiguous code c ds e) :
    (ds.map (·.instruction)).foldr (fun i n => i.size + n) 0 = e - c := by
  induction h with
  | nil c => simp
  | cons hd _ ih =>
    have haddress := hc.address hd
    rw [List.map_cons, List.foldr_cons, ih]
    simp only [Instruction.stop]
    omega

end Contiguous

namespace Block.Consists

variable {k : Block} {run : List Decoded} {last : Decoded}

theorem contiguous (hk : k.Consists code b run last) :
    Contiguous code k.address (run ++ [last]) last.instruction.stop :=
  contiguous_append.mpr ⟨_, hk.falls.contiguous, .cons hk.closed (.nil _)⟩

theorem begins (hc : b.Carries code) (hk : k.Consists code b run last) :
    ∃ i rest, k.instructions = i :: rest ∧ i.address = k.address := by
  obtain ⟨d, rest, he, hd⟩ := hk.falls.begins hk.closed
  refine ⟨d.instruction, rest.map (·.instruction), ?_, hc.address hd⟩
  rw [hk.instructions, he, List.map_cons]

theorem stop (hc : b.Carries code) (hk : k.Consists code b run last) : k.stop = last.instruction.stop := by
  have hsize := hk.contiguous.size hc
  rw [← hk.instructions] at hsize
  rw [Block.stop, Block.size, hsize]
  omega

theorem within (hc : b.Carries code) (hk : k.Consists code b run last) :
    ∀ d ∈ run ++ [last], k.address ≤ d.instruction.address ∧ d.instruction.stop ≤ k.stop := by
  rw [hk.stop hc]
  exact (hk.contiguous.within hc).2

theorem covers (hc : b.Carries code) (hk : k.Consists code b run last) {a : Int} (ha : k.spans a = true) :
    ∃ d ∈ run ++ [last], d.instruction.address ≤ a ∧ a < d.instruction.stop := by
  obtain ⟨hlow, hhigh⟩ := (k.spans_iff a).mp ha
  rw [hk.stop hc] at hhigh
  exact hk.contiguous.covers hc hlow hhigh

end Block.Consists

namespace Block.Shaped

variable {k : Block} {d : Decoded} {a : Int}

theorem decoded (hc : b.Carries code) (hk : k.Shaped code b) {i : Instruction} (hi : i ∈ k.instructions) :
    ∃ d, code d.instruction.address = some d ∧ d.instruction = i := by
  obtain ⟨run, last, hk⟩ := hk
  rw [hk.instructions] at hi
  obtain ⟨d, hd, rfl⟩ := List.mem_map.mp hi
  exact ⟨d, hk.decoded hc d hd, rfl⟩

theorem within (hc : b.Carries code) (hk : k.Shaped code b) (hd : code d.instruction.address = some d)
    (hi : d.instruction ∈ k.instructions) : k.address ≤ d.instruction.address ∧ d.instruction.stop ≤ k.stop := by
  obtain ⟨run, last, hk⟩ := hk
  exact hk.within hc d ((hk.mem_instructions hc hd).mp hi)

theorem covers (hc : b.Carries code) (hk : k.Shaped code b) (ha : k.spans a = true) :
    ∃ d, code d.instruction.address = some d ∧ d.instruction ∈ k.instructions ∧
      d.instruction.address ≤ a ∧ a < d.instruction.stop := by
  obtain ⟨run, last, hk⟩ := hk
  obtain ⟨d, hd, ha⟩ := hk.covers hc ha
  have hcode := hk.decoded hc d hd
  exact ⟨d, hcode, (hk.mem_instructions hc hcode).mpr hd, ha⟩

/-- An instruction that is not the first of its block is behind another one, from which control falls through to it. -/
theorem previous (hc : b.Carries code) (hk : k.Shaped code b) (hd : code d.instruction.address = some d)
    (hi : d.instruction ∈ k.instructions) : d.instruction.address = k.address ∨ ∃ x,
      code x.instruction.address = some x ∧ x.instruction ∈ k.instructions ∧ x.flow.GoesOn ∧
        x.instruction.stop = d.instruction.address := by
  obtain ⟨run, last, hk⟩ := hk
  have hmem := (hk.mem_instructions hc hd).mp hi
  rcases hk.falls.previous hc rfl d hmem with hstart | ⟨x, hx, hstop⟩
  · exact .inl hstart
  · have hrun : x ∈ run ++ [last] := List.mem_append_left _ hx
    have hcode := hk.decoded hc x hrun
    exact .inr ⟨x, hcode, (hk.mem_instructions hc hcode).mpr hrun, hk.falls.goesOn x hx, hstop⟩

theorem ascending (hc : b.Carries code) (hk : k.Shaped code b) :
    k.instructions.Pairwise fun i j => i.stop ≤ j.address := by
  obtain ⟨run, last, hk⟩ := hk
  rw [hk.instructions, List.pairwise_map]
  exact hk.contiguous.ascending hc

theorem lt_of_mem_tail (hc : b.Carries code) (hk : k.Shaped code b) {i : Instruction} (hi : i ∈ k.instructions.tail) :
    k.address < i.address := by
  have hasc := hk.ascending hc
  obtain ⟨run, last, hconsists⟩ := id hk
  obtain ⟨j, rest, hj, hfirst⟩ := hconsists.begins hc
  obtain ⟨d, hd, hdj⟩ := hk.decoded hc (hj ▸ List.mem_cons_self)
  have hlt := hc.lt_stop hd
  rw [hj, List.tail_cons] at hi
  rw [hj] at hasc
  have hbehind := (List.pairwise_cons.mp hasc).1 i hi
  rw [hdj] at hlt
  omega

theorem lt_stop (hc : b.Carries code) (hk : k.Shaped code b) : k.address < k.stop := by
  obtain ⟨run, last, hk⟩ := hk
  have hlast := hk.within hc last (by simp)
  have hlt := hc.lt_stop hk.closed
  omega

theorem stop_of_continuesAt (hc : b.Carries code) (hk : k.Shaped code b) (h : k.continuesAt = some a) : k.stop = a := by
  obtain ⟨run, last, hk⟩ := hk
  rw [hk.continuesAt] at h
  rw [hk.stop hc]
  exact (Decoded.continuesAt?_eq_some_iff.mp h).2.2

end Block.Shaped

end AssemblyConsole
