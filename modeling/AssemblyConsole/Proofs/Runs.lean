import AssemblyConsole.Assembler.Run
import Mathlib.Data.List.Chain

/-!
The runs of a list of offsets: they hold the offsets and nothing else, and those of ascending offsets stand apart.
-/

namespace AssemblyConsole.Run

theorem ofOffsets_cons (o : Int) (os : List Int) : ∃ n rest, ofOffsets (o :: os) = ⟨o, n + 1⟩ :: rest := by
  rw [ofOffsets]
  cases ofOffsets os with
  | nil => exact ⟨0, [], rfl⟩
  | cons r rs =>
    simp only
    split
    · exact ⟨r.length, rs, rfl⟩
    · exact ⟨0, r :: rs, rfl⟩

theorem length_pos (os : List Int) : ∀ r ∈ ofOffsets os, 1 ≤ r.length := by
  induction os with
  | nil => simp [ofOffsets]
  | cons o os ih =>
    rw [ofOffsets]
    cases hruns : ofOffsets os with
    | nil => simp
    | cons r rs =>
      rw [hruns, List.forall_mem_cons] at ih
      simp only
      split
      · exact List.forall_mem_cons.mpr ⟨by simp, ih.2⟩
      · exact List.forall_mem_cons.mpr ⟨by simp, List.forall_mem_cons.mpr ih⟩

theorem mem_offsets (r : Run) (o : Int) : o ∈ r.offsets ↔ r.start ≤ o ∧ o < r.stop := by
  simp only [offsets, stop, List.mem_map, List.mem_range]
  constructor
  · rintro ⟨i, hi, rfl⟩
    omega
  · intro h
    exact ⟨(o - r.start).toNat, by omega, by omega⟩

theorem ends_mem_offsets {r : Run} (hr : 1 ≤ r.length) : r.start ∈ r.offsets ∧ r.stop - 1 ∈ r.offsets := by
  rw [mem_offsets, mem_offsets, stop]
  omega

theorem offsets_singleton (o : Int) : offsets ⟨o, 1⟩ = [o] := by simp [offsets]

theorem offsets_append (r s : Run) (h : s.start = r.stop) :
    offsets ⟨r.start, r.length + s.length⟩ = r.offsets ++ s.offsets := by
  simp only [offsets, List.range_add, List.map_append, List.map_map, h, stop]
  congr 1
  apply List.map_congr_left
  intro i _
  simp only [Function.comp_apply]
  omega

theorem offsets_succ (o : Int) (n : Nat) : offsets ⟨o, n + 1⟩ = o :: offsets ⟨o + 1, n⟩ := by
  have h := offsets_append ⟨o, 1⟩ ⟨o + 1, n⟩ rfl
  rwa [offsets_singleton, List.singleton_append, Nat.add_comm 1 n] at h

theorem flatMap_offsets (os : List Int) : (ofOffsets os).flatMap offsets = os := by
  induction os with
  | nil => rfl
  | cons o os ih =>
    rw [ofOffsets]
    cases hruns : ofOffsets os with
    | nil =>
      rw [hruns] at ih
      obtain rfl : [] = os := ih
      simp [offsets]
    | cons r rs =>
      rw [hruns, List.flatMap_cons] at ih
      simp only
      split
      · rename_i hnext
        obtain ⟨start, length⟩ := r
        obtain rfl : start = o + 1 := hnext
        rw [List.flatMap_cons, offsets_succ, List.cons_append, ih]
      · rw [List.flatMap_cons, List.flatMap_cons, ih]
        simp [offsets]

theorem mem_iff_exists_run (os : List Int) (o : Int) : o ∈ os ↔ ∃ r ∈ ofOffsets os, o ∈ r.offsets := by
  rw [← List.mem_flatMap, flatMap_offsets]

theorem pairwise_ofOffsets {os : List Int} (h : os.Pairwise (· < ·)) :
    (ofOffsets os).Pairwise fun r s => r.stop < s.start := by
  induction os with
  | nil => exact .nil
  | cons o os ih =>
    obtain ⟨hfirst, hrest⟩ := List.pairwise_cons.mp h
    have hih := ih hrest
    cases os with
    | nil => simp [ofOffsets]
    | cons o' os =>
      obtain ⟨n, rs, hruns⟩ := ofOffsets_cons o' os
      have hlt := hfirst o' List.mem_cons_self
      rw [ofOffsets, hruns]
      rw [hruns] at hih
      obtain ⟨hapart, hrs⟩ := List.pairwise_cons.mp hih
      simp only [stop] at hapart ⊢
      split
      · rename_i hnext
        apply List.pairwise_cons.mpr
        refine ⟨?_, hrs⟩
        intro s hs
        have hbehind := hapart s hs
        simp only
        omega
      · rename_i hnext
        apply List.pairwise_cons.mpr
        refine ⟨?_, hih⟩
        intro s hs
        simp only
        rcases List.mem_cons.mp hs with rfl | hs
        · simp only
          omega
        · have hbehind := hapart s hs
          omega

theorem isChain_ofOffsets (os : List Int) : (ofOffsets os).IsChain fun r s => s.start ≠ r.stop := by
  induction os with
  | nil => exact .nil
  | cons o os ih =>
    rw [ofOffsets]
    cases hruns : ofOffsets os with
    | nil => exact .singleton _
    | cons r rs =>
      rw [hruns] at ih
      simp only
      split
      · rename_i hnext
        obtain ⟨hr, hrs⟩ := List.isChain_cons.mp ih
        refine List.isChain_cons.mpr ⟨?_, hrs⟩
        intro s hs
        have hapart := hr s hs
        simp only [stop] at hapart ⊢
        omega
      · rename_i hnext
        exact List.isChain_cons_cons.mpr ⟨by simpa [stop] using hnext, ih⟩

/-- Nonempty runs that hold the offsets in their order, none of which begins where the one in front of it stops. -/
structure Divides (os : List Int) (rs : List Run) : Prop where
  lossless : rs.flatMap offsets = os
  nonempty : ∀ r ∈ rs, 1 ≤ r.length
  apart : rs.IsChain fun r s => s.start ≠ r.stop

theorem divides_ofOffsets (os : List Int) : Divides os (ofOffsets os) :=
  ⟨flatMap_offsets os, length_pos os, isChain_ofOffsets os⟩

theorem ofOffsets_append {r : Run} {os : List Int} (hr : 1 ≤ r.length)
    (hos : ∀ s ∈ (ofOffsets os).head?, s.start ≠ r.stop) : ofOffsets (r.offsets ++ os) = r :: ofOffsets os := by
  obtain ⟨start, length⟩ := r
  obtain ⟨n, rfl⟩ := Nat.exists_eq_add_of_le' hr
  induction n generalizing start with
  | zero =>
    rw [offsets_succ, List.cons_append, ofOffsets]
    cases hruns : ofOffsets os with
    | nil => simp [offsets, hruns]
    | cons s rs =>
      have hs : s.start ≠ start + 1 := by simpa [stop, hruns] using hos
      simp [offsets, hruns, hs]
  | succ n ih =>
    have hstop : ∀ s ∈ (ofOffsets os).head?, s.start ≠ stop ⟨start + 1, n + 1⟩ := by
      intro s hs
      have hapart := hos s hs
      simp only [stop] at hapart ⊢
      omega
    rw [offsets_succ, List.cons_append, ofOffsets, ih (start + 1) (by simp) hstop]
    simp

theorem Divides.eq {os : List Int} {rs : List Run} (h : Divides os rs) : rs = ofOffsets os := by
  obtain ⟨rfl, hpos, hapart⟩ := h
  induction rs with
  | nil => rfl
  | cons r rs ih =>
    obtain ⟨hr, hrs⟩ := List.forall_mem_cons.mp hpos
    obtain ⟨hnext, hapart⟩ := List.isChain_cons.mp hapart
    have hrest := ih hrs hapart
    rw [List.flatMap_cons, ofOffsets_append hr (hrest ▸ hnext), ← hrest]

end AssemblyConsole.Run
