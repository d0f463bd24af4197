import AssemblyConsole.Payload
import Mathlib.Data.List.Pairwise

/-!
The order of a payload's relocations: located ones by their offsets, and behind them the others as they were.
-/

namespace AssemblyConsole

open List

namespace Relocation

def isLocated (r : Relocation) : Bool := r.offset.isSome

theorem precedes_trans (r s t : Relocation) (hrs : r.precedes s) (hst : s.precedes t) : r.precedes t := by
  unfold precedes at *
  cases hr : r.offset <;> cases hs : s.offset <;> cases ht : t.offset <;>
    simp only [hr, hs, ht, decide_eq_true_eq, reduceCtorEq] at *
  omega

theorem precedes_total (r s : Relocation) : r.precedes s || s.precedes r := by
  unfold precedes
  cases r.offset <;> cases s.offset <;> simp
  omega

theorem isLocated_of_precedes {r s : Relocation} (hr : r.isLocated = false) (h : r.precedes s) :
    s.isLocated = false := by
  have hnone : r.offset = none := by simpa [isLocated] using hr
  unfold precedes at h
  rw [hnone] at h
  cases hs : s.offset with
  | none => simp [isLocated, hs]
  | some o => simp [hs] at h

theorem precedes_of_not_isLocated {r s : Relocation} (hr : r.isLocated = false) (hs : s.isLocated = false) :
    r.precedes s := by
  have hr : r.offset = none := by simpa [isLocated] using hr
  have hs : s.offset = none := by simpa [isLocated] using hs
  simp [precedes, hr, hs]

/-- In a list in order no located relocation is behind one that is not. -/
theorem eq_filter_append_of_pairwise {l : List Relocation} (h : l.Pairwise fun r s => r.precedes s) :
    l = l.filter isLocated ++ l.filter (!isLocated ·) := by
  induction l with
  | nil => rfl
  | cons r l ih =>
    obtain ⟨hr, hl⟩ := List.pairwise_cons.mp h
    cases hlocated : r.isLocated with
    | true =>
      rw [List.filter_cons_of_pos hlocated, List.filter_cons_of_neg (by simp [hlocated]), List.cons_append, ← ih hl]
    | false =>
      have hrest : ∀ s ∈ r :: l, s.isLocated = false := by
        intro s hs
        rcases List.mem_cons.mp hs with rfl | hs
        · exact hlocated
        · exact isLocated_of_precedes hlocated (hr s hs)
      have hnone : (r :: l).filter isLocated = [] := List.filter_eq_nil_iff.mpr (by simpa using hrest)
      have hall : (r :: l).filter (!isLocated ·) = r :: l := List.filter_eq_self.mpr (by simpa using hrest)
      rw [hnone, hall, List.nil_append]

/-- Sorting puts the located relocations in ascending order and leaves the others in theirs. -/
theorem mergeSort_precedes {l located : List Relocation} (hperm : l.filter isLocated ~ located)
    (hascending : located.Pairwise fun r s => r.precedes s ∧ ¬s.precedes r) :
    l.mergeSort precedes = located ++ l.filter (!isLocated ·) := by
  have hsorted := pairwise_mergeSort precedes_trans precedes_total l
  have hsort := mergeSort_perm l precedes
  have hlocated : (l.mergeSort precedes).filter isLocated = located := by
    apply Perm.eq_of_pairwise _ (hsorted.filter _) (hascending.imp And.left) ((hsort.filter _).trans hperm)
    intro r s hr hs hrs hsr
    by_contra hne
    have hone : located.Pairwise fun r s => ¬(r.precedes s ∧ s.precedes r) := hascending.imp fun h hrs => h.2 hrs.2
    have : Std.Symm fun r s : Relocation => ¬(r.precedes s ∧ s.precedes r) := ⟨fun _ _ h hrs => h hrs.symm⟩
    exact hone.forall (((hsort.filter _).trans hperm).mem_iff.mp hr) hs hne ⟨hrs, hsr⟩
  -- relocations without a place are equal to the sort, which is stable
  have hrest : (l.mergeSort precedes).filter (!isLocated ·) = l.filter (!isLocated ·) := by
    have hpairwise : (l.filter (!isLocated ·)).Pairwise fun r s => r.precedes s := by
      apply List.pairwise_of_forall_mem_list
      intro r hr s hs
      have hr : r.isLocated = false := by simpa using (List.mem_filter.mp hr).2
      have hs : s.isLocated = false := by simpa using (List.mem_filter.mp hs).2
      exact precedes_of_not_isLocated hr hs
    have hsub := (sublist_mergeSort precedes_trans precedes_total hpairwise List.filter_sublist).filter (!isLocated ·)
    simp only [List.filter_filter, Bool.and_self] at hsub
    exact (hsub.eq_of_length (hsort.filter _).length_eq.symm).symm
  rw [eq_filter_append_of_pairwise hsorted, hlocated, hrest]

end Relocation

end AssemblyConsole
