import AssemblyConsole.Proofs.PayloadForm

/-!
Filling the code of a payload as the assembler makes them. In code that is put behind other code the relocations,
shifted, write what they wrote before.
-/

namespace AssemblyConsole

/-- The byte that a relocation writes at a position, if it writes one. -/
def Relocation.byte? (r : Relocation) (i : Nat) : Option UInt8 :=
  r.offset.bind fun o => if o ≤ i then r.placeholder[(i - o).toNat]? else none

theorem Relocation.Fits.written?_eq_byte? {n : Nat} {r : Relocation} (h : r.Fits n) (i : Nat) :
    r.written? i = r.byte? i := by
  cases ho : r.offset with
  | none => simp [written?, writes?, byte?, ho]
  | some o =>
    obtain ⟨-, -, -, hlength⟩ := h o ho
    simp only [written?, writes?, hlength, if_true, byte?, ho, Option.map_some, Option.bind_some]

namespace Field

variable {f : Field} {w : Bytes} {xs : Bytes}

theorem put_append_left (hin : f.offset + f.size ≤ xs.length) (ys : Bytes) : f.put w (xs ++ ys) = f.put w xs ++ ys := by
  simp only [put]
  rw [List.take_append_of_le_length (by omega), List.drop_append_of_le_length hin, List.append_assoc, List.append_assoc,
    List.append_assoc]

theorem put_append_right (f : Field) (w xs ys : Bytes) :
    put ⟨f.offset + xs.length, f.size⟩ w (xs ++ ys) = xs ++ f.put w ys := by
  have hstop : f.offset + xs.length + f.size = xs.length + (f.offset + f.size) := by omega
  simp only [put, hstop]
  rw [Nat.add_comm f.offset, List.take_length_add_append, List.drop_length_add_append, List.append_assoc, List.append_assoc,
    List.append_assoc]

end Field

namespace Payload

variable {r : Relocation} {rs : List Relocation}

theorem findSome?_congr {f g : Relocation → Option UInt8} (h : ∀ r ∈ rs, f r = g r) :
    rs.findSome? f = rs.findSome? g := by
  induction rs with
  | nil => rfl
  | cons r rs ih =>
    obtain ⟨hr, hrs⟩ := List.forall_mem_cons.mp h
    rw [List.findSome?_cons, List.findSome?_cons, hr, ih hrs]

theorem WellFormed.getElem?_filled {p : Payload} (hp : p.WellFormed) (i : Nat) :
    p.filled[i]? = (p.relocations.reverse.findSome? (·.byte? i)).or p.code[i]? := by
  have hbyte : ∀ r ∈ p.relocations.reverse, r.written? i = r.byte? i := by
    intro r hr
    exact (hp.fits r (List.mem_reverse.mp hr)).written?_eq_byte? i
  rw [filled, getElem?_foldl_fillOne hp.fillable, findSome?_congr hbyte]

theorem foldl_fillOne_append_left {xs : Bytes} (hrs : ∀ r ∈ rs, r.Fillable xs.length) (ys : Bytes) :
    rs.foldl fillOne (xs ++ ys) = rs.foldl fillOne xs ++ ys := by
  induction rs generalizing xs with
  | nil => rfl
  | cons r rs ih =>
    obtain ⟨hr, hrs⟩ := List.forall_mem_cons.mp hrs
    have hone : fillOne (xs ++ ys) r = fillOne xs r ++ ys := by
      rcases hr.cases with hskip | ⟨f, w, hf, hw, hr⟩
      · rw [fillOne_skipped hskip, fillOne_skipped hskip]
      · have hin : f.offset + f.size ≤ (xs ++ ys).length := by
          rw [List.length_append]
          omega
        rw [hr, fillOne_eq_put hw hin, fillOne_eq_put hw hf, Field.put_append_left hf]
    rw [List.foldl_cons, List.foldl_cons, hone, ih (by rwa [length_fillOne hr rfl])]

theorem foldl_fillOne_shift (xs : Bytes) {ys : Bytes} (hrs : ∀ r ∈ rs, r.Fillable ys.length) :
    (rs.map (·.shift xs.length)).foldl fillOne (xs ++ ys) = xs ++ rs.foldl fillOne ys := by
  induction rs generalizing ys with
  | nil => rfl
  | cons r rs ih =>
    obtain ⟨hr, hrs⟩ := List.forall_mem_cons.mp hrs
    have hone : fillOne (xs ++ ys) (r.shift xs.length) = xs ++ fillOne ys r := by
      rcases hr.cases with hskip | ⟨f, w, hf, hw, hr⟩
      · rw [fillOne_skipped hskip, fillOne_skipped (hskip.shift _)]
      · have hin : f.offset + xs.length + f.size ≤ (xs ++ ys).length := by
          rw [List.length_append]
          omega
        rw [hr, fillOne_eq_put hw hf, ← Field.put_append_right]
        exact fillOne_eq_put (f := ⟨f.offset + xs.length, f.size⟩) hw hin
    rw [List.map_cons, List.foldl_cons, List.foldl_cons, hone, ih (by rwa [length_fillOne hr rfl])]

end Payload

end AssemblyConsole
