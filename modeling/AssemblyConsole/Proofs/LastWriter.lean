import AssemblyConsole.Proofs.FieldLayout

/-!
What filling leaves at each position. A relocation writes its placeholder over its field, unless it has no offset or the
placeholder is not as long as the field. Of the relocations that write at a position the last in the list has the last
word, so that it does not matter what was there before.
-/

namespace AssemblyConsole

namespace Relocation

def Skipped (r : Relocation) : Prop := r.offset = none ∨ (r.placeholder.length : Int) ≠ r.size

def InRange (n : Nat) (r : Relocation) : Prop := ∃ o ∈ r.offset, 0 ≤ o ∧ o + r.size ≤ n

def Fillable (n : Nat) (r : Relocation) : Prop := r.Skipped ∨ r.InRange n

/-- The relocation is not skipped, and the position is in its field. -/
def Writes (r : Relocation) (i : Nat) : Prop := ¬r.Skipped ∧ ∃ o ∈ r.offset, o ≤ i ∧ i < o + r.size

instance (r : Relocation) : Decidable r.Skipped := inferInstanceAs (Decidable (_ ∨ _))

instance (n : Nat) (r : Relocation) : Decidable (r.InRange n) := inferInstanceAs (Decidable (∃ o ∈ r.offset, _))

instance (n : Nat) (r : Relocation) : Decidable (r.Fillable n) := inferInstanceAs (Decidable (_ ∨ _))

instance (r : Relocation) (i : Nat) : Decidable (r.Writes i) := inferInstanceAs (Decidable (_ ∧ ∃ o ∈ r.offset, _))

/-- The byte that filling writes at a position for the relocation, if it writes one. -/
def written? (r : Relocation) (i : Nat) : Option UInt8 :=
  r.writes?.bind fun (o, w) => if o ≤ i then w[(i - o).toNat]? else none

variable {n : Nat} {r : Relocation} {i : Nat}

theorem skipped_iff (r : Relocation) : r.Skipped ↔ r.writes? = none := by
  unfold Skipped writes?
  split
  · rename_i h
    simp [h]
  · rename_i h
    simp [h]

theorem Fillable.cases (h : r.Fillable n) : r.Skipped ∨ ∃ (f : Field) (w : Bytes),
    f.offset + f.size ≤ n ∧ w.length = f.size ∧ r = ⟨some f.offset, r.target, f.size, w⟩ := by
  by_cases hskip : r.Skipped
  · exact .inl hskip
  · obtain ⟨o, ho, hfirst, hlast⟩ := h.resolve_left hskip
    simp only [Skipped, not_or, not_not] at hskip
    have hstart : ((o.toNat : Nat) : Int) = o := Int.toNat_of_nonneg hfirst
    refine .inr ⟨⟨o.toNat, r.placeholder.length⟩, r.placeholder, ?_, rfl, ?_⟩
    · have hlength := hskip.2
      simp only
      omega
    · rw [hstart, hskip.2, ← ho]

theorem Fillable.mono {m : Nat} (h : r.Fillable n) (hnm : n ≤ m) : r.Fillable m := by
  apply h.imp_right
  rintro ⟨o, ho, hfirst, hlast⟩
  exact ⟨o, ho, hfirst, by omega⟩

theorem Skipped.shift (h : r.Skipped) (n : Nat) : (r.shift n).Skipped := by
  apply h.imp_left
  intro hnone
  rw [Relocation.shift, hnone, Option.map_none]

theorem written?_eq_none_of_skipped (h : r.Skipped) (i : Nat) : r.written? i = none := by
  rw [written?, (skipped_iff r).mp h, Option.bind_none]

theorem written?_field {f : Field} {target : String} {w : Bytes} (hw : w.length = f.size) (i : Nat) :
    (Relocation.mk (some f.offset) target f.size w).written? i = if f.Covers i then w[i - f.offset]? else none := by
  have hindex : ((i : Int) - f.offset).toNat = i - f.offset := by omega
  simp only [written?, writes?, hw, if_true, Option.map_some, Option.bind_some, hindex, Int.ofNat_le]
  by_cases hlow : f.offset ≤ i
  · by_cases hhigh : i < f.offset + f.size
    · rw [if_pos hlow, if_pos ⟨hlow, hhigh⟩]
    · rw [if_pos hlow, if_neg fun h => hhigh h.2, List.getElem?_eq_none (by omega)]
  · rw [if_neg hlow, if_neg fun h => hlow h.1]

theorem written?_of_writes (h : r.Writes i) :
    ∃ o x, r.offset = some o ∧ r.placeholder[(i - o).toNat]? = some x ∧ r.written? i = some x := by
  obtain ⟨hskip, o, hmem, hlow, hhigh⟩ := h
  have ho : r.offset = some o := hmem
  simp only [Skipped, not_or, not_not] at hskip
  have hlt : ((i : Int) - o).toNat < r.placeholder.length := by
    have := hskip.2
    omega
  refine ⟨o, _, ho, List.getElem?_eq_getElem hlt, ?_⟩
  simp only [written?, writes?, hskip.2, if_true, ho, Option.map_some, Option.bind_some, if_pos hlow]
  exact List.getElem?_eq_getElem hlt

theorem written?_eq_none_iff : r.written? i = none ↔ ¬r.Writes i := by
  constructor
  · intro hnone hwrites
    obtain ⟨o, x, -, -, hx⟩ := written?_of_writes hwrites
    simp [hnone] at hx
  · intro hnot
    by_cases hskip : r.Skipped
    · exact written?_eq_none_of_skipped hskip i
    · obtain ⟨hsome, hlength⟩ := not_or.mp hskip
      obtain ⟨o, ho⟩ := Option.ne_none_iff_exists'.mp hsome
      simp only [written?, writes?, not_not.mp hlength, if_true, ho, Option.map_some, Option.bind_some]
      split
      · rename_i hlow
        have hhigh : ¬(i : Int) < o + r.size := fun hhigh => hnot ⟨hskip, o, ho, hlow, hhigh⟩
        apply List.getElem?_eq_none
        omega
      · rfl

end Relocation

namespace Payload

variable {p : Payload} {r : Relocation} {rs : List Relocation} {bs : Bytes} {n : Nat}

theorem fillOne_skipped (h : r.Skipped) (bs : Bytes) : fillOne bs r = bs := by rw [fillOne, (r.skipped_iff).mp h]

theorem length_fillOne (hr : r.Fillable n) (hn : bs.length = n) : (fillOne bs r).length = n := by
  subst hn
  rcases hr.cases with hskip | ⟨f, w, hin, hw, hr⟩
  · rw [fillOne_skipped hskip]
  · rw [hr, fillOne_eq_put hw hin, Field.length_put hw hin]

theorem length_foldl_fillOne (hrs : ∀ r ∈ rs, r.Fillable n) (hn : bs.length = n) :
    (rs.foldl fillOne bs).length = n := by
  induction rs generalizing bs with
  | nil => exact hn
  | cons r rs ih =>
    obtain ⟨hr, hrs⟩ := List.forall_mem_cons.mp hrs
    exact ih hrs (length_fillOne hr hn)

theorem getElem?_fillOne (hr : r.Fillable bs.length) (i : Nat) : (fillOne bs r)[i]? = (r.written? i).or bs[i]? := by
  rcases hr.cases with hskip | ⟨f, w, hin, hw, hr⟩
  · rw [fillOne_skipped hskip, r.written?_eq_none_of_skipped hskip, Option.none_or]
  · rw [hr, fillOne_eq_put hw hin, Field.getElem?_put hw hin, Relocation.written?_field hw]
    split
    · rename_i hi
      have hlt : i - f.offset < w.length := hw.symm ▸ hi.sub_lt
      rw [List.getElem?_eq_getElem hlt, Option.some_or]
    · rw [Option.none_or]

theorem getElem?_foldl_fillOne (hrs : ∀ r ∈ rs, r.Fillable bs.length) (i : Nat) :
    (rs.foldl fillOne bs)[i]? = (rs.reverse.findSome? (·.written? i)).or bs[i]? := by
  induction rs generalizing bs with
  | nil => rfl
  | cons r rs ih =>
    obtain ⟨hr, hrs⟩ := List.forall_mem_cons.mp hrs
    rw [List.foldl_cons, ih (by rwa [length_fillOne hr rfl]), getElem?_fillOne hr, List.reverse_cons,
      List.findSome?_append, List.findSome?_singleton, Option.or_assoc]

/-- Filled code does not change when it is filled again. -/
theorem foldl_fillOne_twice (hrs : ∀ r ∈ rs, r.Fillable bs.length) :
    rs.foldl fillOne (rs.foldl fillOne bs) = rs.foldl fillOne bs := by
  apply List.ext_getElem?
  intro i
  rw [getElem?_foldl_fillOne (by rwa [length_foldl_fillOne hrs rfl]), getElem?_foldl_fillOne hrs, ← Option.or_assoc,
    Option.or_self]

/-- The last relocation that writes at a position decides the byte there, and filling changes no other byte. -/
theorem fill_lastWriter (h : ∀ r ∈ p.relocations, r.Fillable p.code.length) :
    ∃ bs, p.fill.bytes? = some bs ∧ bs.length = p.code.length ∧
      (∀ (before after : List Relocation) (r : Relocation) (i : Nat), p.relocations = before ++ r :: after →
        r.Writes i → (∀ q ∈ after, ¬q.Writes i) →
        ∃ o x, r.offset = some o ∧ r.placeholder[(i - o).toNat]? = some x ∧ bs[i]? = some x) ∧
      (∀ i, (∀ r ∈ p.relocations, ¬r.Writes i) → bs[i]? = p.code[i]?) ∧
      ({ code := bs, relocations := p.relocations } : Payload).fill.bytes? = some bs := by
  refine ⟨p.filled, p.bytes?_fill, length_foldl_fillOne h rfl, ?_, ?_, ?_⟩
  · intro before after r i hsplit hwrites hlast
    obtain ⟨o, x, ho, hx, hwritten⟩ := Relocation.written?_of_writes hwrites
    have hafter : after.reverse.findSome? (·.written? i) = none := by
      apply List.findSome?_eq_none_iff.mpr
      intro q hq
      exact Relocation.written?_eq_none_iff.mpr (hlast q (List.mem_reverse.mp hq))
    refine ⟨o, x, ho, hx, ?_⟩
    rw [filled, getElem?_foldl_fillOne h, hsplit, List.reverse_append, List.reverse_cons, List.append_assoc,
      List.findSome?_append, hafter, List.singleton_append, List.findSome?_cons, hwritten, Option.none_or,
      Option.some_or]
  · intro i hnone
    have hall : p.relocations.reverse.findSome? (·.written? i) = none := by
      apply List.findSome?_eq_none_iff.mpr
      intro r hr
      exact Relocation.written?_eq_none_iff.mpr (hnone r (List.mem_reverse.mp hr))
    rw [filled, getElem?_foldl_fillOne h, hall, Option.none_or]
  · rw [bytes?_fill]
    exact congrArg some (foldl_fillOne_twice h)

/-- Overlapping relocations, one without an offset, one whose placeholder is too short and an empty one at the end. -/
def overlapping : Payload where
  code := [0x10, 0x11, 0x12, 0x13, 0x14, 0x15]
  relocations := [⟨some 1, "a", 3, [0xa0, 0xa1, 0xa2]⟩, ⟨none, "b", 0, []⟩, ⟨some 2, "c", 2, [0xc0, 0xc1]⟩,
    ⟨some 0, "d", 4, [0xd0]⟩, ⟨some 6, "e", 0, []⟩]

theorem fill_lastWriter_overlapping :
    (∀ r ∈ overlapping.relocations, r.Fillable overlapping.code.length) ∧
      ∃ bs, overlapping.fill.bytes? = some bs ∧ bs.length = 6 ∧
        bs[1]? = some 0xa0 ∧ bs[2]? = some 0xc0 ∧ bs[5]? = some 0x15 ∧
        ({ code := bs, relocations := overlapping.relocations } : Payload).fill.bytes? = some bs := by
  have h : ∀ r ∈ overlapping.relocations, r.Fillable overlapping.code.length := by decide
  obtain ⟨bs, hbs, hlength, hlast, hnone, hagain⟩ := fill_lastWriter h
  obtain ⟨o, x, ho, hx, hone⟩ := hlast [] _ _ 1 rfl (by decide) (by decide)
  obtain ⟨u, y, hu, hy, htwo⟩ := hlast (overlapping.relocations.take 2) _ _ 2 rfl (by decide) (by decide)
  obtain rfl := Option.some.inj ho
  obtain rfl := Option.some.inj hu
  exact ⟨h, bs, hbs, hlength, hone.trans hx.symm, htwo.trans hy.symm, hnone 5 (by decide), hagain⟩

end Payload

end AssemblyConsole
