import AssemblyConsole.Proofs.FieldWords

/-!
Machine code of which some fields hold the addresses of symbols.
-/

namespace AssemblyConsole

namespace Field

variable {f : Field} {w code : Bytes} {i : Nat}

def Covers (f : Field) (i : Nat) : Prop := f.offset ≤ i ∧ i < f.offset + f.size

instance (f : Field) (i : Nat) : Decidable (f.Covers i) := inferInstanceAs (Decidable (_ ∧ _))

theorem Covers.sub_lt (h : f.Covers i) : i - f.offset < f.size := by
  obtain ⟨hlow, hhigh⟩ := h
  omega

theorem getElem?_put (hw : w.length = f.size) (hin : f.offset + f.size ≤ code.length) (i : Nat) :
    (f.put w code)[i]? = if f.Covers i then w[i - f.offset]? else code[i]? := by
  have hbefore : (code.take f.offset).length = f.offset := by
    rw [List.length_take]
    omega
  have hupTo : (code.take f.offset ++ w).length = f.offset + f.size := by rw [List.length_append, hbefore, hw]
  unfold put
  split
  · rename_i hi
    rw [List.getElem?_append_left (by rw [hupTo]; exact hi.2), List.getElem?_append_right (by rw [hbefore]; exact hi.1),
      hbefore]
  · rename_i hi
    by_cases hlow : i < f.offset
    · rw [List.getElem?_append_left (by rw [hupTo]; omega), List.getElem?_append_left (by rw [hbefore]; exact hlow),
        List.getElem?_take_of_lt hlow]
    · have hhigh : f.offset + f.size ≤ i := by
        simp only [Covers] at hi
        omega
      rw [List.getElem?_append_right (by rw [hupTo]; exact hhigh), hupTo, List.getElem?_drop]
      congr 1
      omega

theorem length_put (hw : w.length = f.size) (hin : f.offset + f.size ≤ code.length) :
    (f.put w code).length = code.length := by
  simp only [put, List.length_append, List.length_take, List.length_drop]
  omega

theorem getElem?_bytes (f : Field) (code : Bytes) (j : Nat) :
    (f.bytes code)[j]? = if j < f.size then code[f.offset + j]? else none := by
  simp only [bytes, List.getElem?_take, List.getElem?_drop]

end Field

/-- A relocation of a field puts the placeholder into the field. -/
theorem Payload.fillOne_eq_put {f : Field} {target : String} {w code : Bytes} (hw : w.length = f.size)
    (hin : f.offset + f.size ≤ code.length) :
    fillOne code ⟨some (f.offset : Int), target, f.size, w⟩ = f.put w code := by
  have hstart : position code.length f.offset = f.offset := by
    rw [position_of_le (by omega) (by omega), Int.toNat_natCast]
  have hstop : position code.length ((f.offset : Int) + f.size) = f.offset + f.size := by
    rw [position_of_le (by omega) (by omega)]
    omega
  simp only [fillOne, Relocation.writes?, hw, if_true, Option.map_some, overwrite, hstart, hstop,
    Nat.max_eq_right (Nat.le_add_right _ _), Field.put]

/-- A field that depends on a symbol. It holds the symbol's address and a constant of its own; the engine puts a
symbol of a given value at a displacement from it. -/
structure Slot where
  symbol : String
  field : Field
  constant : Int
  displacement : Int

/-- Code and its slots in the order of their offsets. Slots do not overlap, and those of one symbol do not touch. -/
structure Layout where
  order : ByteOrder
  template : Bytes
  slots : List Slot
  symbols : List String
  known : ∀ f ∈ slots, f.symbol ∈ symbols
  sized : ∀ f ∈ slots, 1 ≤ f.field.size ∧ f.field.size ≤ 8
  inside : ∀ f ∈ slots, f.field.offset + f.field.size ≤ template.length
  near : ∀ f ∈ slots, -16 ≤ f.displacement ∧ f.displacement ≤ 16
  apart : slots.Pairwise fun f g => f.field.offset + f.field.size ≤ g.field.offset ∧
    (f.symbol = g.symbol → f.field.offset + f.field.size < g.field.offset)

def writeSlots (order : ByteOrder) (number : Slot → Int) (fs : List Slot) (code : Bytes) : Bytes :=
  fs.foldl (fun code f => f.field.put (word order f.field.size (number f)) code) code

def Layout.image (L : Layout) (address : Slot → Int) : Bytes :=
  writeSlots L.order (fun f => address f + f.constant) L.slots L.template

section Write

variable {order : ByteOrder} {number : Slot → Int} {fs : List Slot} {code : Bytes} {n i : Nat}

abbrev putNumber (order : ByteOrder) (number : Slot → Int) (f : Slot) (code : Bytes) : Bytes :=
  f.field.put (word order f.field.size (number f)) code

theorem length_putNumber {f : Slot} (hn : code.length = n) (hin : f.field.offset + f.field.size ≤ n) :
    (putNumber order number f code).length = n := by
  rw [putNumber, Field.length_put (length_word _ _ _) (by rwa [hn]), hn]

theorem length_writeSlots (hn : code.length = n) (hin : ∀ f ∈ fs, f.field.offset + f.field.size ≤ n) :
    (writeSlots order number fs code).length = n := by
  induction fs generalizing code with
  | nil => exact hn
  | cons f fs ih =>
    obtain ⟨hf, hfs⟩ := List.forall_mem_cons.mp hin
    exact ih (length_putNumber hn hf) hfs

theorem getElem?_writeSlots_outside (hn : code.length = n) (hin : ∀ f ∈ fs, f.field.offset + f.field.size ≤ n)
    (hi : ∀ f ∈ fs, ¬f.field.Covers i) : (writeSlots order number fs code)[i]? = code[i]? := by
  induction fs generalizing code with
  | nil => rfl
  | cons f fs ih =>
    obtain ⟨hf, hfs⟩ := List.forall_mem_cons.mp hin
    obtain ⟨hif, hifs⟩ := List.forall_mem_cons.mp hi
    refine (ih (length_putNumber hn hf) hfs hifs).trans ?_
    rw [Field.getElem?_put (length_word _ _ _) (by rwa [hn]), if_neg hif]

theorem getElem?_writeSlots_inside (hn : code.length = n) (hin : ∀ f ∈ fs, f.field.offset + f.field.size ≤ n)
    (hapart : fs.Pairwise fun f g => f.field.offset + f.field.size ≤ g.field.offset) {f : Slot} (hf : f ∈ fs)
    (hi : f.field.Covers i) :
    (writeSlots order number fs code)[i]? = (word order f.field.size (number f))[i - f.field.offset]? := by
  induction fs generalizing code with
  | nil => simp at hf
  | cons g fs ih =>
    obtain ⟨hg, hfs⟩ := List.forall_mem_cons.mp hin
    obtain ⟨hbehind, hapart⟩ := List.pairwise_cons.mp hapart
    rcases List.mem_cons.mp hf with rfl | hf
    · have hi' : ∀ h ∈ fs, ¬h.field.Covers i := by
        rintro h hh ⟨hlow, -⟩
        have := hbehind h hh
        have := hi.2
        omega
      refine (getElem?_writeSlots_outside (length_putNumber hn hg) hfs hi').trans ?_
      rw [Field.getElem?_put (length_word _ _ _) (by rwa [hn]), if_pos hi]
    · exact ih (length_putNumber hn hg) hfs hapart hf

theorem bytes_writeSlots (hn : code.length = n) (hin : ∀ f ∈ fs, f.field.offset + f.field.size ≤ n)
    (hapart : fs.Pairwise fun f g => f.field.offset + f.field.size ≤ g.field.offset) {f : Slot} (hf : f ∈ fs) :
    f.field.bytes (writeSlots order number fs code) = word order f.field.size (number f) := by
  apply List.ext_getElem?
  intro j
  rw [Field.getElem?_bytes]
  split
  · rename_i hj
    rw [getElem?_writeSlots_inside hn hin hapart hf ⟨Nat.le_add_right _ _, Nat.add_lt_add_left hj _⟩,
      Nat.add_sub_cancel_left]
  · rename_i hj
    rw [List.getElem?_eq_none (by rw [length_word]; omega)]

end Write

namespace Layout

variable {L : Layout} {address : Slot → Int} {f : Slot} {i : Nat}

theorem apart_offsets (L : Layout) :
    L.slots.Pairwise fun f g => f.field.offset + f.field.size ≤ g.field.offset := L.apart.imp And.left

theorem length_image (L : Layout) (address : Slot → Int) : (L.image address).length = L.template.length :=
  length_writeSlots rfl L.inside

theorem getElem?_image_outside (hi : ∀ f ∈ L.slots, ¬f.field.Covers i) : (L.image address)[i]? = L.template[i]? :=
  getElem?_writeSlots_outside rfl L.inside hi

theorem getElem?_image_inside (hf : f ∈ L.slots) (hi : f.field.Covers i) :
    (L.image address)[i]? = (word L.order f.field.size (address f + f.constant))[i - f.field.offset]? :=
  getElem?_writeSlots_inside rfl L.inside L.apart_offsets hf hi

theorem bytes_image (hf : f ∈ L.slots) :
    f.field.bytes (L.image address) = word L.order f.field.size (address f + f.constant) :=
  bytes_writeSlots rfl L.inside L.apart_offsets hf

theorem image_congr {address' : Slot → Int}
    (h : ∀ f ∈ L.slots, word L.order f.field.size (address f + f.constant) =
      word L.order f.field.size (address' f + f.constant)) : L.image address = L.image address' := by
  apply List.ext_getElem?
  intro i
  by_cases hi : ∃ f ∈ L.slots, f.field.Covers i
  · obtain ⟨f, hf, hi⟩ := hi
    rw [getElem?_image_inside hf hi, getElem?_image_inside hf hi, h f hf]
  · have hi' : ∀ f ∈ L.slots, ¬f.field.Covers i := fun f hf hc => hi ⟨f, hf, hc⟩
    rw [getElem?_image_outside hi', getElem?_image_outside hi']

/-- Writing all slots anew leaves nothing of the addresses before. -/
theorem writeSlots_image (L : Layout) (address address' : Slot → Int) :
    writeSlots L.order (fun f => address' f + f.constant) L.slots (L.image address) = L.image address' := by
  apply List.ext_getElem?
  intro i
  by_cases hi : ∃ f ∈ L.slots, f.field.Covers i
  · obtain ⟨f, hf, hi⟩ := hi
    rw [getElem?_writeSlots_inside (L.length_image address) L.inside L.apart_offsets hf hi, getElem?_image_inside hf hi]
  · have hi' : ∀ f ∈ L.slots, ¬f.field.Covers i := fun f hf hc => hi ⟨f, hf, hc⟩
    rw [getElem?_writeSlots_outside (L.length_image address) L.inside hi', getElem?_image_outside hi',
      getElem?_image_outside hi']

end Layout

end AssemblyConsole
