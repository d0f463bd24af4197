import AssemblyConsole.Text.Utf8

/-!
Text survives being written as bytes and read back, and a character of one byte is read only where that byte is.
-/

namespace AssemblyConsole.Text.Utf8

/-- The bytes of a character by its number. -/
inductive Spelled (v : Nat) : List UInt8 → Prop
  | one {b} (hv : v < 0x80) (hb : b.toNat = v) : Spelled v [b]
  | two {b c} (hv : 0x80 ≤ v ∧ v < 0x800) (hb : b.toNat = v / 0x40 + 0xc0) (hc : c.toNat = v % 0x40 + 0x80) :
      Spelled v [b, c]
  | three {b c d} (hv : 0x800 ≤ v ∧ v < 0x10000) (hb : b.toNat = v / 0x1000 + 0xe0)
      (hc : c.toNat = v / 0x40 % 0x40 + 0x80) (hd : d.toNat = v % 0x40 + 0x80) : Spelled v [b, c, d]
  | four {b c d e} (hv : 0x10000 ≤ v ∧ v < 0x110000) (hb : b.toNat = v / 0x40000 + 0xf0)
      (hc : c.toNat = v / 0x1000 % 0x40 + 0x80) (hd : d.toNat = v / 0x40 % 0x40 + 0x80)
      (he : e.toNat = v % 0x40 + 0x80) : Spelled v [b, c, d, e]

theorem spelled_utf8EncodeChar (c : Char) : Spelled c.toNat (String.utf8EncodeChar c) := by
  have hvalid : c.toNat.isValidChar := c.valid
  have hval : c.val.toNat = c.toNat := rfl
  have small {n m : Nat} (h : n = m) (hm : m < 0x100) : (UInt8.ofNat n).toNat = m := by
    rw [h, UInt8.toNat_ofNat', Nat.mod_eq_of_lt hm]
  simp only [String.utf8EncodeChar, hval]
  split
  · exact .one (by omega) (small rfl (by omega))
  · split
    · exact .two (by omega) (small (by omega) (by omega)) (small rfl (by omega))
    · split
      · exact .three (by omega) (small (by omega) (by omega)) (small rfl (by omega)) (small rfl (by omega))
      · exact .four (by omega) (small (by omega) (by omega)) (small rfl (by omega)) (small rfl (by omega))
          (small rfl (by omega))

section Reading

variable {b : UInt8} {n : Nat}

theorem begin_two (hn : 2 ≤ n ∧ n < 0x20) (hb : b.toNat = n + 0xc0) : begin? b = some ⟨[b], n, 0x80, 0xbf, 0⟩ := by
  have : 0xc2 ≤ b ∧ b ≤ 0xdf := by simp [UInt8.le_iff_toNat_le]; omega
  simp [begin?, this, hb]

theorem begin_three (hn : n < 0x10) (hb : b.toNat = n + 0xe0) :
    begin? b = some ⟨[b], n, if n = 0 then 0xa0 else 0x80, if n = 0xd then 0x9f else 0xbf, 1⟩ := by
  have hnot : ¬b ≤ 0xdf := by simp [UInt8.le_iff_toNat_le]; omega
  have hin : 0xe0 ≤ b ∧ b ≤ 0xef := by simp [UInt8.le_iff_toNat_le]; omega
  have hlow : b = 0xe0 ↔ n = 0 := by simp [← UInt8.toNat_inj]; omega
  have hhigh : b = 0xed ↔ n = 0xd := by simp [← UInt8.toNat_inj]; omega
  simp [begin?, hnot, hin, hlow, hhigh, hb]

theorem begin_four (hn : n < 5) (hb : b.toNat = n + 0xf0) :
    begin? b = some ⟨[b], n, if n = 0 then 0x90 else 0x80, if n = 4 then 0x8f else 0xbf, 2⟩ := by
  have hnot : ¬b ≤ 0xdf ∧ ¬b ≤ 0xef := by simp [UInt8.le_iff_toNat_le]; omega
  have hin : 0xf0 ≤ b ∧ b ≤ 0xf4 := by simp [UInt8.le_iff_toNat_le]; omega
  have hlow : b = 0xf0 ↔ n = 0 := by simp [← UInt8.toNat_inj]; omega
  have hhigh : b = 0xf4 ↔ n = 4 := by simp [← UInt8.toNat_inj]; omega
  simp [begin?, hnot, hin, hlow, hhigh, hb]

variable (position : Nat) (bs : List UInt8) {begun : List UInt8} {payload : Nat} {low high : UInt8}

theorem scanFrom_one (hb : b.toNat < 0x80) :
    scanFrom position none (b :: bs) = .ok (Char.ofNat b.toNat) :: scanFrom (position + 1) none bs := by
  have : b < 0x80 := UInt8.lt_iff_toNat_lt.mpr hb
  simp [scanFrom, first, this]

theorem scanFrom_begun {c : Begun} (hb : 0x80 ≤ b.toNat) (h : begin? b = some c) :
    scanFrom position none (b :: bs) = scanFrom (position + 1) (some c) bs := by
  have : ¬b < 0x80 := by simpa [UInt8.lt_iff_toNat_lt] using hb
  simp [scanFrom, first, this, h]

theorem scanFrom_last (hb : b.toNat = n + 0x80) (hin : low ≤ b ∧ b ≤ high) :
    scanFrom position (some ⟨begun, payload, low, high, 0⟩) (b :: bs) =
      .ok (Char.ofNat (payload * 0x40 + n)) :: scanFrom (position + 1) none bs := by
  simp [scanFrom, next, hin, hb]

theorem scanFrom_more {k : Nat} (hb : b.toNat = n + 0x80) (hin : low ≤ b ∧ b ≤ high) :
    scanFrom position (some ⟨begun, payload, low, high, k + 1⟩) (b :: bs) =
      scanFrom (position + 1) (some ⟨begun ++ [b], payload * 0x40 + n, 0x80, 0xbf, k⟩) bs := by
  simp [scanFrom, next, hin, hb]

theorem inside_of_toNat (hb : b.toNat = n + 0x80) (hn : n < 0x40) : (0x80 : UInt8) ≤ b ∧ b ≤ 0xbf := by
  simp [UInt8.le_iff_toNat_le]
  omega

theorem scanFrom_spelled {v : Nat} {cs : List UInt8} (hvalid : v.isValidChar) (h : Spelled v cs) :
    scanFrom position none (cs ++ bs) = .ok (Char.ofNat v) :: scanFrom (position + cs.length) none bs := by
  cases h with
  | @one b hv hb => exact hb ▸ scanFrom_one position bs (hb ▸ hv)
  | @two b c hv hb hc =>
    have hsum : v / 0x40 * 0x40 + v % 0x40 = v := by omega
    have hin := inside_of_toNat hc (by omega)
    change scanFrom position none (b :: c :: bs) = _
    rw [scanFrom_begun _ _ (by omega) (begin_two (by omega) hb), scanFrom_last _ _ hc hin, hsum]
    rfl
  | @three b c d hv hb hc hd =>
    have hsum : (v / 0x1000 * 0x40 + v / 0x40 % 0x40) * 0x40 + v % 0x40 = v := by omega
    have hin : (if v / 0x1000 = 0 then (0xa0 : UInt8) else 0x80) ≤ c ∧
        c ≤ (if v / 0x1000 = 0xd then (0x9f : UInt8) else 0xbf) := by
      constructor <;> split <;> simp [UInt8.le_iff_toNat_le] <;> omega
    have hin' := inside_of_toNat hd (by omega)
    change scanFrom position none (b :: c :: d :: bs) = _
    rw [scanFrom_begun _ _ (by omega) (begin_three (by omega) hb), scanFrom_more _ _ hc hin,
      scanFrom_last _ _ hd hin', hsum]
    rfl
  | @four b c d e hv hb hc hd he =>
    have hsum : ((v / 0x40000 * 0x40 + v / 0x1000 % 0x40) * 0x40 + v / 0x40 % 0x40) * 0x40 + v % 0x40 = v := by omega
    have hin : (if v / 0x40000 = 0 then (0x90 : UInt8) else 0x80) ≤ c ∧
        c ≤ (if v / 0x40000 = 4 then (0x8f : UInt8) else 0xbf) := by
      constructor <;> split <;> simp [UInt8.le_iff_toNat_le] <;> omega
    have hin' := inside_of_toNat hd (by omega)
    have hin'' := inside_of_toNat he (by omega)
    change scanFrom position none (b :: c :: d :: e :: bs) = _
    rw [scanFrom_begun _ _ (by omega) (begin_four (by omega) hb), scanFrom_more _ _ hc hin,
      scanFrom_more _ _ hd hin', scanFrom_last _ _ he hin'', hsum]
    rfl

end Reading

theorem encode_cons (c : Char) (cs : List Char) : encode (c :: cs) = String.utf8EncodeChar c ++ encode cs := rfl

theorem scanFrom_encode (position : Nat) (cs : List Char) : scanFrom position none (encode cs) = cs.map .ok := by
  induction cs generalizing position with
  | nil => rfl
  | cons c cs ih =>
    rw [encode_cons, scanFrom_spelled position (encode cs) c.valid (spelled_utf8EncodeChar c), ih, List.map_cons]
    exact congrArg (Except.ok · :: _) (Char.ofNat_toNat c)

theorem decode_encode (cs : List Char) : decode (encode cs) = cs := by
  rw [decode, scan, scanFrom_encode, List.map_map]
  exact List.map_id cs

theorem Spelled.mem_iff {v : Nat} {bs : List UInt8} {b : UInt8} (h : Spelled v bs) (hb : b.toNat < 0x80) :
    b ∈ bs ↔ b.toNat = v := by
  cases h <;> simp only [List.mem_cons, List.not_mem_nil, or_false, ← UInt8.toNat_inj] <;> omega

theorem mem_encode_iff {b : UInt8} (hb : b.toNat < 0x80) (cs : List Char) :
    b ∈ encode cs ↔ ∃ c ∈ cs, b.toNat = c.toNat := by
  simp only [encode, List.mem_flatMap, (spelled_utf8EncodeChar _).mem_iff hb]

/-- What is begun cannot end as a character of one byte. -/
def Begun.Long (c : Begun) : Prop :=
  (if c.further = 0 then 0x80 else 2) ≤ c.payload * 0x40 + (c.low.toNat - 0x80)

/-- A byte gives no character of one byte but its own, and begins none. -/
structure Honest (b : UInt8) (r : List Piece × Option Begun) : Prop where
  pieces : ∀ c, .ok c ∈ r.1 → 0 < c.toNat → c.toNat < 0x80 → c.toNat = b.toNat
  begun : ∀ c, r.2 = some c → c.Long

section Honest

variable {position : Nat} {b : UInt8} {c : Begun}

theorem long_of_begin? (h : begin? b = some c) : c.Long := by
  unfold begin? at h
  simp only [Bool.and_eq_true, decide_eq_true_eq, UInt8.le_iff_toNat_le, UInt8.reduceToNat, ← UInt8.toNat_inj] at h
  split at h
  · obtain rfl := Option.some.inj h
    simp only [Begun.Long, if_true, UInt8.reduceToNat]
    omega
  · split at h
    · obtain rfl := Option.some.inj h
      rw [Begun.Long, if_neg (Nat.succ_ne_zero _)]
      split <;> simp only [UInt8.reduceToNat] <;> omega
    · split at h
      · obtain rfl := Option.some.inj h
        rw [Begun.Long, if_neg (Nat.succ_ne_zero _)]
        split <;> simp only [UInt8.reduceToNat] <;> omega
      · simp at h

theorem toNat_ofNat_eq_or (n : Nat) : (Char.ofNat n).toNat = n ∨ (Char.ofNat n).toNat = 0 := by
  by_cases h : n.isValidChar
  · rw [Char.ofNat, dif_pos h]
    exact .inl rfl
  · rw [Char.ofNat, dif_neg h]
    exact .inr rfl

theorem honest_first (position : Nat) (b : UInt8) : Honest b (first position b) := by
  unfold first
  split
  · refine ⟨?_, by simp⟩
    intro c hc hpos _
    obtain rfl := Except.ok.inj (List.mem_singleton.mp hc)
    have := toNat_ofNat_eq_or b.toNat
    omega
  · split
    · rename_i c hc
      refine ⟨by simp, ?_⟩
      intro d hd
      obtain rfl := Option.some.inj hd
      exact long_of_begin? hc
    · exact ⟨by simp, by simp⟩

theorem honest_next (h : c.Long) : Honest b (next position c b) := by
  unfold next
  split
  · rename_i hin
    rw [Bool.and_eq_true, decide_eq_true_eq, UInt8.le_iff_toNat_le] at hin
    simp only [Begun.Long] at h
    split
    · rename_i hfurther
      refine ⟨?_, by simp⟩
      intro d hd hpos hshort
      rw [List.mem_singleton, Except.ok.injEq] at hd
      have hd' := toNat_ofNat_eq_or (c.payload * 0x40 + (b.toNat - 0x80))
      rw [← hd] at hd'
      rw [if_pos hfurther] at h
      omega
    · rename_i n hfurther
      refine ⟨by simp, ?_⟩
      intro d hd
      obtain rfl := Option.some.inj hd
      rw [if_neg (by omega)] at h
      simp only [Begun.Long]
      split <;> omega
  · obtain ⟨hpieces, hbegun⟩ := honest_first position b
    refine ⟨?_, hbegun⟩
    intro d hd
    exact hpieces d (by simpa using hd)

end Honest

theorem mem_of_mem_scanFrom {position : Nat} {begun : Option Begun} (hbegun : ∀ c, begun = some c → c.Long)
    {bs : List UInt8} {c : Char} (hc : .ok c ∈ scanFrom position begun bs) (hpos : 0 < c.toNat)
    (hshort : c.toNat < 0x80) : ∃ b ∈ bs, c.toNat = b.toNat := by
  induction bs generalizing position begun with
  | nil => cases begun <;> simp [scanFrom] at hc
  | cons b bs ih =>
    have hstep {r : List Piece × Option Begun} (hr : Honest b r)
        (hc : .ok c ∈ r.1 ++ scanFrom (position + 1) r.2 bs) : ∃ b' ∈ b :: bs, c.toNat = b'.toNat := by
      rcases List.mem_append.mp hc with hc | hc
      · exact ⟨b, List.mem_cons_self, hr.pieces c hc hpos hshort⟩
      · obtain ⟨b', hb', heq⟩ := ih hr.begun hc
        exact ⟨b', List.mem_cons_of_mem b hb', heq⟩
    cases begun with
    | none => exact hstep (honest_first position b) hc
    | some d => exact hstep (honest_next (hbegun d rfl)) hc

theorem mem_of_mem_decode {bs : List UInt8} {c : Char} (hc : c ∈ decode bs) (hpos : 0 < c.toNat)
    (hshort : c.toNat < 0x80) : ∃ b ∈ bs, c.toNat = b.toNat := by
  obtain ⟨p, hp, rfl⟩ := List.mem_map.mp hc
  rcases p with d | c
  · simp [replacement] at hshort
  · exact mem_of_mem_scanFrom (by simp) hp hpos hshort

end AssemblyConsole.Text.Utf8
