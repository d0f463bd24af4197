import AssemblyConsole.Assembler.SpecialForm
import Mathlib.Data.List.Chain
import Mathlib.Data.List.Nodup

/-!
The parts of a text that are handed to the engine. Their lines are lines of the text, and none of them is a special
form: joining lines and cutting the joined text again makes no new lines. No two of them follow one another.
-/

namespace AssemblyConsole

namespace Text

theorem lines_append_break {l : List Char} (h : ∀ c ∈ l, isLineBreak c = false) (cs : List Char) :
    lines (l ++ '\n' :: cs) = l :: lines cs := by
  induction l with
  | nil => exact lines_break (by decide) (by decide) cs
  | cons c l ih =>
    have hrest := ih fun d hd => h d (List.mem_cons_of_mem _ hd)
    rw [List.cons_append, lines_other (h c List.mem_cons_self), hrest]

theorem joinLines_cons_cons (l k : List Char) (ls : List (List Char)) :
    joinLines (l :: k :: ls) = l ++ '\n' :: joinLines (k :: ls) := by
  rw [joinLines, List.intercalate_cons_cons, List.append_assoc, List.singleton_append, joinLines]

/-- Lines that are joined are the lines of the text they make, except for an empty line at the end. -/
theorem lines_joinLines {ls : List (List Char)} (h : ∀ l ∈ ls, ∀ c ∈ l, isLineBreak c = false) :
    lines (joinLines ls) = if ls.getLast? = some [] then ls.dropLast else ls := by
  induction ls with
  | nil => simp [joinLines, lines_nil]
  | cons l ls ih =>
    obtain ⟨hl, hls⟩ := List.forall_mem_cons.mp h
    cases ls with
    | nil =>
      by_cases hne : l = []
      · simp [hne, joinLines, lines_nil]
      · have hjoin : joinLines [l] = l := by simp [joinLines, List.intercalate]
        simp [hjoin, lines_of_unbroken hl hne, hne]
    | cons k ls =>
      rw [joinLines_cons_cons, lines_append_break hl, ih hls, List.getLast?_cons_cons]
      split
      · rfl
      · rfl

theorem mem_of_mem_lines_joinLines {ls : List (List Char)} (h : ∀ l ∈ ls, ∀ c ∈ l, isLineBreak c = false)
    {l : List Char} (hl : l ∈ lines (joinLines ls)) : l ∈ ls := by
  rw [lines_joinLines h] at hl
  split at hl
  · exact (List.dropLast_sublist ls).mem hl
  · exact hl

end Text

namespace SpecialForm

theorem partsFrom_append {pending ks ls : List (List Char)} (h : ∀ k ∈ ks, code? k = none) :
    partsFrom pending (ks ++ ls) = partsFrom (pending ++ ks) ls := by
  induction ks generalizing pending with
  | nil => rw [List.nil_append, List.append_nil]
  | cons k ks ih =>
    obtain ⟨hk, hks⟩ := List.forall_mem_cons.mp h
    rw [List.cons_append, partsFrom, hk]
    simp only
    rw [ih hks, List.append_assoc, List.singleton_append]

theorem partsFrom_ordinary {pending ls : List (List Char)} (h : ∀ l ∈ ls, code? l = none) :
    partsFrom pending ls = ordinaryPart (pending ++ ls) := by
  rw [← partsFrom, ← partsFrom_append h, List.append_nil]

theorem eq_of_mem_ordinaryPart {ls : List (List Char)} {part : Part} (h : part ∈ ordinaryPart ls) :
    part = .ordinary (String.ofList (Text.joinLines ls)) := by
  unfold ordinaryPart at h
  split at h
  · simp at h
  · exact List.mem_singleton.mp h

theorem lines_of_mem_partsFrom {pending ls : List (List Char)} {text : String} (hp : ∀ l ∈ pending, code? l = none)
    (h : .ordinary text ∈ partsFrom pending ls) :
    ∃ ks, text = String.ofList (Text.joinLines ks) ∧ ∀ k ∈ ks, k ∈ pending ++ ls ∧ code? k = none := by
  have here {pending ls : List (List Char)} (hp : ∀ l ∈ pending, code? l = none)
      (h : .ordinary text ∈ ordinaryPart pending) :
      ∃ ks, text = String.ofList (Text.joinLines ks) ∧ ∀ k ∈ ks, k ∈ pending ++ ls ∧ code? k = none := by
    obtain rfl := Part.ordinary.inj (eq_of_mem_ordinaryPart h)
    exact ⟨pending, rfl, fun k hk => ⟨List.mem_append_left _ hk, hp k hk⟩⟩
  induction ls generalizing pending with
  | nil => exact here hp h
  | cons l ls ih =>
    rw [partsFrom] at h
    cases hcode : code? l with
    | none =>
      rw [hcode] at h
      have hpending : ∀ k ∈ pending ++ [l], code? k = none := by
        intro k hk
        rcases List.mem_append.mp hk with hk | hk
        · exact hp k hk
        · rwa [List.mem_singleton.mp hk]
      obtain ⟨ks, htext, hks⟩ := ih hpending h
      refine ⟨ks, htext, ?_⟩
      simpa using hks
    | some code =>
      simp only [hcode] at h
      rcases List.mem_append.mp h with h | h
      · exact here hp h
      · rcases List.mem_cons.mp h with h | h
        · simp at h
        · obtain ⟨ks, htext, hks⟩ := ih (by simp) h
          refine ⟨ks, htext, ?_⟩
          intro k hk
          obtain ⟨hmem, hnone⟩ := hks k hk
          rw [List.nil_append] at hmem
          exact ⟨List.mem_append_right _ (List.mem_cons_of_mem _ hmem), hnone⟩

theorem lines_of_mem_split {s text : String} (h : .ordinary text ∈ split s) :
    ∀ l ∈ Text.lines text.toList, l ∈ Text.lines s.toList ∧ code? l = none := by
  obtain ⟨ks, rfl, hks⟩ := lines_of_mem_partsFrom (by simp) h
  have hunbroken : ∀ k ∈ ks, ∀ c ∈ k, Text.isLineBreak c = false := by
    intro k hk
    exact Text.not_break_of_mem_lines (hks k hk).1
  intro l hl
  rw [String.toList_ofList] at hl
  exact hks l (Text.mem_of_mem_lines_joinLines hunbroken hl)

/-- No part of a text that is handed to the engine has a special form in it. -/
theorem split_of_mem_split {s text : String} (h : .ordinary text ∈ split s) :
    (split text).any (·.isSpecial) = false := by
  have hnone : ∀ l ∈ Text.lines text.toList, code? l = none := fun l hl => (lines_of_mem_split h l hl).2
  rw [split, partsFrom_ordinary hnone, List.any_eq_false]
  intro part hpart
  rw [eq_of_mem_ordinaryPart hpart]
  simp [Part.isSpecial]

/-- The line, with its white space squeezed and in lower case, has this code in the table. -/
def IsForm (l : List Char) (code : Bytes) : Prop := (String.ofList (Text.lowerCase (Text.collapse l)), code) ∈ table

theorem table_keys : (table.map (·.1)).Nodup := by decide

theorem code?_eq_some_iff (l : List Char) (code : Bytes) : code? l = some code ↔ IsForm l code := by
  rw [code?, List.lookup_eq_some_iff, IsForm]
  constructor
  · rintro ⟨before, after, htable, -⟩
    rw [htable]
    exact List.mem_append_right _ List.mem_cons_self
  · intro hentry
    obtain ⟨before, after, htable⟩ := List.append_of_mem hentry
    refine ⟨before, after, htable, ?_⟩
    have hkeys := table_keys
    rw [htable, List.map_append, List.nodup_append] at hkeys
    intro entry hbefore
    exact bne_iff_ne.mpr (hkeys.2.2 _ (List.mem_map_of_mem hbefore) _ List.mem_cons_self).symm

theorem code?_eq_none_iff (l : List Char) : code? l = none ↔ ∀ code, ¬IsForm l code := by
  simp only [← code?_eq_some_iff, Option.eq_none_iff_forall_ne_some, ne_eq]

/-- Of two parts that follow one another one is a special form. -/
def Alternating (parts : List Part) : Prop := parts.IsChain fun a b => a.isSpecial ∨ b.isSpecial

theorem table_nonempty : ∀ entry ∈ table, entry.2 ≠ [] := by decide

theorem code?_nonempty {l : List Char} {code : Bytes} (h : code? l = some code) : code ≠ [] :=
  table_nonempty _ ((code?_eq_some_iff l code).mp h)

theorem ordinaryPart_cases (ls : List (List Char)) : ordinaryPart ls = [] ∨ ∃ text, ordinaryPart ls = [.ordinary text] := by
  unfold ordinaryPart
  split
  · exact .inl rfl
  · exact .inr ⟨_, rfl⟩

theorem alternating_special {code : Bytes} {parts : List Part} (h : Alternating parts) :
    Alternating (.special code :: parts) := by
  cases parts with
  | nil => exact List.isChain_singleton _
  | cons part parts => exact List.isChain_cons_cons.mpr ⟨.inl rfl, h⟩

theorem alternating_partsFrom (pending ls : List (List Char)) : Alternating (partsFrom pending ls) := by
  induction ls generalizing pending with
  | nil =>
    rw [partsFrom]
    rcases ordinaryPart_cases pending with hnone | ⟨text, hone⟩
    · rw [hnone]
      exact List.isChain_nil
    · rw [hone]
      exact List.isChain_singleton _
  | cons l ls ih =>
    rw [partsFrom]
    cases hcode : code? l with
    | none => exact ih _
    | some code =>
      have hrest : Alternating (.special code :: partsFrom [] ls) := alternating_special (ih [])
      rcases ordinaryPart_cases pending with hnone | ⟨text, hone⟩
      · simp only [hnone, List.nil_append]
        exact hrest
      · simp only [hone, List.singleton_append]
        exact List.isChain_cons_cons.mpr ⟨.inr rfl, hrest⟩

theorem special_partsFrom (pending ls : List (List Char)) : ∀ code, .special code ∈ partsFrom pending ls → code ≠ [] := by
  have hordinary (pending : List (List Char)) (code : Bytes) : Part.special code ∉ ordinaryPart pending := by
    rcases ordinaryPart_cases pending with hnone | ⟨text, hone⟩
    · simp [hnone]
    · simp [hone]
  induction ls generalizing pending with
  | nil =>
    intro code hmem
    exact absurd hmem (hordinary pending code)
  | cons l ls ih =>
    rw [partsFrom]
    cases hcode : code? l with
    | none => exact ih _
    | some code =>
      intro code' hmem
      rcases List.mem_append.mp hmem with hmem | hmem
      · exact absurd hmem (hordinary pending code')
      · rcases List.mem_cons.mp hmem with heq | hmem
        · obtain rfl := Part.special.inj heq
          exact code?_nonempty hcode
        · exact ih [] code' hmem

end SpecialForm

end AssemblyConsole
