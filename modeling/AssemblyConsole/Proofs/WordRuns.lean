import AssemblyConsole.Text.WordCharacter
import Mathlib.Data.List.SplitBy

/-!
The words of a text are its maximal runs of word characters. A text is rewritten word by word if what stands between
words is kept.
-/

namespace AssemblyConsole.Text

def IsWord (w : List Char) : Prop := w ≠ [] ∧ ∀ c ∈ w, isWordCharacter c = true

/-- No word goes on into the text. -/
def BeginsApart (cs : List Char) : Prop := ∀ c ∈ cs.head?, isWordCharacter c = false

/-- The maximal runs of characters that are all word characters or all none. -/
def runs (cs : List Char) : List (List Char) := cs.splitBy fun c d => isWordCharacter c == isWordCharacter d

def words (cs : List Char) : List (List Char) := (runs cs).filter (·.all isWordCharacter)

/-- The text with each of its words replaced. -/
def mapWords (f : List Char → List Char) (cs : List Char) : List Char :=
  (runs cs).flatMap fun w => if w.all isWordCharacter then f w else w

variable {f g : List Char → List Char} {w cs rest : List Char} {c : Char}

theorem isWordCharacter_of_isDigit (h : c.isDigit = true) : isWordCharacter c = true := by
  obtain ⟨hlow, hhigh⟩ : 48 ≤ c.toNat ∧ c.toNat ≤ 57 := Char.isDigit_iff_toNat.mp h
  rw [isWordCharacter, wordBounds, within_of_le _ hlow, within_of_lt _ (Nat.lt_succ_of_le hhigh)]
  rfl

theorem beginsApart_nil : BeginsApart [] := by simp [BeginsApart]

theorem beginsApart_cons (cs : List Char) : BeginsApart (c :: cs) ↔ isWordCharacter c = false := by
  simp [BeginsApart]

theorem eq_nil_of_beginsApart {as : List Char} (has : ∀ c ∈ as, isWordCharacter c = true)
    (hcs : BeginsApart (as ++ cs)) : as = [] := by
  cases as with
  | nil => rfl
  | cons c as =>
    have hc := has c List.mem_cons_self
    rw [(beginsApart_cons _).mp hcs] at hc
    cases hc

theorem eq_of_append_eq {v : List Char} {more : List Char} (hv : ∀ c ∈ v, isWordCharacter c = true)
    (hw : ∀ c ∈ w, isWordCharacter c = true) (hmore : BeginsApart more) (hrest : BeginsApart rest)
    (he : v ++ more = w ++ rest) : v = w := by
  rcases List.append_eq_append_iff.mp he with ⟨as, rfl, rfl⟩ | ⟨as, rfl, rfl⟩
  · rw [eq_nil_of_beginsApart (fun c hc => hw c (List.mem_append_right _ hc)) hmore, List.append_nil]
  · rw [eq_nil_of_beginsApart (fun c hc => hv c (List.mem_append_right _ hc)) hrest, List.append_nil]

theorem runs_append {b : Bool} (hne : w ≠ []) (hw : ∀ c ∈ w, isWordCharacter c = b)
    (hrest : ∀ c ∈ rest.head?, isWordCharacter c = !b) : runs (w ++ rest) = w :: runs rest := by
  have halone : runs w = [w] := by
    apply List.splitBy_of_isChain hne
    apply List.Pairwise.isChain
    apply List.pairwise_of_forall_mem_list
    intro c hc d hd
    rw [hw c hc, hw d hd, beq_self_eq_true]
  have hapart : runs (w ++ rest) = runs w ++ runs rest := by
    apply List.splitBy_append
    intro c hc d hd
    rw [hw c (List.mem_of_mem_getLast? hc), hrest d hd]
    cases b <;> rfl
  rw [hapart, halone, List.singleton_append]

theorem mapWords_nil : mapWords f [] = [] := rfl

theorem mapWords_word (hw : IsWord w) (hrest : BeginsApart rest) : mapWords f (w ++ rest) = f w ++ mapWords f rest := by
  rw [mapWords, runs_append hw.1 hw.2 hrest, List.flatMap_cons, if_pos (List.all_eq_true.mpr hw.2), mapWords]

theorem not_all_of_gap (hne : w ≠ []) (hw : ∀ c ∈ w, isWordCharacter c = false) :
    ¬w.all isWordCharacter = true := by
  obtain ⟨c, hc⟩ := List.exists_mem_of_ne_nil w hne
  intro hall
  exact absurd (List.all_eq_true.mp hall c hc) (by simp [hw c hc])

theorem exists_run (c : Char) (cs : List Char) : ∃ w rest, c :: cs = w ++ rest ∧ w ≠ [] ∧
    (∀ d ∈ w, isWordCharacter d = isWordCharacter c) ∧ ∀ d ∈ rest.head?, isWordCharacter d = !isWordCharacter c := by
  induction cs generalizing c with
  | nil => exact ⟨[c], [], rfl, List.cons_ne_nil c [], by simp, by simp⟩
  | cons e cs ih =>
    by_cases he : isWordCharacter e = isWordCharacter c
    · obtain ⟨w, rest, hcs, -, hw, hrest⟩ := ih e
      refine ⟨c :: w, rest, by rw [hcs, List.cons_append], List.cons_ne_nil c w, ?_, he ▸ hrest⟩
      exact List.forall_mem_cons.mpr ⟨rfl, he ▸ hw⟩
    · refine ⟨[c], e :: cs, rfl, List.cons_ne_nil c [], by simp, ?_⟩
      simpa using Bool.eq_not.mpr he

theorem runs_between (hc : isWordCharacter c = false) (cs : List Char) : runs (c :: cs) = [c] :: runs cs ∨
    ∃ w more, (∀ d ∈ w, isWordCharacter d = false) ∧ w ≠ [] ∧ runs cs = w :: more ∧
      runs (c :: cs) = (c :: w) :: more := by
  have alone (hcs : ∀ d ∈ cs.head?, isWordCharacter d = true) : runs (c :: cs) = [c] :: runs cs :=
    runs_append (b := false) (List.cons_ne_nil c []) (by simpa using hc) hcs
  cases cs with
  | nil => exact .inl (alone (by simp))
  | cons d cs =>
    obtain ⟨w, rest, hcs, hne, hw, hrest⟩ := exists_run d cs
    cases hd : isWordCharacter d with
    | true => exact .inl (alone (by simpa using hd))
    | false =>
      -- The gap that begins behind the character begins with it.
      rw [hd] at hw hrest
      refine .inr ⟨w, runs rest, hw, hne, ?_, ?_⟩
      · rw [hcs, runs_append hne hw hrest]
      · rw [hcs, ← List.cons_append, runs_append (List.cons_ne_nil c w) _ hrest]
        exact List.forall_mem_cons.mpr ⟨hc, hw⟩

theorem mapWords_between (hc : isWordCharacter c = false) (cs : List Char) :
    mapWords f (c :: cs) = c :: mapWords f cs := by
  rcases runs_between hc cs with h | ⟨w, more, hw, hne, hcs, h⟩
  · simp [mapWords, h, hc]
  · rw [mapWords, mapWords, h, hcs, List.flatMap_cons, List.flatMap_cons, if_neg (by simp [hc]),
      if_neg (not_all_of_gap hne hw), List.cons_append]

theorem words_word (hw : IsWord w) (hrest : BeginsApart rest) : words (w ++ rest) = w :: words rest := by
  rw [words, runs_append hw.1 hw.2 hrest, List.filter_cons, if_pos (List.all_eq_true.mpr hw.2), words]

theorem words_between (hc : isWordCharacter c = false) (cs : List Char) : words (c :: cs) = words cs := by
  rcases runs_between hc cs with h | ⟨w, more, hw, hne, hcs, h⟩
  · rw [words, h, List.filter_cons, if_neg (by simp [hc]), words]
  · rw [words, words, h, hcs, List.filter_cons, List.filter_cons, if_neg (by simp [hc]),
      if_neg (not_all_of_gap hne hw)]

/-- A text is empty, or begins with a character of no word or with a word that does not go on behind it. -/
@[elab_as_elim]
theorem words_induction {P : List Char → Prop} (nil : P [])
    (between : ∀ c cs, isWordCharacter c = false → P cs → P (c :: cs))
    (word : ∀ w rest, IsWord w → BeginsApart rest → P rest → P (w ++ rest)) (cs : List Char) : P cs := by
  induction hn : cs.length using Nat.strong_induction_on generalizing cs with
  | _ n ih =>
    cases cs with
    | nil => exact nil
    | cons c cs =>
      cases hc : isWordCharacter c with
      | false => exact between c cs hc (ih _ (by simp [← hn]) cs rfl)
      | true =>
        obtain ⟨w, rest, hcs, hne, hw, hrest⟩ := exists_run c cs
        rw [hc] at hw hrest
        have hlength := congrArg List.length hcs
        have hpositive := List.length_pos_of_ne_nil hne
        rw [hn, List.length_append] at hlength
        rw [hcs]
        exact word w rest ⟨hne, hw⟩ hrest (ih _ (by omega) rest rfl)

theorem beginsApart_mapWords (hcs : BeginsApart cs) : BeginsApart (mapWords f cs) := by
  cases cs with
  | nil => exact beginsApart_nil
  | cons c cs =>
    have hc := (beginsApart_cons cs).mp hcs
    rw [mapWords_between hc]
    exact (beginsApart_cons _).mpr hc

theorem mapWords_mapWords (hf : ∀ w, IsWord w → IsWord (f w)) (cs : List Char) :
    mapWords g (mapWords f cs) = mapWords (fun w => g (f w)) cs := by
  induction cs using words_induction with
  | nil => rfl
  | between c cs hc ih => rw [mapWords_between hc, mapWords_between hc, mapWords_between hc, ih]
  | word w rest hw hrest ih =>
    rw [mapWords_word hw hrest, mapWords_word hw hrest, mapWords_word (hf w hw) (beginsApart_mapWords hrest), ih]

theorem mapWords_eq_mapWords_iff (hf : ∀ w, IsWord w → IsWord (f w)) (hg : ∀ w, IsWord w → IsWord (g w))
    (cs : List Char) : mapWords f cs = mapWords g cs ↔ ∀ w ∈ words cs, f w = g w := by
  induction cs using words_induction with
  | nil => exact iff_of_true rfl fun w hw => absurd hw List.not_mem_nil
  | between c cs hc ih => rw [mapWords_between hc, mapWords_between hc, words_between hc, List.cons_inj_right, ih]
  | word w rest hw hrest ih =>
    rw [mapWords_word hw hrest, mapWords_word hw hrest, words_word hw hrest, List.forall_mem_cons, ← ih]
    constructor
    · intro he
      have hhead := eq_of_append_eq (hf w hw).2 (hg w hw).2 (beginsApart_mapWords hrest) (beginsApart_mapWords hrest) he
      rw [hhead] at he
      exact ⟨hhead, List.append_cancel_left he⟩
    · rintro ⟨hhead, hrest⟩
      rw [hhead, hrest]

end AssemblyConsole.Text
