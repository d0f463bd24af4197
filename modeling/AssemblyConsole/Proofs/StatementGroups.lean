import AssemblyConsole.Proofs.OrdinaryParts

/-!
The parts of a text, told by the groups into which its lines fall: each special form by itself, and the ordinary lines
between two of them. Each form gives its code, and the ordinary lines of a group their text, unless all are blank.
-/

namespace AssemblyConsole.SpecialForm

inductive Group
  | form (line : List Char) (code : Bytes)
  | ordinary (lines : List (List Char))

namespace Group

def lines : Group → List (List Char)
  | form l _ => [l]
  | ordinary ls => ls

def isForm : Group → Bool
  | form _ _ => true
  | ordinary _ => false

def parts : Group → List Part
  | form _ code => [.special code]
  | ordinary ls =>
    if ∃ l ∈ ls, Text.allBlank l = false then [.ordinary (String.ofList (Text.joinLines ls))] else []

end Group

/-- The groups hold the lines in their order, and ordinary lines that follow one another are in one group. -/
structure Grouped (ls : List (List Char)) (gs : List Group) : Prop where
  lines : gs.flatMap Group.lines = ls
  forms : ∀ l code, .form l code ∈ gs → IsForm l code
  ordinary : ∀ ks, .ordinary ks ∈ gs → ks ≠ [] ∧ ∀ k ∈ ks, ∀ code, ¬IsForm k code
  maximal : gs.IsChain fun a b => a.isForm ∨ b.isForm

variable {l : List Char} {ls ks : List (List Char)} {gs hs : List Group} {g : Group} {code : Bytes}

theorem Group.parts_ordinary (ks : List (List Char)) : (ordinary ks).parts = ordinaryPart ks := by
  rw [parts, ordinaryPart]
  by_cases hks : ∃ k ∈ ks, Text.allBlank k = false
  · have hall : ¬ks.all Text.allBlank = true := by simpa using hks
    rw [if_pos hks, if_neg hall]
  · have hall : ks.all Text.allBlank = true := by simpa using hks
    rw [if_neg hks, if_pos hall]

theorem partsFrom_eq_append (hls : ∀ l ∈ ls.head?, ∃ code, IsForm l code) (pending : List (List Char)) :
    partsFrom pending ls = ordinaryPart pending ++ partsFrom [] ls := by
  have hnone : ordinaryPart [] = [] := rfl
  cases ls with
  | nil => rw [partsFrom, partsFrom, hnone, List.append_nil]
  | cons l ls =>
    obtain ⟨code, hcode⟩ := hls l rfl
    simp only [partsFrom, (code?_eq_some_iff l code).mpr hcode, hnone, List.nil_append]

namespace Grouped

theorem nil : Grouped [] [] := ⟨rfl, by simp, by simp, List.isChain_nil⟩

theorem tail (h : Grouped ls (g :: gs)) : Grouped (gs.flatMap Group.lines) gs where
  lines := rfl
  forms := fun l code hg => h.forms l code (List.mem_cons_of_mem _ hg)
  ordinary := fun ks hg => h.ordinary ks (List.mem_cons_of_mem _ hg)
  maximal := h.maximal.tail

theorem cons_form (h : Grouped ls gs) (hl : IsForm l code) : Grouped (l :: ls) (.form l code :: gs) where
  lines := by rw [List.flatMap_cons, h.lines, Group.lines, List.singleton_append]
  forms := by
    intro k c hg
    rcases List.mem_cons.mp hg with hg | hg
    · obtain ⟨rfl, rfl⟩ := Group.form.inj hg
      exact hl
    · exact h.forms k c hg
  ordinary := by
    intro ks hg
    rcases List.mem_cons.mp hg with hg | hg
    · cases hg
    · exact h.ordinary ks hg
  maximal := List.isChain_cons.mpr ⟨fun _ _ => .inl rfl, h.maximal⟩

theorem cons_ordinary (h : Grouped ls gs) (hne : ks ≠ []) (hks : ∀ k ∈ ks, ∀ code, ¬IsForm k code)
    (hg : ∀ g ∈ gs.head?, g.isForm) : Grouped (ks ++ ls) (.ordinary ks :: gs) where
  lines := by rw [List.flatMap_cons, h.lines, Group.lines]
  forms := by
    intro k c hg
    rcases List.mem_cons.mp hg with hg | hg
    · cases hg
    · exact h.forms k c hg
  ordinary := by
    intro ks' hg
    rcases List.mem_cons.mp hg with hg | hg
    · obtain rfl := Group.ordinary.inj hg
      exact ⟨hne, hks⟩
    · exact h.ordinary ks' hg
  maximal := List.isChain_cons.mpr ⟨fun g' hg' => .inr (hg g' hg'), h.maximal⟩

theorem exists_grouped (ls : List (List Char)) : ∃ gs, Grouped ls gs := by
  induction ls with
  | nil => exact ⟨[], nil⟩
  | cons l ls ih =>
    obtain ⟨gs, hgs⟩ := ih
    by_cases hl : ∃ code, IsForm l code
    · obtain ⟨code, hl⟩ := hl
      exact ⟨_, hgs.cons_form hl⟩
    · have hl : ∀ code, ¬IsForm l code := fun code hcode => hl ⟨code, hcode⟩
      have alone : (∀ g ∈ gs.head?, g.isForm) → Grouped (l :: ls) (.ordinary [l] :: gs) := by
        intro hg
        exact hgs.cons_ordinary (List.cons_ne_nil l []) (by simpa using hl) hg
      rcases gs with _ | ⟨_ | ks, gs⟩
      · exact ⟨_, alone (by simp)⟩
      · exact ⟨_, alone (by simp [Group.isForm])⟩
      · -- The line joins the ordinary ones that follow it.
        obtain ⟨-, hks⟩ := hgs.ordinary ks List.mem_cons_self
        have hhead : ∀ g ∈ gs.head?, g.isForm := by
          intro g hg
          simpa [Group.isForm] using (List.isChain_cons.mp hgs.maximal).1 g hg
        have hlines := hgs.lines
        rw [List.flatMap_cons, Group.lines] at hlines
        refine ⟨.ordinary (l :: ks) :: gs, ?_⟩
        rw [← hlines, ← List.cons_append]
        exact hgs.tail.cons_ordinary (List.cons_ne_nil l ks) (List.forall_mem_cons.mpr ⟨hl, hks⟩) hhead

theorem lines_ne_nil (h : Grouped ls gs) (hg : g ∈ gs) : g.lines ≠ [] := by
  cases g with
  | form l code => exact List.cons_ne_nil l []
  | ordinary ks => exact (h.ordinary ks hg).1

/-- What stands behind a group of ordinary lines does not begin with an ordinary one. -/
theorem form_behind_ordinary (h : Grouped ls (.ordinary ks :: gs)) :
    ∀ l ∈ (gs.flatMap Group.lines).head?, ∃ code, IsForm l code := by
  rcases gs with _ | ⟨_ | ks', gs⟩
  · simp
  · intro l hl
    obtain rfl := Option.some.inj hl
    exact ⟨_, h.forms _ _ (List.mem_cons_of_mem _ List.mem_cons_self)⟩
  · have hpair := (List.isChain_cons_cons.mp h.maximal).1
    simp [Group.isForm] at hpair

theorem ordinary_eq_takeWhile (h : Grouped ls (.ordinary ks :: gs)) : ks = ls.takeWhile fun l => (code? l).isNone := by
  have hks : ∀ k ∈ ks, (code? k).isNone := by
    intro k hk
    rw [Option.isNone_iff_eq_none, code?_eq_none_iff]
    exact (h.ordinary ks List.mem_cons_self).2 k hk
  have hbehind : (gs.flatMap Group.lines).takeWhile (fun l => (code? l).isNone) = [] := by
    have hform := h.form_behind_ordinary
    cases hrest : gs.flatMap Group.lines with
    | nil => rfl
    | cons l rest =>
      obtain ⟨code, hform⟩ := hform l (by rw [hrest]; rfl)
      simp [(code?_eq_some_iff l code).mpr hform]
  rw [← h.lines, List.flatMap_cons, Group.lines, List.takeWhile_append_of_pos hks, hbehind, List.append_nil]

theorem unique (hg : Grouped ls gs) (hh : Grouped ls hs) : gs = hs := by
  induction gs generalizing ls hs with
  | nil =>
    obtain rfl : ls = [] := hg.lines.symm
    rcases hs with _ | ⟨h, hs⟩
    · rfl
    · exact absurd (List.append_eq_nil_iff.mp hh.lines).1 (hh.lines_ne_nil List.mem_cons_self)
  | cons g gs ih =>
    rcases hs with _ | ⟨h, hs⟩
    · obtain rfl : ls = [] := hh.lines.symm
      exact absurd (List.append_eq_nil_iff.mp hg.lines).1 (hg.lines_ne_nil List.mem_cons_self)
    have heq : g.lines ++ gs.flatMap Group.lines = h.lines ++ hs.flatMap Group.lines := hg.lines.trans hh.lines.symm
    have hfirst : g = h := by
      cases g with
      | form l code =>
        have hform := hg.forms l code List.mem_cons_self
        cases h with
        | form k code' =>
          obtain rfl := (List.cons.inj heq).1
          have hcode := (code?_eq_some_iff l code').mpr (hh.forms l code' List.mem_cons_self)
          rw [(code?_eq_some_iff l code).mpr hform] at hcode
          rw [Option.some.inj hcode]
        | ordinary ks =>
          obtain ⟨hne, hks⟩ := hh.ordinary ks List.mem_cons_self
          obtain ⟨k, ks, rfl⟩ := List.exists_cons_of_ne_nil hne
          obtain rfl := (List.cons.inj heq).1
          exact absurd hform (hks _ List.mem_cons_self code)
      | ordinary ks =>
        cases h with
        | form k code =>
          have hform := hh.forms k code List.mem_cons_self
          obtain ⟨hne, hks⟩ := hg.ordinary ks List.mem_cons_self
          obtain ⟨l, ks, rfl⟩ := List.exists_cons_of_ne_nil hne
          obtain rfl := (List.cons.inj heq).1
          exact absurd hform (hks _ List.mem_cons_self code)
        | ordinary ks' => rw [hg.ordinary_eq_takeWhile, hh.ordinary_eq_takeWhile]
    subst hfirst
    have hrest : hs.flatMap Group.lines = gs.flatMap Group.lines := (List.append_cancel_left heq).symm
    rw [ih hg.tail (hrest ▸ hh.tail)]

theorem partsFrom_eq (h : Grouped ls gs) : partsFrom [] ls = gs.flatMap Group.parts := by
  induction gs generalizing ls with
  | nil =>
    obtain rfl : ls = [] := h.lines.symm
    rfl
  | cons g gs ih =>
    have hlines := h.lines
    rw [List.flatMap_cons] at hlines
    rw [← hlines, List.flatMap_cons, ← ih h.tail]
    cases g with
    | form l code =>
      have hcode := (code?_eq_some_iff l code).mpr (h.forms l code List.mem_cons_self)
      have hnone : ordinaryPart [] = [] := rfl
      simp only [Group.lines, Group.parts, List.singleton_append, partsFrom, hcode, hnone, List.nil_append]
    | ordinary ks =>
      have hks : ∀ k ∈ ks, code? k = none :=
        fun k hk => (code?_eq_none_iff k).mpr ((h.ordinary ks List.mem_cons_self).2 k hk)
      rw [Group.lines, partsFrom_append hks, List.nil_append, partsFrom_eq_append h.form_behind_ordinary,
        Group.parts_ordinary]

end Grouped

/-- Joining lines and cutting the joined text again loses at most an empty line at the end. -/
theorem lines_joinLines_or (h : ∀ k ∈ ks, ∀ c ∈ k, Text.isLineBreak c = false) :
    Text.lines (Text.joinLines ks) = ks ∨ Text.lines (Text.joinLines ks) ++ [[]] = ks := by
  rw [Text.lines_joinLines h]
  split
  · rename_i hlast
    exact .inr (List.dropLast_append_getLast? _ hlast)
  · exact .inl rfl

/-- The lines of a text fall into groups in one way. Its parts are the codes of the forms and the texts of the groups
of ordinary lines that are not all blank, in their order. The text of a group has the lines of the group. -/
theorem split_groups (text : String) :
    ∃ gs, (∀ hs, Grouped (Text.lines text.toList) hs ↔ hs = gs) ∧ split text = gs.flatMap Group.parts ∧
      Alternating (split text) ∧
      ∀ s, .ordinary s ∈ split text → ∃ ks, .ordinary ks ∈ gs ∧ s = String.ofList (Text.joinLines ks) ∧
        (Text.lines s.toList = ks ∨ Text.lines s.toList ++ [[]] = ks) ∧
        (∃ l ∈ Text.lines s.toList, Text.allBlank l = false) ∧
        ∀ l ∈ Text.lines s.toList, ∀ code, ¬IsForm l code := by
  obtain ⟨gs, hgs⟩ := Grouped.exists_grouped (Text.lines text.toList)
  have hsplit : split text = gs.flatMap Group.parts := hgs.partsFrom_eq
  refine ⟨gs, fun hs => ⟨fun hhs => hhs.unique hgs, fun he => he ▸ hgs⟩, hsplit, alternating_partsFrom _ _, ?_⟩
  intro s hs
  rw [hsplit, List.mem_flatMap] at hs
  obtain ⟨g, hg, hs⟩ := hs
  cases g with
  | form l code => simp [Group.parts] at hs
  | ordinary ks =>
    have hforms := (hgs.ordinary ks hg).2
    rw [Group.parts] at hs
    split at hs
    · rename_i hblank
      obtain rfl := Part.ordinary.inj (List.mem_singleton.mp hs)
      have hunbroken : ∀ k ∈ ks, ∀ c ∈ k, Text.isLineBreak c = false := by
        intro k hk
        have hline : k ∈ Text.lines text.toList := by
          rw [← hgs.lines]
          exact List.mem_flatMap.mpr ⟨_, hg, hk⟩
        exact Text.not_break_of_mem_lines hline
      rw [String.toList_ofList]
      have hlines := lines_joinLines_or hunbroken
      refine ⟨ks, hg, rfl, hlines, ?_, fun l hl => hforms l (Text.mem_of_mem_lines_joinLines hunbroken hl)⟩
      obtain ⟨k, hk, hkblank⟩ := hblank
      rcases hlines with hlines | hlines
      · exact ⟨k, by rwa [hlines], hkblank⟩
      · rw [← hlines, List.mem_append, List.mem_singleton] at hk
        rcases hk with hk | rfl
        · exact ⟨k, hk, hkblank⟩
        · simp [Text.allBlank] at hkblank
    · simp at hs

def indentedText : String :=
  "\tnop\n\n  MOV  RAX,\tQWORD PTR FS:[0x28] \n \nret\nxor rdi, qword ptr fs:[0x28]\n "

def indentedGroups : List Group := [
  .ordinary ["\tnop".toList, []],
  .form "  MOV  RAX,\tQWORD PTR FS:[0x28] ".toList [0x64, 0x48, 0x8b, 0x04, 0x25, 0x28, 0x00, 0x00, 0x00],
  .ordinary [" ".toList, "ret".toList],
  .form "xor rdi, qword ptr fs:[0x28]".toList [0x64, 0x48, 0x33, 0x3c, 0x25, 0x28, 0x00, 0x00, 0x00],
  .ordinary [" ".toList]]

theorem grouped_indented : Grouped (Text.lines indentedText.toList) indentedGroups where
  lines := by decide +kernel
  forms := by
    have hforms : ∀ g ∈ indentedGroups, g.isForm = true → ∀ l ∈ g.lines, g.parts = (code? l).toList.map .special := by
      decide +kernel
    intro l code hg
    have hparts := hforms _ hg rfl l List.mem_cons_self
    rw [← code?_eq_some_iff]
    cases hcode : code? l with
    | none => simp [hcode, Group.parts] at hparts
    | some code' => simpa [hcode, Group.parts, eq_comm] using hparts
  ordinary := by
    have hordinary : ∀ g ∈ indentedGroups, g.isForm = false → g.lines ≠ [] ∧ ∀ l ∈ g.lines, code? l = none := by
      decide +kernel
    intro ks hg
    obtain ⟨hne, hnone⟩ := hordinary _ hg rfl
    exact ⟨hne, fun k hk => (code?_eq_none_iff k).mp (hnone k hk)⟩
  maximal := by decide

/-- A form is written with other white space and in capitals, and one as in the table has only a blank line behind
it. -/
theorem split_groups_indented :
    Grouped (Text.lines indentedText.toList) indentedGroups ∧
      split indentedText = [
        .ordinary "\tnop\n",
        .special [0x64, 0x48, 0x8b, 0x04, 0x25, 0x28, 0x00, 0x00, 0x00],
        .ordinary " \nret",
        .special [0x64, 0x48, 0x33, 0x3c, 0x25, 0x28, 0x00, 0x00, 0x00]] := by
  obtain ⟨gs, hgs, hsplit, -⟩ := split_groups indentedText
  obtain rfl := (hgs _).mp grouped_indented
  refine ⟨grouped_indented, ?_⟩
  rw [hsplit]
  decide +kernel

end AssemblyConsole.SpecialForm
