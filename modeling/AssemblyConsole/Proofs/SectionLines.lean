import AssemblyConsole.Architecture.Names
import AssemblyConsole.Assembler.File
import Mathlib.Data.List.Infix

/-!
Which lines of a file are handed on. Those that read `.text` are left out; but a longer line that ends in `.text` loses
this and its line feed too, so that what is left of it is put in front of the next line.
-/

namespace AssemblyConsole

namespace Text

def endedLines (ls : List (List Char)) : List Char := ls.flatMap (· ++ ['\n'])

/-- The text is the lines, each with its line feed, and a rest without one. -/
structure HasLines (cs : List Char) (ls : List (List Char)) (rest : List Char) : Prop where
  text : cs = endedLines ls ++ rest
  unbroken : ∀ l ∈ ls, '\n' ∉ l
  unended : '\n' ∉ rest

/-- A line that ends in the part loses it and the line feed, any other is kept. -/
def leftOf (part l : List Char) : List Char := (l.dropSuffix? part).getD (l ++ ['\n'])

variable {part l cs rest : List Char} {ls : List (List Char)} {c : Char}

theorem exists_hasLines (cs : List Char) : ∃ ls rest, HasLines cs ls rest := by
  induction cs with
  | nil => exact ⟨[], [], rfl, by simp, by simp⟩
  | cons c cs ih =>
    obtain ⟨ls, rest, rfl, hls, hrest⟩ := ih
    by_cases hc : c = '\n'
    · exact ⟨[] :: ls, rest, by rw [hc]; rfl, List.forall_mem_cons.mpr ⟨by simp, hls⟩, hrest⟩
    · have hne : '\n' ≠ c := fun he => hc he.symm
      cases ls with
      | nil => exact ⟨[], c :: rest, rfl, by simp, by simp [hne, hrest]⟩
      | cons l ls =>
        obtain ⟨hl, hls⟩ := List.forall_mem_cons.mp hls
        exact ⟨(c :: l) :: ls, rest, rfl, List.forall_mem_cons.mpr ⟨by simp [hne, hl], hls⟩, hrest⟩

theorem leftOf_append (before part : List Char) : leftOf part (before ++ part) = before := by
  have hdrop : (before ++ part).dropSuffix? part = some before :=
    List.dropSuffix?_eq_some_iff.mpr ⟨part, rfl, beq_self_eq_true part⟩
  rw [leftOf, hdrop, Option.getD_some]

theorem leftOf_of_not_suffix (h : ¬part <:+ l) : leftOf part l = l ++ ['\n'] := by
  have hdrop : l.dropSuffix? part = none := by
    apply Option.eq_none_iff_forall_ne_some.mpr
    intro before hbefore
    obtain ⟨tail, hl, hend⟩ := List.dropSuffix?_eq_some_iff.mp hbefore
    exact h ⟨before, by rw [hl, eq_of_beq hend]⟩
  rw [leftOf, hdrop, Option.getD_none]

theorem leftOf_cons (h : part ≠ c :: l) : leftOf part (c :: l) = c :: leftOf part l := by
  by_cases hl : part <:+ l
  · obtain ⟨before, rfl⟩ := hl
    rw [← List.cons_append, leftOf_append, leftOf_append]
  · have hcl : ¬part <:+ c :: l := by
      rw [List.suffix_cons_iff]
      exact not_or_intro h hl
    rw [leftOf_of_not_suffix hl, leftOf_of_not_suffix hcl, List.cons_append]

theorem omitFrom_append (part xs cs : List Char) : omitFrom part xs.length (xs ++ cs) = omitFrom part 0 cs := by
  induction xs with
  | nil => rfl
  | cons x xs ih => rw [List.length_cons, List.cons_append, omitFrom, ih]

theorem omitting_append (hne : part ≠ []) (cs : List Char) : omitting part (part ++ cs) = omitting part cs := by
  obtain ⟨d, ds, rfl⟩ := List.exists_cons_of_ne_nil hne
  have hbegins : beginsWith (d :: ds) (d :: (ds ++ cs)) = true := by
    rw [beginsWith, List.isPrefixOf_iff_prefix]
    exact ⟨cs, rfl⟩
  rw [List.cons_append, omitting, omitFrom, if_pos hbegins, List.length_cons, Nat.add_sub_cancel, omitFrom_append,
    omitting]

theorem omitting_cons (h : ¬part <+: c :: cs) : omitting part (c :: cs) = c :: omitting part cs := by
  have hbegins : ¬beginsWith part (c :: cs) = true := by rwa [beginsWith, List.isPrefixOf_iff_prefix]
  rw [omitting, omitFrom, if_neg hbegins, omitting]

theorem takeWhile_line (hl : '\n' ∉ l) (cs : List Char) : (l ++ '\n' :: cs).takeWhile (· ≠ '\n') = l := by
  rw [List.takeWhile_append_of_pos]
  · simp
  · intro c hc
    simpa using fun he : c = '\n' => hl (he ▸ hc)

theorem endedLines_cons (l : List Char) (ls : List (List Char)) (rest : List Char) :
    endedLines (l :: ls) ++ rest = l ++ '\n' :: (endedLines ls ++ rest) := by
  simp [endedLines]

theorem HasLines.unique {ks : List (List Char)} {more : List Char} (h : HasLines cs ls rest)
    (h' : HasLines cs ks more) : ks = ls ∧ more = rest := by
  obtain ⟨rfl, hls, hrest⟩ := h
  obtain ⟨htext, hks, hmore⟩ := h'
  induction ls generalizing ks with
  | nil =>
    cases ks with
    | nil => exact ⟨rfl, htext.symm⟩
    | cons k ks =>
      rw [endedLines_cons] at htext
      have hmem : '\n' ∈ endedLines [] ++ rest := htext ▸ List.mem_append_right k List.mem_cons_self
      exact absurd hmem hrest
  | cons l ls ih =>
    obtain ⟨hl, hls⟩ := List.forall_mem_cons.mp hls
    rw [endedLines_cons] at htext
    cases ks with
    | nil =>
      have hmem : '\n' ∈ endedLines [] ++ more := htext ▸ List.mem_append_right l List.mem_cons_self
      exact absurd hmem hmore
    | cons k ks =>
      obtain ⟨hk, hks⟩ := List.forall_mem_cons.mp hks
      rw [endedLines_cons] at htext
      have hline : l = k := by rw [← takeWhile_line hl, htext, takeWhile_line hk]
      rw [hline, List.append_cancel_left_eq, List.cons_inj_right] at htext
      obtain ⟨rfl, rfl⟩ := ih hls htext hks
      exact ⟨by rw [hline], rfl⟩

theorem ended_prefix_iff (hpart : '\n' ∉ part) (hl : '\n' ∉ l) (cs : List Char) :
    part ++ ['\n'] <+: l ++ '\n' :: cs ↔ part = l := by
  constructor
  · rintro ⟨more, hmore⟩
    rw [List.append_assoc, List.singleton_append] at hmore
    rw [← takeWhile_line hpart more, hmore, takeWhile_line hl]
  · rintro rfl
    exact ⟨cs, List.append_cons _ _ _ |>.symm⟩

theorem omitting_rest (hrest : '\n' ∉ rest) (part : List Char) : omitting (part ++ ['\n']) rest = rest := by
  induction rest with
  | nil => rfl
  | cons c rest ih =>
    rw [omitting_cons, ih fun hmem => hrest (List.mem_cons_of_mem c hmem)]
    intro hbegins
    exact hrest (hbegins.subset (List.mem_append_right part List.mem_cons_self))

theorem omitting_ended (part cs : List Char) :
    omitting (part ++ ['\n']) (part ++ '\n' :: cs) = leftOf part part ++ omitting (part ++ ['\n']) cs := by
  have hleft : leftOf part part = [] := leftOf_append [] part
  have hended : omitting (part ++ ['\n']) (part ++ ['\n'] ++ cs) = omitting (part ++ ['\n']) cs :=
    omitting_append (by simp) cs
  rw [List.append_assoc, List.singleton_append] at hended
  rw [hleft, List.nil_append, hended]

theorem omitting_line (hpart : '\n' ∉ part) (hl : '\n' ∉ l) (cs : List Char) :
    omitting (part ++ ['\n']) (l ++ '\n' :: cs) = leftOf part l ++ omitting (part ++ ['\n']) cs := by
  induction l with
  | nil =>
    by_cases hne : part = []
    · rw [hne, omitting_ended []]
    · have hsuffix : ¬part <:+ [] := fun h => hne (List.suffix_nil.mp h)
      rw [leftOf_of_not_suffix hsuffix]
      exact omitting_cons (mt (ended_prefix_iff hpart hl cs).mp hne)
  | cons c l ih =>
    by_cases hne : part = c :: l
    · rw [← hne, omitting_ended]
    · have hbegins := mt (ended_prefix_iff hpart hl cs).mp hne
      rw [List.cons_append] at hbegins ⊢
      rw [omitting_cons hbegins, leftOf_cons hne, ih fun hmem => hl (List.mem_cons_of_mem c hmem), List.cons_append]

theorem HasLines.omitting (h : HasLines cs ls rest) (part : List Char) (hpart : '\n' ∉ part) :
    omitting (part ++ ['\n']) cs = ls.flatMap (leftOf part) ++ rest := by
  obtain ⟨rfl, hls, hrest⟩ := h
  induction ls with
  | nil => exact omitting_rest hrest part
  | cons l ls ih =>
    obtain ⟨hl, hls⟩ := List.forall_mem_cons.mp hls
    rw [endedLines_cons, omitting_line hpart hl, ih hls, List.flatMap_cons, List.append_assoc]

section Longer

variable {f g : List Char → List Char} (h : ∀ l ∈ ls, (f l).length ≤ (g l).length)
include h

theorem length_flatMap_le : (ls.flatMap f).length ≤ (ls.flatMap g).length := by
  induction ls with
  | nil => exact Nat.le_refl 0
  | cons l ls ih =>
    obtain ⟨hl, hls⟩ := List.forall_mem_cons.mp h
    rw [List.flatMap_cons, List.flatMap_cons, List.length_append, List.length_append]
    exact Nat.add_le_add hl (ih hls)

theorem flatMap_eq_flatMap_iff : ls.flatMap f = ls.flatMap g ↔ ∀ l ∈ ls, f l = g l := by
  induction ls with
  | nil => simp
  | cons l ls ih =>
    obtain ⟨hl, hls⟩ := List.forall_mem_cons.mp h
    rw [List.flatMap_cons, List.flatMap_cons, List.forall_mem_cons, ← ih hls]
    constructor
    · intro heq
      have hlengths := congrArg List.length heq
      rw [List.length_append, List.length_append] at hlengths
      have hle := length_flatMap_le hls
      exact List.append_inj heq (by omega)
    · rintro ⟨hl, hls⟩
      rw [hl, hls]

end Longer

/-- A line that is the part is dropped, any other is kept. -/
def keptOf (part l : List Char) : List Char := if l = part then [] else l ++ ['\n']

theorem endedLines_filter (part : List Char) (ls : List (List Char)) :
    endedLines (ls.filter (· ≠ part)) = ls.flatMap (keptOf part) := by
  induction ls with
  | nil => rfl
  | cons l ls ih =>
    rw [List.flatMap_cons, ← ih, keptOf]
    by_cases hl : l = part <;> simp [hl, endedLines]

theorem leftOf_eq_keptOf (h : part <:+ l → l = part) : leftOf part l = keptOf part l := by
  rw [keptOf]
  split
  · rename_i hl
    rw [hl]
    exact leftOf_append [] part
  · rename_i hl
    exact leftOf_of_not_suffix (mt h hl)

theorem length_leftOf_lt (hl : part <:+ l) (hne : l ≠ part) : (leftOf part l).length < (keptOf part l).length := by
  obtain ⟨before, rfl⟩ := hl
  rw [leftOf_append, keptOf, if_neg hne]
  simp only [List.length_append, List.length_singleton]
  omega

theorem length_leftOf_le (part l : List Char) : (leftOf part l).length ≤ (keptOf part l).length := by
  by_cases h : part <:+ l → l = part
  · rw [leftOf_eq_keptOf h]
  · obtain ⟨hl, hne⟩ := Classical.not_imp.mp h
    exact Nat.le_of_lt (length_leftOf_lt hl hne)

theorem flatMap_leftOf_eq_iff (part : List Char) (ls : List (List Char)) :
    ls.flatMap (leftOf part) = endedLines (ls.filter (· ≠ part)) ↔ ∀ l ∈ ls, part <:+ l → l = part := by
  rw [endedLines_filter, flatMap_eq_flatMap_iff fun l _ => length_leftOf_le part l]
  apply forall₂_congr
  intro l _
  constructor
  · intro heq hl
    by_contra hne
    exact (length_leftOf_lt hl hne).ne (congrArg List.length heq)
  · exact leftOf_eq_keptOf

end Text

namespace Assembler

open Text

def directive : List Char := ".text".toList

theorem toList_fileText {cs rest : List Char} {ls : List (List Char)} (h : HasLines (withLineFeeds cs) ls rest) :
    (fileText cs).toList = ls.flatMap (leftOf directive) ++ rest := by
  rw [fileText, String.toList_ofList]
  exact h.omitting directive (by decide)

/-- A file that can be read has its lines in one way. What is assembled of it are these lines, but that each of them
that ends in `.text` loses this and its line feed. So the lines that read `.text` are left out, and all others stay
lines exactly if none of them ends in this. -/
theorem assembleFile_lines (env : Environment) (content : Bytes) (a : Architecture) (address : Int) :
    (∀ d, Utf8.decode? content = .error d → assembleFile env content a address = throw (.unreadable d)) ∧
    ∀ cs, Utf8.decode? content = .ok cs → ∃ ls rest text,
      (∀ ks more, HasLines (withLineFeeds cs) ks more ↔ ks = ls ∧ more = rest) ∧
      assembleFile env content a address = ExceptT.adapt .rejected (assemble env ⟨String.ofList text, a, address⟩) ∧
      text = ls.flatMap (leftOf directive) ++ rest ∧
      (HasLines text (ls.filter (· ≠ directive)) rest ↔ ∀ l ∈ ls, directive <:+ l → l = directive) := by
  refine ⟨fun d hd => by rw [assembleFile, hd], ?_⟩
  intro cs hcs
  obtain ⟨ls, rest, hlines⟩ := exists_hasLines (withLineFeeds cs)
  have htext := toList_fileText hlines
  refine ⟨ls, rest, (fileText cs).toList, ?_, ?_, htext, ?_⟩
  · intro ks more
    constructor
    · exact hlines.unique
    · rintro ⟨rfl, rfl⟩
      exact hlines
  · rw [assembleFile, hcs, String.ofList_toList]
  · rw [← flatMap_leftOf_eq_iff, htext]
    constructor
    · intro h
      exact List.append_cancel_right h.text
    · intro heq
      exact ⟨by rw [heq], fun l hl => hlines.unbroken l (List.mem_of_mem_filter hl), hlines.unended⟩

def sectionEngine : AssemblerEngine where
  opening _ _ := none
  assembling _ _ text _ := .reply {
    result := .ok (some (if text = "nop\n.section ret\n" then [0x90] else [0x90, 0xc3])) }

def sectionConsole : Environment := ⟨sectionEngine, ⟨fun _ _ => none, fun _ _ _ _ => .ok []⟩, true⟩

/-- The second line names the section that it goes on with. -/
def sectionFile : Bytes := "nop\n.section .text\nret\n".toByteArray.toList

theorem decode?_sectionFile : Utf8.decode? sectionFile = .ok "nop\n.section .text\nret\n".toList := by
  decide +kernel

theorem hasLines_sectionFile : HasLines (withLineFeeds "nop\n.section .text\nret\n".toList)
    ["nop".toList, ".section .text".toList, "ret".toList] [] :=
  ⟨by decide, by decide, by decide⟩

theorem assembleFile_lines_sectionFile :
    assembleFile sectionConsole sectionFile .x86 0 =
      ExceptT.adapt .rejected (assemble sectionConsole ⟨"nop\n.section ret\n", .x86, 0⟩) := by
  obtain ⟨-, hread⟩ := assembleFile_lines sectionConsole sectionFile .x86 0
  obtain ⟨ls, rest, text, hlines, hassemble, htext, -⟩ := hread _ decode?_sectionFile
  obtain ⟨rfl, rfl⟩ := (hlines _ _).mp hasLines_sectionFile
  rw [hassemble, htext]
  rfl

/-- The line that names the section is joined to the next one. -/
theorem lines_joined_sectionFile : ¬∀ (env : Environment) (content : Bytes) (a : Architecture) (address : Int)
    (cs : List Char) (ls : List (List Char)) (rest : List Char),
    Utf8.decode? content = .ok cs → HasLines (withLineFeeds cs) ls rest →
      assembleFile env content a address = ExceptT.adapt .rejected
        (assemble env ⟨String.ofList (endedLines (ls.filter (· ≠ directive)) ++ rest), a, address⟩) := by
  intro h
  have hkept := h sectionConsole sectionFile .x86 0 _ _ _ decode?_sectionFile hasLines_sectionFile
  have houtcome := congrArg (fun x => (Action.outcome x {}).1) hkept
  exact absurd houtcome (by decide +kernel)

end Assembler

end AssemblyConsole
