import AssemblyConsole.Shell
import Mathlib.Data.List.Forall2

/-!
Runs of the shell. Each line is of one of four classes, told in this order: it mentions help, it leaves, it is blank,
or it is encoded. A run goes on to the first line that leaves, and each line on the way has an answer of its own.
-/

namespace AssemblyConsole

def Advisory.targets? : Advisory → Option (List String)
  | .unresolved ts => some ts
  | .engine _ => none

namespace Shell

def MentionsHelp (s : String) : Prop := ∃ before after, s.toList = before ++ "help".toList ++ after

/-- The characters begin with the letters, each in one of its forms. -/
def BeginsWith (letters : List (List Char)) (cs : List Char) : Prop :=
  ∃ start rest, cs = start ++ rest ∧ List.Forall₂ (fun forms c => c ∈ forms) letters start

def quitForms : List (List Char) := [['q', 'Q'], ['u', 'U'], ['i', 'I', '\u0130', '\u0131'], ['t', 'T']]

def exitForms : List (List Char) := [['e', 'E'], ['x', 'X'], ['i', 'I', '\u0130', '\u0131'], ['t', 'T']]

def Leaves (s : String) : Prop :=
  ¬MentionsHelp s ∧ (BeginsWith quitForms s.toList ∨ BeginsWith exitForms s.toList)

/-- What stands between the semicolons, one piece below another. -/
def textOf (s : String) : String := String.ofList (['\n'].intercalate (s.toList.splitOn ';'))

/-- With the ends of its statements made ends of lines, the line is white space throughout. -/
def Blank (s : String) : Prop := ∀ c ∈ (textOf s).toList, Text.isBlank c = true

structure Encodes (s : String) : Prop where
  noHelp : ¬MentionsHelp s
  stays : ¬Leaves s
  notBlank : ¬Blank s

def Spells (letters : List (List Char)) (word : List Char) : Prop :=
  List.Forall₂ (fun forms l => ∀ c, c ∈ forms ↔ isLetter l c = true) letters word

theorem spells_quit : Spells quitForms "quit".toList ∧ Spells exitForms "exit".toList := by
  have plain (l : Char) (hl : l ≠ 'i') (c : Char) : c ∈ [l, l.toUpper] ↔ isLetter l c = true := by simp [isLetter, hl]
  have hi (c : Char) : c ∈ ['i', 'I', '\u0130', '\u0131'] ↔ isLetter 'i' c = true := by
    have hupper : 'i'.toUpper = 'I' := rfl
    simp [isLetter, hupper, or_assoc]
  constructor
  · exact .cons (plain 'q' (by decide)) (.cons (plain 'u' (by decide)) (.cons hi (.cons (plain 't' (by decide)) .nil)))
  · exact .cons (plain 'e' (by decide)) (.cons (plain 'x' (by decide)) (.cons hi (.cons (plain 't' (by decide)) .nil)))

theorem beginsInAnyCase_iff {letters : List (List Char)} {word : List Char} (h : Spells letters word)
    (cs : List Char) : beginsInAnyCase word cs = true ↔ BeginsWith letters cs := by
  induction h generalizing cs with
  | nil =>
    rw [beginsInAnyCase]
    exact iff_of_true rfl ⟨[], cs, rfl, .nil⟩
  | @cons forms l letters word hl _ ih =>
    cases cs with
    | nil =>
      constructor
      · simp [beginsInAnyCase]
      · rintro ⟨start, rest, hcs, hstart⟩
        obtain ⟨rfl, rfl⟩ := List.append_eq_nil_iff.mp hcs.symm
        simp at hstart
    | cons c cs =>
      rw [beginsInAnyCase, Bool.and_eq_true, ih, ← hl]
      constructor
      · rintro ⟨hc, start, rest, rfl, hstart⟩
        exact ⟨c :: start, rest, rfl, .cons hc hstart⟩
      · rintro ⟨_ | ⟨d, start⟩, rest, hcs, hstart⟩
        · simp at hstart
        · obtain ⟨rfl, rfl⟩ := List.cons.inj hcs
          obtain ⟨hc, hstart⟩ := List.forall₂_cons.mp hstart
          exact ⟨hc, start, rest, rfl, hstart⟩

theorem statementText_eq (cs : List Char) : statementText cs = ['\n'].intercalate (cs.splitOn ';') := by
  induction cs with
  | nil => rfl
  | cons c cs ih =>
    obtain ⟨piece, pieces, hsplit⟩ := List.exists_cons_of_ne_nil (List.splitOn_ne_nil ';' cs)
    rw [statementText, List.map_cons, ← statementText, ih, hsplit, List.splitOn, List.splitOnP_cons_eq_if_modifyHead,
      ← List.splitOn, hsplit]
    by_cases hc : c = ';'
    · simp [hc]
    · simp [hc]

theorem ofList_statementText (s : String) : String.ofList (statementText s.toList) = textOf s := by
  rw [statementText_eq, textOf]

theorem leaveWords_iff (cs : List Char) :
    leaveWords.any (beginsInAnyCase · cs) = true ↔ BeginsWith quitForms cs ∨ BeginsWith exitForms cs := by
  simp only [leaveWords, List.any_cons, List.any_nil, Bool.or_false, Bool.or_eq_true,
    beginsInAnyCase_iff spells_quit.1, beginsInAnyCase_iff spells_quit.2]

instance (s : String) : Decidable (MentionsHelp s) := decidable_of_iff _ (Text.occursIn_iff _ _)

instance (s : String) : Decidable (Leaves s) :=
  decidable_of_iff (¬MentionsHelp s ∧ leaveWords.any (beginsInAnyCase · s.toList) = true)
    (and_congr_right fun _ => leaveWords_iff s.toList)

instance (s : String) : Decidable (Blank s) := inferInstanceAs (Decidable (∀ c ∈ _, _))

theorem encodes_iff (s : String) : Encodes s ↔ ¬MentionsHelp s ∧ ¬Leaves s ∧ ¬Blank s :=
  ⟨fun h => ⟨h.noHelp, h.stays, h.notBlank⟩, fun ⟨hh, hl, hb⟩ => ⟨hh, hl, hb⟩⟩

instance (s : String) : Decidable (Encodes s) := decidable_of_iff' _ (encodes_iff s)

theorem ofLine_eq (s : String) : Command.ofLine s =
    if MentionsHelp s then .help else if Leaves s then .leave else if Blank s then .skip else .encode (textOf s) := by
  have hhelp : Text.occursIn "help".toList s.toList = true ↔ MentionsHelp s := Text.occursIn_iff _ _
  have hblank : Text.allBlank (statementText s.toList) = true ↔ Blank s := by
    rw [Blank, ← ofList_statementText, String.toList_ofList]
    exact List.all_eq_true
  unfold Command.ofLine
  by_cases hh : MentionsHelp s
  · rw [if_pos hh, if_pos (hhelp.mpr hh)]
  · rw [if_neg hh, if_neg (hhelp.not.mpr hh)]
    have hleaves : Leaves s ↔ leaveWords.any (beginsInAnyCase · s.toList) = true := by
      rw [leaveWords_iff, Leaves, and_iff_right hh]
    by_cases hl : Leaves s
    · rw [if_pos hl, if_pos (hleaves.mp hl)]
    · rw [if_neg hl, if_neg (hleaves.not.mp hl)]
      by_cases hb : Blank s
      · rw [if_pos hb, if_pos (hblank.mpr hb)]
      · rw [if_neg hb, if_neg (hblank.not.mpr hb), ofList_statementText]

/-- The lines that a run takes from those typed. -/
inductive Consumes : List String → List String → Prop
  | all {lines} (h : ∀ s ∈ lines, ¬Leaves s) : Consumes lines lines
  | left {before s after} (h : ∀ r ∈ before, ¬Leaves r) (hs : Leaves s) :
      Consumes (before ++ s :: after) (before ++ [s])

theorem Consumes.cons {s : String} {lines used : List String} (hs : ¬Leaves s) (h : Consumes lines used) :
    Consumes (s :: lines) (s :: used) := by
  cases h with
  | all h => exact .all (List.forall_mem_cons.mpr ⟨hs, h⟩)
  | @left before t after h ht => exact @Consumes.left (s :: before) t after (List.forall_mem_cons.mpr ⟨hs, h⟩) ht

variable {σ : Type} (encode : String → σ → Encoding × σ)

/-- The bytes between quotes, a backslash, an x and two digits for each of them. -/
def escaped (code : Bytes) : String :=
  "\"" ++ String.ofList (code.flatMap fun b =>
    ['\\', 'x', Nat.digitChar (b.toNat / 16), Nat.digitChar (b.toNat % 16)]) ++ "\""

/-- What is printed for a line, and the state after it. -/
inductive Answer : String → σ → String → σ → Prop
  | help {s state} (h : MentionsHelp s) : Answer s state (usage ++ "\n") state
  | leave {s state} (h : Leaves s) : Answer s state "" state
  | blank {s state} (hh : ¬MentionsHelp s) (hl : ¬Leaves s) (hb : Blank s) : Answer s state "" state
  | error {s state e advisories after} (h : Encodes s)
      (he : encode (textOf s) state = (⟨.error e, advisories⟩, after)) :
      Answer s state ("Error: " ++ e.kind ++ " " ++ e.message ++ "\n") after
  | bytes {s state code advisories after} (h : Encodes s)
      (he : encode (textOf s) state = (⟨.ok code, advisories⟩, after)) :
      Answer s state ("".intercalate ((advisories.filterMap Advisory.targets?).map fun ts =>
        "W: encoded string has unresolved relocations: " ++ ", ".intercalate ts ++ "\n") ++ escaped code ++ "\n") after

inductive Answers : List String → σ → List String → σ → Prop
  | nil {state} : Answers [] state [] state
  | cons {s rest state next after answer answers} (h : Answer encode s state answer next)
      (hrest : Answers rest next answers after) : Answers (s :: rest) state (answer :: answers) after

theorem literal_eq (code : Bytes) : literal code = escaped code := by
  simp only [literal, escaped, Text.hexPadded_byte]
  apply String.toList_inj.mp
  simp

theorem printed_ofEncoding (code : Bytes) (advisories : List Advisory) :
    (Response.ofEncoding ⟨.ok code, advisories⟩).printed =
      "".intercalate ((advisories.filterMap Advisory.targets?).map fun ts =>
        "W: encoded string has unresolved relocations: " ++ ", ".intercalate ts ++ "\n") ++ escaped code ++ "\n" := by
  have hline (ts : List String) : line s!"W: {(Advisory.unresolved ts).message}" =
      "W: encoded string has unresolved relocations: " ++ ", ".intercalate ts ++ "\n" :=
    congrArg line String.append_assoc.symm
  simp only [Response.ofEncoding, List.map_filterMap, literal_eq]
  rw [line, String.append_assoc]
  congr 3
  funext advisory
  cases advisory with
  | unresolved ts => exact congrArg some (hline ts)
  | engine m => rfl

theorem handle_answer (s : String) (state : σ) :
    Answer encode s state (handle encode s state).1.printed (handle encode s state).2 ∧
      (handle encode s state).1.continues = !decide (Leaves s) := by
  unfold handle
  rw [ofLine_eq]
  by_cases hh : MentionsHelp s
  · simp only [if_pos hh]
    exact ⟨.help hh, by simp [Leaves, hh]⟩
  · by_cases hl : Leaves s
    · simp only [if_neg hh, if_pos hl]
      exact ⟨.leave hl, by simp [hl]⟩
    · by_cases hb : Blank s
      · simp only [if_neg hh, if_neg hl, if_pos hb]
        exact ⟨.blank hh hl hb, by simp [hl]⟩
      · simp only [if_neg hh, if_neg hl, if_neg hb]
        have hs : Encodes s := ⟨hh, hl, hb⟩
        rcases he : encode (textOf s) state with ⟨⟨e | code, advisories⟩, after⟩
        · exact ⟨.error hs he, by simp [Response.ofEncoding, hl]⟩
        · refine ⟨?_, by simp [Response.ofEncoding, hl]⟩
          rw [printed_ofEncoding]
          exact .bytes hs he

/-- The encoder that also keeps the texts it is given, in order. -/
def recording (text : String) (state : σ × List String) : Encoding × (σ × List String) :=
  let (encoding, after) := encode text state.1
  (encoding, after, state.2 ++ [text])

def textsOf (used : List String) : List String := (used.filter fun s => decide (Encodes s)).map textOf

theorem textsOf_append (xs ys : List String) : textsOf (xs ++ ys) = textsOf xs ++ textsOf ys := by
  simp [textsOf]

theorem handle_recording (s : String) (state : σ) (texts : List String) :
    handle (recording encode) s (state, texts) =
      ((handle encode s state).1, (handle encode s state).2, texts ++ textsOf [s]) := by
  unfold handle
  rw [ofLine_eq]
  by_cases hs : Encodes s
  · simp [hs.noHelp, hs.stays, hs.notBlank, recording, textsOf, hs]
  · have htexts : textsOf [s] = [] := by simp [textsOf, hs]
    rw [htexts, List.append_nil]
    rw [encodes_iff] at hs
    by_cases hh : MentionsHelp s
    · simp [hh]
    · by_cases hl : Leaves s
      · simp [hh, hl]
      · have hb : Blank s := by simpa [hh, hl] using hs
        simp [hh, hl, hb]

/-- What the user sees of the lines used: a prompt for each, the answer to it, and one prompt more if the user does not
leave. -/
def dialogue (used answers : List String) : List Utterance :=
  answers.flatMap (fun answer => [.prompt, .printed answer]) ++ if ∃ s ∈ used, Leaves s then [] else [.prompt]

theorem converse_answers (lines : List String) (state : σ) : ∃ used answers, Consumes lines used ∧
    Answers encode used state answers (converse encode lines state).2 ∧
    (converse encode lines state).1 = dialogue used answers ∧
    ∀ texts, converse (recording encode) lines (state, texts) =
      ((converse encode lines state).1, (converse encode lines state).2, texts ++ textsOf used) := by
  induction lines generalizing state with
  | nil => exact ⟨[], [], .all (by simp), .nil, by simp [converse, dialogue], by simp [converse, textsOf]⟩
  | cons s rest ih =>
    obtain ⟨hanswer, hcontinues⟩ := handle_answer encode s state
    -- a line that leaves is the last one used, whatever else was typed
    by_cases hl : Leaves s
    · have hstop : (handle encode s state).1.continues = false := by simp [hcontinues, hl]
      refine ⟨[s], [(handle encode s state).1.printed], @Consumes.left [] s rest (by simp) hl, ?_, ?_, ?_⟩
      · simp only [converse, hstop]
        exact .cons hanswer .nil
      · simp [converse, hstop, dialogue, hl]
      · intro texts
        simp [converse, handle_recording, hstop]
    · have hgo : (handle encode s state).1.continues = true := by simp [hcontinues, hl]
      obtain ⟨used, answers, hused, hanswers, hseen, hrecord⟩ := ih (handle encode s state).2
      refine ⟨s :: used, (handle encode s state).1.printed :: answers, hused.cons hl, ?_, ?_, ?_⟩
      · simp only [converse, hgo, if_true]
        exact .cons hanswer hanswers
      · simp [converse, hgo, hseen, dialogue, hl]
      · intro texts
        rw [show s :: used = [s] ++ used from rfl, textsOf_append]
        simp [converse, handle_recording, hgo, hrecord]

/-- A run answers the lines up to the first that leaves, each in the state that those before it lead to, and gives the
encoder the texts of those that are to be encoded, and no others. -/
theorem run_answers (lines : List String) (state : σ) : ∃ used answers, Consumes lines used ∧
    Answers encode used state answers (run encode lines state).2 ∧
    (run encode lines state).1 = .printed (banner ++ "\n") :: dialogue used answers ++ [.printed "\n"] ∧
    ∀ texts, run (recording encode) lines (state, texts) =
      ((run encode lines state).1, (run encode lines state).2, texts ++ textsOf used) := by
  obtain ⟨used, answers, hused, hanswers, hseen, hrecord⟩ := converse_answers encode lines state
  refine ⟨used, answers, hused, hanswers, ?_, ?_⟩
  · rw [← hseen]
    rfl
  · intro texts
    rw [run, hrecord]
    rfl

/-- Knows one text, and counts the texts it is given. -/
def clerk (text : String) (count : Nat) : Encoding × Nat :=
  if text = "nop \n nop" then (⟨.ok [0x90, 0x0a], [.unresolved ["left", "right"]]⟩, count + 1)
  else (⟨.error (.refused ⟨"KsError", "Invalid mnemonic"⟩ none), []⟩, count + 1)

def sitting : List String := ["nop ; nop", " ; \u3000", "hlt", "EXIT? help", "Qu\u0131t now", "nop"]

theorem run_answers_sitting :
    (∃ used answers, Consumes sitting used ∧ Answers clerk used 0 answers 2 ∧ textsOf used = ["nop \n nop", "hlt"]) ∧
      (run clerk sitting 0).1 = [
        .printed "[+] asmshell assembly shell\ntype help for usage..\n\n",
        .prompt, .printed "W: encoded string has unresolved relocations: left, right\n\"\\x90\\x0a\"\n",
        .prompt, .printed "",
        .prompt, .printed "Error: KsError Invalid mnemonic\n",
        .prompt, .printed ("\nType in opcodes to see their binary form\nYou can use ';' to type multi-line stuff\n" ++
          "e.g. 'nop ; nop' will display \"\\x90\\x90\"\n\nexit/quit \t Quit the console.\n" ++
          "help \t\t Show this screen.\n"),
        .prompt, .printed "",
        .printed "\n"] := by
  have hrun : run (recording clerk) sitting (0, []) = ((run clerk sitting 0).1, 2, ["nop \n nop", "hlt"]) := by
    decide +kernel
  obtain ⟨used, answers, hused, hanswers, -, hrecord⟩ := run_answers clerk sitting 0
  have hgiven := (hrecord []).symm.trans hrun
  simp only [Prod.mk.injEq, List.nil_append] at hgiven
  obtain ⟨-, hcount, htexts⟩ := hgiven
  exact ⟨⟨used, answers, hused, hcount ▸ hanswers, htexts⟩, by decide +kernel⟩

end Shell

end AssemblyConsole
