import AssemblyConsole.Graph.Listing
import AssemblyConsole.Proofs.CrossReferences

/-!
The two listings of a graph are one list of labels and instructions, written in two ways. A label stands in front of
each block that an instruction of the graph names, except the one at the entry, and of no other.
-/

namespace AssemblyConsole

open AssemblyConsole.Action Buffer Progress

/-- What a line of a listing is about: an address that is referred to from others, or an instruction. -/
inductive Item
  | label (address : Int) (sources : List Int)
  | instruction (i : Instruction)
deriving DecidableEq, Repr

namespace Item

def text : Item → String
  | label a _ => s!"loc_{Text.hexSigned a}:"
  | instruction i => i.text

/-- The two digits of each byte, in a column of twenty characters. -/
def rawColumn (raw : Bytes) : String :=
  String.ofList ((raw.flatMap fun b => [Nat.digitChar (b.toNat / 16), Nat.digitChar (b.toNat % 16)]).rightpad 20 ' ')

def dumpLine : Item → String
  | label a sources => s!"loc_{Text.hexSigned a}:" ++ "  ; xrefs: " ++ ", ".intercalate (sources.map Text.hexMarked)
  | instruction i => Text.hexColumn i.address ++ "  " ++ rawColumn i.raw ++ "  " ++ i.text

def labelled? : Item → Option Int
  | label a _ => some a
  | instruction _ => none

def instruction? : Item → Option Instruction
  | label .. => none
  | instruction i => some i

end Item

theorem Text.toList_pushn (s : String) (c : Char) (n : Nat) :
    (s.pushn c n).toList = s.toList ++ List.replicate n c := by
  induction n with
  | zero => simp [String.pushn_eq_repeat_push, Nat.repeat]
  | succ n ih =>
    rw [String.pushn_eq_repeat_push, Nat.repeat, ← String.pushn_eq_repeat_push, String.toList_push, ih,
      List.replicate_succ', List.append_assoc]

theorem Item.dumpLine_instruction (i : Instruction) : (Item.instruction i).dumpLine = i.dumpLine := by
  have hbytes : Text.hexBytes i.raw =
      String.ofList (i.raw.flatMap fun b => [Nat.digitChar (b.toNat / 16), Nat.digitChar (b.toNat % 16)]) := by
    simp only [Text.hexBytes, Text.hexPadded_byte]
  have hcolumn : Item.rawColumn i.raw = (Text.hexBytes i.raw).pushn ' ' (20 - (Text.hexBytes i.raw).length) := by
    rw [hbytes, rawColumn, List.rightpad]
    apply String.toList_inj.mp
    simp [Text.toList_pushn]
  rw [dumpLine, hcolumn]
  rfl

/-- Joining groups of lines and then joining what results is joining all the lines, if no group is empty. -/
theorem intercalate_map_intercalate {s : String} {groups : List (List String)} (h : ∀ lines ∈ groups, lines ≠ []) :
    s.intercalate (groups.map s.intercalate) = s.intercalate groups.flatten := by
  induction groups with
  | nil => rfl
  | cons lines groups ih =>
    obtain ⟨hlines, hgroups⟩ := List.forall_mem_cons.mp h
    cases groups with
    | nil => simp
    | cons more groups =>
      have hmore : (more :: groups).flatten ≠ [] := by simp [hgroups more List.mem_cons_self]
      rw [List.map_cons, String.intercalate_cons_of_ne_nil (by simp), ih hgroups, List.flatten_cons (l := lines),
        String.intercalate_append_of_ne_nil hlines hmore]

theorem flatMap_eq_split {α β : Type} {f : α → List β} {xs : List α} {before after : List β} {y : β}
    (h : xs.flatMap f = before ++ y :: after) : ∃ x ∈ xs, ∃ us vs rest, f x = us ++ y :: vs ∧ after = vs ++ rest := by
  induction xs generalizing before with
  | nil => simp at h
  | cons x xs ih =>
    rw [List.flatMap_cons] at h
    rcases List.append_eq_append_iff.mp h with ⟨us, hbefore, hrest⟩ | ⟨us, hx, hafter⟩
    · obtain ⟨z, hz, hsplit⟩ := ih hrest
      exact ⟨z, List.mem_cons_of_mem _ hz, hsplit⟩
    · cases us with
      | nil =>
        have hrest : xs.flatMap f = [] ++ y :: after := hafter.symm
        obtain ⟨z, hz, hsplit⟩ := ih hrest
        exact ⟨z, List.mem_cons_of_mem _ hz, hsplit⟩
      | cons u us =>
        obtain ⟨rfl, rfl⟩ := List.cons.inj hafter
        exact ⟨x, List.mem_cons_self, before, us, _, hx, rfl⟩

namespace Graph

variable {g : Graph} {k : Block} {c : Int}

def itemsOf (g : Graph) (k : Block) : List Item :=
  (if g.needsLabel k then [.label k.address (g.sources k.address)] else []) ++ k.instructions.map .instruction

def items (g : Graph) : List Item := g.sorted.flatMap g.itemsOf

theorem dump_eq_items (g : Graph) : g.dump = "\n".intercalate (g.items.map Item.dumpLine) := by
  rw [dump, items, List.map_flatMap]
  congr 2
  funext k
  have hinstructions : k.instructions.map (Item.dumpLine ∘ .instruction) = k.instructions.map (·.dumpLine) :=
    List.map_congr_left fun i _ => Item.dumpLine_instruction i
  rw [itemsOf, List.map_append, List.map_map, hinstructions]
  congr 1
  split <;> rfl

/-- The lines that the text has for a block; those of its instructions are joined before the others. -/
def linesOf (g : Graph) (k : Block) : List (List String) :=
  (if g.needsLabel k then [[label k]] else []) ++ [k.instructions.map (·.text)]

theorem flatten_linesOf (g : Graph) (k : Block) : (g.linesOf k).flatten = (g.itemsOf k).map Item.text := by
  rw [linesOf, itemsOf, List.flatten_append, List.map_append, List.map_map]
  congr 1
  · split <;> rfl
  · exact List.append_nil _

theorem text_eq_linesOf (g : Graph) :
    g.text = "\n".intercalate ((g.sorted.flatMap g.linesOf).map ("\n".intercalate ·)) := by
  rw [text, List.map_flatMap]
  congr 2
  funext k
  rw [linesOf, List.map_append]
  congr 1
  split
  · rw [List.map_singleton, String.intercalate_singleton]
  · rfl

theorem nonempty_linesOf (hk : k.instructions ≠ []) : ∀ lines ∈ g.linesOf k, lines ≠ [] := by
  intro lines hlines
  rcases List.mem_append.mp hlines with hlabel | hblock
  · split at hlabel
    · simp [List.mem_singleton.mp hlabel]
    · simp at hlabel
  · simp [List.mem_singleton.mp hblock, hk]

/-- A block without instructions would be an empty line of the text, and no line of the dump. -/
theorem text_eq_items (h : ∀ k ∈ g.blocks, k.instructions ≠ []) :
    g.text = "\n".intercalate (g.items.map Item.text) := by
  have hnonempty : ∀ lines ∈ g.sorted.flatMap g.linesOf, lines ≠ [] := by
    intro lines hmem
    obtain ⟨k, hk, hlines⟩ := List.mem_flatMap.mp hmem
    exact nonempty_linesOf (h k (List.mem_mergeSort.mp hk)) lines hlines
  have hflatten : (g.sorted.flatMap g.linesOf).flatten = g.items.map Item.text := by
    rw [items, List.map_flatMap, ← List.flatMap_id, List.flatMap_assoc]
    congr 1
    funext k
    rw [List.flatMap_id, flatten_linesOf]
  rw [text_eq_linesOf, intercalate_map_intercalate hnonempty, hflatten]

theorem labels_itemsOf (g : Graph) (k : Block) :
    (g.itemsOf k).filterMap Item.labelled? = if g.needsLabel k then [k.address] else [] := by
  have hnone : (k.instructions.map Item.instruction).filterMap Item.labelled? = [] := by
    rw [List.filterMap_map]
    exact List.filterMap_eq_nil_iff.mpr fun _ _ => rfl
  rw [itemsOf, List.filterMap_append, hnone, List.append_nil]
  split <;> rfl

theorem instructions_items (g : Graph) : g.items.filterMap Item.instruction? = g.instructions := by
  rw [items, List.filterMap_flatMap, instructions]
  congr 1
  funext k
  have hall : (k.instructions.map Item.instruction).filterMap Item.instruction? = k.instructions := by
    rw [List.filterMap_map]
    exact List.filterMap_some
  rw [itemsOf, List.filterMap_append, hall]
  split <;> rfl

theorem mem_labels (g : Graph) (c : Int) :
    c ∈ g.items.filterMap Item.labelled? ↔ ∃ k ∈ g.blocks, k.address = c ∧ g.needsLabel k = true := by
  simp only [items, List.filterMap_flatMap, List.mem_flatMap, labels_itemsOf, sorted, List.mem_mergeSort]
  apply exists_congr
  intro k
  apply and_congr_right
  intro _
  split
  · rename_i h
    simp only [List.mem_singleton, h, and_true]
    exact eq_comm
  · rename_i h
    simp [h]

theorem labels_ascending (hn : g.starts.Nodup) : (g.items.filterMap Item.labelled?).Pairwise (· < ·) := by
  have address {k : Block} {c : Int} (h : c ∈ (g.itemsOf k).filterMap Item.labelled?) : c = k.address := by
    rw [labels_itemsOf] at h
    split at h
    · exact List.mem_singleton.mp h
    · simp at h
  rw [items, List.filterMap_flatMap, List.pairwise_flatMap]
  constructor
  · intro k _
    rw [labels_itemsOf]
    split
    · exact List.pairwise_singleton _ _
    · exact .nil
  · apply (sorted_ascending hn).imp
    intro k l hlt c hc e he
    rw [address hc, address he]
    exact hlt

/-- Behind a label stand the instructions of the block there. -/
theorem items_label {sources : List Int} {before after : List Item}
    (h : g.items = before ++ .label c sources :: after) :
    ∃ k ∈ g.blocks, k.address = c ∧ sources = g.sources c ∧
      ∃ rest, after = k.instructions.map .instruction ++ rest := by
  obtain ⟨k, hk, us, vs, rest, hitems, hafter⟩ := flatMap_eq_split h
  have hk := List.mem_mergeSort.mp hk
  have hnotMem : Item.label c sources ∉ k.instructions.map Item.instruction := by simp
  have hmem : Item.label c sources ∈ us ++ .label c sources :: vs := by simp
  -- no instruction is a label, so the label is what stands first among the items of its block
  rw [itemsOf] at hitems
  split at hitems
  · cases us with
    | nil =>
      obtain ⟨hlabel, rfl⟩ := List.cons.inj hitems
      obtain ⟨rfl, rfl⟩ := Item.label.inj hlabel
      exact ⟨k, hk, rfl, rfl, rest, hafter⟩
    | cons u us =>
      have hinstructions : k.instructions.map Item.instruction = us ++ .label c sources :: vs :=
        (List.cons.inj hitems).2
      exact absurd (by simp [hinstructions]) hnotMem
  · rw [List.nil_append] at hitems
    exact absurd (hitems ▸ hmem) hnotMem

/-- The listings of a graph agree, and they have a label at every address of the buffer that an instruction of the graph
names, except the entry. -/
structure Listed (code : Int → Option Decoded) (b : Buffer) (entry : Int) (g : Graph) : Prop where
  text : g.text = "\n".intercalate (g.items.map Item.text)
  dump : g.dump = "\n".intercalate (g.items.map Item.dumpLine)
  instructions : g.items.filterMap Item.instruction? = g.instructions
  ascending : (g.items.filterMap Item.labelled?).Pairwise (· < ·)
  labelled : ∀ c, c ∈ g.items.filterMap Item.labelled? ↔
    c ≠ entry ∧ b.Holds c ∧ ∃ source, g.Names code source c
  sources : ∀ before c sources after, g.items = before ++ .label c sources :: after →
    sources.Pairwise (· < ·) ∧ ∀ source, source ∈ sources ↔ g.Names code source c
  placed : ∀ before c sources after, g.items = before ++ .label c sources :: after →
    ∃ k i is rest, g.block? c = some k ∧ k.instructions = i :: is ∧ i.address = c ∧
      after = k.instructions.map .instruction ++ rest

end Graph

variable {code : Int → Option Decoded} {b : Buffer} {entry : Int} {g : Graph}

theorem runs_entry {arch : Architecture} {p : Progress b} (hc : b.Carries code) (he : b.Holds entry)
    (h : Runs arch (Swept code) (start b entry he) p) : p.graph.entry = entry := by
  induction h with
  | refl => rfl
  | tail hr hs ih =>
    obtain ⟨new, hx⟩ := hs.extends hc (runs_tracks hc he hr).coherent.nodup
    exact hx.entry.trans ih

theorem Graph.block?_of_mem (hn : g.starts.Nodup) {k : Block} (hk : k ∈ g.blocks) : g.block? k.address = some k := by
  obtain ⟨l, hl, haddress⟩ := block?_of_mem_starts ((g.mem_starts _).mpr ⟨k, hk, rfl⟩)
  rw [hl, Graph.eq_of_address hn (List.mem_of_find?_eq_some hl) hk haddress]

theorem needsLabel_iff (hg : Tracks code entry (b := b) ⟨[], g⟩) (hentry : g.entry = entry) (k : Block) :
    g.needsLabel k = true ↔ k.address ≠ entry ∧ ∃ source, g.Names code source k.address := by
  have hsources : g.sources k.address ≠ [] ↔ ∃ source, g.Names code source k.address := by
    simp only [← hg.mem_sources_iff_names]
    exact ⟨List.exists_mem_of_ne_nil _, fun ⟨_, hsource⟩ => List.ne_nil_of_mem hsource⟩
  rw [← hsources, ← hentry]
  simp [Graph.needsLabel]

theorem listed_of_tracks (hc : b.Carries code) (hg : Tracks code entry (b := b) ⟨[], g⟩) (hentry : g.entry = entry)
    (hn : g.references.Nodup) : g.Listed code b entry where
  text := by
    apply Graph.text_eq_items
    intro k hk
    obtain ⟨run, last, hk⟩ := hg.coherent.shaped k hk
    obtain ⟨i, is, his, -⟩ := hk.begins hc
    simp [his]
  dump := g.dump_eq_items
  instructions := g.instructions_items
  ascending := Graph.labels_ascending hg.coherent.nodup
  labelled c := by
    rw [Graph.mem_labels]
    constructor
    · rintro ⟨k, hk, rfl, hlabel⟩
      obtain ⟨hne, hnamed⟩ := (needsLabel_iff hg hentry k).mp hlabel
      obtain ⟨d, hd, haddress⟩ := hg.coherent.begins hc ((g.mem_starts _).mpr ⟨k, hk, rfl⟩)
      exact ⟨hne, haddress ▸ hc.holds hd.1, hnamed⟩
    · rintro ⟨hne, hh, source, hnames⟩
      obtain ⟨d, hd, ht, rfl⟩ := hnames
      have hstart : c ∈ g.starts := mem_starts_of_knows (hg.targets d hd c ht hh)
      obtain ⟨k, hk, rfl⟩ := (g.mem_starts c).mp hstart
      exact ⟨k, hk, rfl, (needsLabel_iff hg hentry k).mpr ⟨hne, _, d, hd, ht, rfl⟩⟩
  sources before c sources after h := by
    obtain ⟨k, -, -, rfl, -⟩ := Graph.items_label h
    exact ⟨Graph.sources_ascending hn c, hg.mem_sources_iff_names c⟩
  placed before c sources after h := by
    obtain ⟨k, hk, rfl, -, rest, hafter⟩ := Graph.items_label h
    obtain ⟨run, last, hconsists⟩ := hg.coherent.shaped k hk
    obtain ⟨i, is, his, haddress⟩ := hconsists.begins hc
    exact ⟨k, i, is, rest, Graph.block?_of_mem hg.coherent.nodup hk, his, haddress, hafter⟩

theorem listed_of_no_bytes (hb : b.data = []) (hg : g.blocks = []) : g.Listed code b entry := by
  have hitems : g.items = [] := by simp [Graph.items, Graph.sorted, hg]
  have hholds := Buffer.not_holds_of_no_bytes hb
  constructor
  · exact Graph.text_eq_items (by simp [hg])
  · exact g.dump_eq_items
  · exact g.instructions_items
  · simp [hitems]
  · simp [hitems, hholds]
  · simp [hitems]
  · simp [hitems]

namespace Disassembler

variable {env : Environment} {a : Architecture} {find : InstructionAt}

theorem graph_listed (h : Local env a find) {s : Session} (hs : s.Sound env)
    (hg : ((graph env a b entry).outcome s).1 = .ok g) : g.Listed (b.decodedAt find a.set) b entry := by
  have hc := b.carries_decodedAt a.set h.fits
  rcases h.graph_runs hs hg with ⟨hb, hnone⟩ | ⟨he, hr⟩
  · exact listed_of_no_bytes hb hnone
  · exact listed_of_tracks hc (runs_tracks hc he hr) (runs_entry hc he hr) (runs_nodup_references he hr)

theorem graph_listed_skipEither : ∃ g : Graph,
    Local shortJumpEnvironment ⟨.x86, .bits32, .little, .ordinary⟩ shortJumps ∧
      Session.Sound shortJumpEnvironment {} ∧
      ((graph shortJumpEnvironment ⟨.x86, .bits32, .little, .ordinary⟩ skipEither 0x1000).outcome {}).1 = .ok g ∧
      g.Listed (skipEither.decodedAt shortJumps .x86) skipEither 0x1000 ∧
      g.items = [
        .instruction ⟨0x1000, 2, "je", "0x1004", [0x74, 0x02]⟩,
        .instruction ⟨0x1002, 2, "je", "0x1005", [0x74, 0x01]⟩,
        .label 0x1004 [0x1000],
        .instruction ⟨0x1004, 1, "nop", "", [0x90]⟩,
        .label 0x1005 [0x1002],
        .instruction ⟨0x1005, 1, "ret", "", [0xc3]⟩] ∧
      g.text = "je 0x1004\nje 0x1005\nloc_1004:\nnop\nloc_1005:\nret" ∧
      g.dump =
        "0x00001000  7402                  je 0x1004\n0x00001002  7401                  je 0x1005\n" ++
        "loc_1004:  ; xrefs: 0x1000\n0x00001004  90                    nop\n" ++
        "loc_1005:  ; xrefs: 0x1002\n0x00001005  c3                    ret" := by
  have hs := Session.sound_empty shortJumpEnvironment
  have h := graph_listed local_shortJumps hs outcome_skipEither
  refine ⟨_, local_shortJumps, hs, outcome_skipEither, h, by cbv, ?_, ?_⟩
  · rw [h.text]
    cbv
  · rw [h.dump]
    cbv

end Disassembler

end AssemblyConsole
