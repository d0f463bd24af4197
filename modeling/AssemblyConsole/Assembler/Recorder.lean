import AssemblyConsole.Engine.Basic
import AssemblyConsole.Text.Utf8

/-!
Answering the assembler's questions for symbols, and keeping account of them.
-/

namespace AssemblyConsole

/-- Values for some symbols, and the symbols asked for so far, each once, in the order of their first asking. -/
structure Recorder where
  values : List (String × Int) := []
  symbols : List String := []
deriving DecidableEq, Repr

namespace Recorder

def word (v : Int) : UInt64 := UInt64.ofNat (v % 0x10000000000000000).toNat

def nameOf (symbol : Bytes) : String := String.ofList (Text.Utf8.decode symbol)

/-- A symbol without a value of its own is at the placeholder address. -/
def valueOf (r : Recorder) (name : String) : UInt64 :=
  word ((r.values.lookup name).getD Relocation.placeholderAddress)

def note (r : Recorder) (name : String) : Recorder :=
  if name ∈ r.symbols then r else { r with symbols := r.symbols ++ [name] }

def answer (r : Recorder) (symbol : Bytes) : UInt64 × Recorder :=
  (r.valueOf (nameOf symbol), r.note (nameOf symbol))

theorem mem_symbols_note (r : Recorder) (n m : String) : m ∈ (r.note n).symbols ↔ m ∈ r.symbols ∨ m = n := by
  unfold note
  split
  · rename_i h
    constructor
    · exact Or.inl
    · rintro (hm | rfl)
      · exact hm
      · exact h
  · simp

theorem nodup_symbols_note {r : Recorder} (h : r.symbols.Nodup) (n : String) : (r.note n).symbols.Nodup := by
  unfold note
  split
  · exact h
  · rename_i hn
    simp only [List.nodup_append, h, List.nodup_cons, List.not_mem_nil, not_false_eq_true, List.nodup_nil, and_self,
      List.mem_singleton, ne_eq, true_and]
    rintro a ha b rfl rfl
    exact hn ha

end Recorder

namespace Dialogue

def answer : Dialogue → Recorder → Recorder × Reply
  | .ask symbol resume, r => (resume (r.answer symbol).1).answer (r.answer symbol).2
  | .reply x, r => (r, x)

theorem nodup_symbols_answer (d : Dialogue) {r : Recorder} (h : r.symbols.Nodup) :
    (d.answer r).1.symbols.Nodup := by
  induction d generalizing r with
  | ask symbol resume ih => exact ih (r.answer symbol).1 (Recorder.nodup_symbols_note h _)
  | reply x => exact h

end Dialogue

end AssemblyConsole
