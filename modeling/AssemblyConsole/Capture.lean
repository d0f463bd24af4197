import AssemblyConsole.Payload
import AssemblyConsole.Text.Utf8

/-!
Capturing what is written to a stream. A stream takes text, which it keeps until it is flushed or it sends some of it on
by itself, and bytes, which go straight to their destination. While a capture is on, the destination is a pipe; its end
is marked by a backspace byte, and what was captured is then written to the stream as text. Nobody reads the pipe before
its end is marked, so that a write for which it has no room does not return.
-/

namespace AssemblyConsole

structure Stream where
  /-- Text that is not sent on yet. -/
  waiting : Bytes := []
  /-- What has reached the stream's own destination. -/
  received : Bytes := []
  /-- The writes that have reached the pipe, while a capture is on. -/
  pipe : Option (List Bytes) := none
  /-- What the captures so far have brought in. -/
  captured : Bytes := []
deriving DecidableEq, Repr

/-- What may happen to a stream. How much of the waiting text it sends on by itself, and when, is its own affair: there
may be more than it keeps, or a line may have ended. -/
inductive Write
  | text (cs : List Char)
  | native (bs : Bytes)
  | flush
  | passed (count : Nat)
deriving DecidableEq, Repr

/-- The lengths of writes that a pipe holds while nobody reads it. It need not be their sum alone that counts, as a pipe
may leave parts of its pages empty. -/
structure Room where
  holds : List Nat → Bool
  empty : holds [] = true
  earlier : ∀ ns ms, holds (ns ++ ms) = true → holds ns = true

namespace Stream

def endMark : UInt8 := 8

/-- The most bytes that one reading of the pipe brings in. -/
def chunkSize : Nat := 4096

/-- The bytes before the end mark, from the pieces in which they are read. An empty piece is the end of the pipe. -/
def drain : List Bytes → Bytes
  | [] => []
  | chunk :: rest =>
    if chunk.isEmpty then []
    else if endMark ∈ chunk then chunk.takeWhile (· ≠ endMark)
    else chunk ++ drain rest

set_option linter.unusedVariables false in
/-- Cuts bytes into pieces of the size and a last one that is not longer. -/
def chunks (size : Nat) (bs : Bytes) : List Bytes :=
  if h : bs.length ≤ size ∨ size = 0 then [bs] else bs.take size :: chunks size (bs.drop size)
termination_by bs.length
decreasing_by
  simp only [List.length_drop]
  omega

def writeBytes (s : Stream) (bs : Bytes) : Stream :=
  match s.pipe with
  | some ws => { s with pipe := some (ws ++ [bs]) }
  | none => { s with received := s.received ++ bs }

def writeText (s : Stream) (cs : List Char) : Stream := { s with waiting := s.waiting ++ Text.Utf8.encode cs }

def flush (s : Stream) : Stream := { s.writeBytes s.waiting with waiting := [] }

/-- Sends on the first of the bytes that wait, in one write. -/
def pass (s : Stream) (count : Nat) : Stream :=
  { s.writeBytes (s.waiting.take count) with waiting := s.waiting.drop count }

def write (s : Stream) : Write → Stream
  | .text cs => s.writeText cs
  | .native bs => s.writeBytes bs
  | .flush => s.flush
  | .passed count => s.pass count

def capturedText (s : Stream) : List Char := Text.Utf8.decode s.captured

/-- Takes in what the readings of the pipe bring. -/
def drainPipe (s : Stream) (readings : List Bytes) : Stream := { s with captured := s.captured ++ drain readings }

def start (s : Stream) : Stream := { s.flush with pipe := some [] }

def mark (s : Stream) : Stream := { s with waiting := s.waiting ++ [endMark] }.flush

/-- Empties the pipe, takes it away, and passes on what was captured. -/
def replay (s : Stream) : Stream :=
  let t := { s.drainPipe (chunks chunkSize (s.pipe.getD []).flatten) with pipe := none }
  (t.writeText t.capturedText).flush

/-- Ends the capture, if one is on, and passes on what it captured. -/
def stop (s : Stream) : Stream := if s.pipe.isNone then s else s.mark.replay

/-- Whether the writes to the pipe, if there is one, have all returned. -/
def fits (room : Room) (s : Stream) : Bool := s.pipe.all fun ws => room.holds (ws.map List.length)

/-- None if the write waits for room in the pipe, where nobody makes any. -/
def write? (room : Room) (s : Stream) (w : Write) : Option Stream := Option.guard (fits room) (s.write w)

def stop? (room : Room) (s : Stream) : Option Stream :=
  if s.pipe.isNone then some s else (Option.guard (fits room) s.mark).map replay

/-- A stream at the end of one capture, with what was written before, during and after it. -/
def captureRun (room : Room) (before during after : List Write) : Option Stream := do
  let s ← before.foldlM (write? room) {}
  let s ← during.foldlM (write? room) s.start
  let s ← s.stop? room
  let s ← after.foldlM (write? room) s
  return s.flush

/-- What a capture makes of bytes written while it is on, if the pipe has room for them: the text captured, and the
bytes passed on. -/
def watch (printed : Bytes) : List Char × Bytes :=
  let s := ((({} : Stream).start).writeBytes printed).stop
  (s.capturedText, s.received)

theorem takeWhile_append_of_mem {bs : Bytes} (h : endMark ∈ bs) (cs : Bytes) :
    (bs ++ cs).takeWhile (· ≠ endMark) = bs.takeWhile (· ≠ endMark) := by
  induction bs with
  | nil => simp at h
  | cons b bs ih =>
    by_cases hb : b = endMark
    · simp [hb]
    · have hmem : endMark ∈ bs := (List.mem_cons.mp h).resolve_left fun he => hb he.symm
      simpa [hb] using ih hmem

theorem takeWhile_append_of_notMem {bs : Bytes} (h : endMark ∉ bs) (cs : Bytes) :
    (bs ++ cs).takeWhile (· ≠ endMark) = bs ++ cs.takeWhile (· ≠ endMark) := by
  apply List.takeWhile_append_of_pos
  intro b hb
  simpa using fun he : b = endMark => h (he ▸ hb)

/-- The bytes before the first end mark are drained, however they are cut into pieces. -/
theorem drain_eq_takeWhile {css : List Bytes} (h : [] ∉ css) : drain css = css.flatten.takeWhile (· ≠ endMark) := by
  induction css with
  | nil => rfl
  | cons c css ih =>
    have hc : ¬c.isEmpty = true := by
      rw [List.isEmpty_iff]
      exact fun he => h (he ▸ List.mem_cons_self)
    rw [drain, if_neg hc, List.flatten_cons, ih fun hmem => h (List.mem_cons_of_mem c hmem)]
    split
    · rename_i hmem
      rw [takeWhile_append_of_mem hmem]
    · rename_i hmem
      rw [takeWhile_append_of_notMem hmem]

theorem flatten_chunks (size : Nat) (bs : Bytes) : (chunks size bs).flatten = bs := by
  fun_induction chunks size bs with
  | case1 => simp
  | case2 bs h ih => rw [List.flatten_cons, ih, List.take_append_drop]

theorem nil_notMem_chunks (size : Nat) {bs : Bytes} (hne : bs ≠ []) : [] ∉ chunks size bs := by
  fun_induction chunks size bs with
  | case1 => simpa using hne.symm
  | case2 bs h ih =>
    have hlong : size < bs.length ∧ size ≠ 0 := by omega
    rw [List.mem_cons, not_or]
    refine ⟨?_, ih ?_⟩
    · intro htake
      rw [eq_comm, List.take_eq_nil_iff] at htake
      exact htake.elim hlong.2 hne
    · rw [ne_eq, List.drop_eq_nil_iff]
      omega

end Stream

end AssemblyConsole
