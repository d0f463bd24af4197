import AssemblyConsole.Codec
import AssemblyConsole.Engine.Transcript
import AssemblyConsole.Proofs.Agreement

/-!
What a codec answers depends on the target it works for and not on what it did before, nor on the error stream.
-/

namespace AssemblyConsole

open AssemblyConsole.Action

inductive Request
  | choose (choice : Choice)
  | encode (text : String)
  | payload (text : String)
  | graph (data : Bytes) (base : Int) (entry : Option Int)
  | decode (data : Bytes) (base : Int) (entry : Option Int)

inductive Answer
  | chosen (outcome : Except ChoiceError Architecture)
  | encoded (encoding : Encoding)
  | payload (outcome : Except EncodeError Payload)
  | graph (outcome : Except DecodeError Graph)
  | decoded (outcome : Except DecodeError String)

def Request.chosen? : Request → Option Architecture
  | .choose choice => choice.resolve.toOption
  | _ => none

/-- The architecture chosen last, or else the one that there was at the beginning. -/
def latestChoice (initial : Architecture) (past : List Request) : Architecture :=
  (past.filterMap (·.chosen?)).getLast?.getD initial

theorem latestChoice_cons (initial : Architecture) (r : Request) (past : List Request) :
    latestChoice initial (r :: past) = latestChoice (r.chosen?.getD initial) past := by
  unfold latestChoice
  cases h : r.chosen? with
  | none => simp [h]
  | some a => simp [h, List.getLast?_cons]

namespace Codec

def serve (env : Environment) (c : Codec) : Request → Answer × Codec
  | .choose choice =>
    let (outcome, d) := c.choose choice
    (.chosen outcome, d)
  | .encode text =>
    let (encoding, d) := c.encode env text
    (.encoded encoding, d)
  | .payload text =>
    let (outcome, d) := c.payload env text
    (.payload outcome, d)
  | .graph data base entry =>
    let (outcome, d) := c.graph env data base entry
    (.graph outcome, d)
  | .decode data base entry =>
    let (outcome, d) := c.decode env data base entry
    (.decoded outcome, d)

def answers (env : Environment) : Codec → List Request → List Answer
  | _, [] => []
  | c, r :: rs => (c.serve env r).1 :: answers env (c.serve env r).2 rs

variable {env : Environment} {v : Bool} {ε α : Type} {c d : Codec}

/-- Two codecs with the same target in sessions that are sound. -/
structure Alike (env : Environment) (c d : Codec) : Prop where
  target : c.target = d.target
  left : c.session.Sound env
  right : d.session.Sound env

theorem perform_alike (h : Alike env c d) {x y : Action Session ε α} (hxy : Agrees env x y) :
    (c.perform x).1 = (d.perform y).1 ∧ Alike env (c.perform x).2 (d.perform y).2 ∧
      (c.perform x).2.session.warnings.drop c.session.warnings.length =
        (d.perform y).2.session.warnings.drop d.session.warnings.length := by
  obtain ⟨heq, hs, ht, w, hw, hw'⟩ := hxy c.session d.session h.left h.right
  refine ⟨heq, ⟨h.target, hs, ht⟩, ?_⟩
  change (x.outcome c.session).2.warnings.drop _ = (y.outcome d.session).2.warnings.drop _
  rw [hw, hw', List.drop_left, List.drop_left]

theorem choose_alike (h : Alike env c d) (choice : Choice) :
    (c.choose choice).1 = (d.choose choice).1 ∧ Alike env (c.choose choice).2 (d.choose choice).2 ∧
      (c.choose choice).2.target = ⟨choice.resolve.toOption.getD c.target.architecture⟩ := by
  unfold Codec.choose Target.choose
  cases choice.resolve with
  | ok a => exact ⟨rfl, ⟨rfl, h.left, h.right⟩, rfl⟩
  | error e => exact ⟨rfl, ⟨h.target, h.left, h.right⟩, rfl⟩

theorem payload_alike (ha : env.assembler.Steady) (h : Alike env c d) (text : String) :
    (c.payload env text).1 = (d.payload (env.withStream v) text).1 ∧
      Alike env (c.payload env text).2 (d.payload (env.withStream v) text).2 ∧
      (c.payload env text).2.session.warnings.drop c.session.warnings.length =
        (d.payload (env.withStream v) text).2.session.warnings.drop d.session.warnings.length := by
  apply perform_alike h
  rw [h.target]
  exact Assembler.assemble_agrees ha _

theorem encode_alike (ha : env.assembler.Steady) (h : Alike env c d) (text : String) :
    (c.encode env text).1 = (d.encode (env.withStream v) text).1 ∧
      Alike env (c.encode env text).2 (d.encode (env.withStream v) text).2 := by
  obtain ⟨heq, halike, hraised⟩ := payload_alike (v := v) ha h text
  unfold Codec.encode
  simp only [heq, hraised]
  cases (d.payload (env.withStream v) text).1 with
  | ok p => exact ⟨rfl, halike⟩
  | error e => exact ⟨rfl, halike⟩

theorem graph_alike (hd : env.disassembler.Steady) (h : Alike env c d) (data : Bytes) (base : Int)
    (entry : Option Int) :
    (c.graph env data base entry).1 = (d.graph (env.withStream v) data base entry).1 ∧
      Alike env (c.graph env data base entry).2 (d.graph (env.withStream v) data base entry).2 := by
  have hagrees : Agrees env (Disassembler.graph env c.target.architecture ⟨base, data⟩ (entry.getD base))
      (Disassembler.graph (env.withStream v) d.target.architecture ⟨base, data⟩ (entry.getD base)) := by
    rw [h.target]
    exact Disassembler.graph_agrees hd _ _ _
  obtain ⟨heq, halike, -⟩ := perform_alike h hagrees
  exact ⟨heq, halike⟩

section Steady

variable (ha : env.assembler.Steady) (hd : env.disassembler.Steady)
include ha hd

/-- One request: codecs with the same target answer it alike and have the same target afterwards. -/
theorem serve_alike (h : Alike env c d) (r : Request) :
    (c.serve env r).1 = (d.serve (env.withStream v) r).1 ∧
      Alike env (c.serve env r).2 (d.serve (env.withStream v) r).2 ∧
      (c.serve env r).2.target = ⟨r.chosen?.getD c.target.architecture⟩ := by
  cases r with
  | choose choice =>
    obtain ⟨heq, halike, ht⟩ := choose_alike h choice
    exact ⟨congrArg Answer.chosen heq, halike, ht⟩
  | encode text =>
    obtain ⟨heq, halike⟩ := encode_alike (v := v) ha h text
    refine ⟨congrArg Answer.encoded heq, halike, ?_⟩
    simp only [serve, encode]
    cases (c.payload env text).1 <;> rfl
  | payload text =>
    obtain ⟨heq, halike, -⟩ := payload_alike (v := v) ha h text
    exact ⟨congrArg Answer.payload heq, halike, rfl⟩
  | graph data base entry =>
    obtain ⟨heq, halike⟩ := graph_alike (v := v) hd h data base entry
    exact ⟨congrArg Answer.graph heq, halike, rfl⟩
  | decode data base entry =>
    obtain ⟨heq, halike⟩ := graph_alike (v := v) hd h data base entry
    refine ⟨?_, halike, rfl⟩
    simp only [serve, decode, heq]

theorem answers_alike (h : Alike env c d) (rs : List Request) :
    c.answers env rs = d.answers (env.withStream v) rs := by
  induction rs generalizing c d with
  | nil => rfl
  | cons r rs ih =>
    obtain ⟨heq, halike, -⟩ := serve_alike (v := v) ha hd h r
    rw [answers, answers, heq, ih halike]

theorem answers_eq_mapIdx (hc : c.session.Sound env) (rs : List Request) :
    c.answers env rs = rs.mapIdx fun i r =>
      (({ target := ⟨latestChoice c.target.architecture (rs.take i)⟩ } : Codec).serve env r).1 := by
  induction rs generalizing c with
  | nil => rfl
  | cons r rs ih =>
    -- the codec is compared with a new one, and the rest of the run starts from the target it has then
    have hnew : Alike env c { target := c.target } := ⟨rfl, hc, Session.sound_empty env⟩
    obtain ⟨heq, halike, ht⟩ := serve_alike (v := env.errorStream) ha hd hnew r
    have hlatest (i : Nat) : latestChoice (c.serve env r).2.target.architecture (rs.take i) =
        latestChoice c.target.architecture ((r :: rs).take (i + 1)) := by
      rw [List.take_succ_cons, latestChoice_cons, ht]
    rw [answers, List.mapIdx_cons, ih halike.left, heq]
    simp only [hlatest]
    rfl

/-- Each answer is that of a new codec with the target chosen last, and all are the same without an error stream. -/
theorem answers_eq_fresh (initial : Architecture) (rs : List Request) :
    answers env { target := ⟨initial⟩ } rs = (rs.mapIdx fun i r =>
        (({ target := ⟨latestChoice initial (rs.take i)⟩ } : Codec).serve env r).1) ∧
      ∀ v, answers (env.withStream v) { target := ⟨initial⟩ } rs = answers env { target := ⟨initial⟩ } rs := by
  have hs := Session.sound_empty env
  refine ⟨answers_eq_mapIdx ha hd (c := { target := ⟨initial⟩ }) hs rs, ?_⟩
  intro v
  exact (answers_alike ha hd ⟨rfl, hs, hs⟩ rs).symm

end Steady

/-- An assembler for 32-bit ARM that prints a warning with the code of one statement and refuses another. -/
def grumblingRecord : Transcript where
  requests := [
    ⟨⟨1, 1⟩, "nop", 0, [⟨[], ⟨"warning: old".toUTF8.toList, [], .ok (some [0x00, 0xf0, 0x20, 0xe3])⟩⟩]⟩,
    ⟨⟨1, 1⟩, "hcf", 0, [⟨[], { result := .error ⟨"KsError", "unknown"⟩ }⟩]⟩]

def grumbling : Environment := ⟨grumblingRecord.assembler, grumblingRecord.disassembler, true⟩

/-- Repeated requests around a refused statement, a refused choice and another target. -/
def repeated : List Request := [
  .payload "nop", .choose (.other "int"), .payload "hcf", .payload "nop", .choose (.name "x86_64"),
  .graph [0x90] 0x1000 none, .payload "nop"]

theorem answers_eq_fresh_repeated :
    grumbling.assembler.Steady ∧ grumbling.disassembler.Steady ∧
      (answers grumbling { target := ⟨.armLittle⟩ } repeated = repeated.mapIdx fun i r =>
        (({ target := ⟨latestChoice .armLittle (repeated.take i)⟩ } : Codec).serve grumbling r).1) ∧
      answers (grumbling.withStream false) { target := ⟨.armLittle⟩ } repeated =
        answers grumbling { target := ⟨.armLittle⟩ } repeated := by
  have ha : grumbling.assembler.Steady := grumblingRecord.steady_assembler
  have hd : grumbling.disassembler.Steady := grumblingRecord.steady_disassembler
  obtain ⟨hnew, hstream⟩ := answers_eq_fresh ha hd .armLittle repeated
  exact ⟨ha, hd, hnew, hstream false⟩

end Codec

end AssemblyConsole
