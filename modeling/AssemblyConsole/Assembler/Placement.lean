import AssemblyConsole.Assembler.Field

/-!
The bytes that fields have when their symbol is at the placeholder address. The engine puts a symbol a small distance
away from the value it is given. The distance is measured against a label, whose bytes are exact, and the symbol is
then given the value that brings it to the placeholder address.
-/

namespace AssemblyConsole.Assembler

/-- The gap between a label and code that the label cannot stand in front of directly. -/
def gap : Nat := 0x100

/-- The distances, the nearer first, and of two equally near the negative one. -/
def distances : List Int := 0 :: (List.range 16).flatMap fun (i : Nat) => [-(i + 1 : Int), (i + 1 : Int)]

/-- A label's address and the code made with the label in front of it. -/
structure Labelled where
  address : Int
  code : Bytes
deriving DecidableEq, Repr

def labelLine (symbol text : String) : String := s!"{symbol}:\n{text}"

def paddedLabelLine (symbol text : String) : String := s!"{symbol}:\n.space {gap}\n{text}"

/-- The code with the symbol as a label at its beginning, or else a gap before it, if it has the size expected. -/
def withLabel (env : Environment) (s : Source) (symbol : String) (size : Nat) :
    Action Session EncodeError (Option Labelled) := do
  match (← probe env { s with text := labelLine symbol s.text } []).filter (·.length = size) with
  | some code => return some ⟨s.address, code⟩
  | none =>
    if s.address < gap then return none
    else
      let address := s.address - gap
      let padded ← probe env { s with text := paddedLabelLine symbol s.text, address } []
      return (padded.filter (·.length = gap + size)).map fun code => ⟨address, code.drop gap⟩

/-- What trials have shown so far: the code for each value tried. -/
abbrev Trials := List (Int × Option Bytes)

def retry (env : Environment) (s : Source) (symbol : String) (size : Nat) (trials : Trials) (value : Int) :
    Action Session EncodeError (Option Bytes × Trials) := do
  match trials.lookup value with
  | some code => return (code, trials)
  | none =>
    let code ← trial env s symbol size value
    return (code, (value, code) :: trials)

/-- The field's bytes with the symbol at the placeholder address, if its distance is found and the engine grants the
value. -/
def placeField (env : Environment) (s : Source) (symbol : String) (size : Nat) (label : Labelled) (f : Field) :
    List Int → Trials → Action Session EncodeError (Option Bytes × Trials)
  | [], trials => return (none, trials)
  | d :: ds, trials => do
    let (atLabel, trials) ← retry env s symbol size trials (label.address - d)
    if atLabel.map f.bytes = some (f.bytes label.code) then
      let (atPlaceholder, trials) ← retry env s symbol size trials (Relocation.placeholderAddress - d)
      return (atPlaceholder.map f.bytes, trials)
    else placeField env s symbol size label f ds trials

/-- The code with each field's bytes replaced by those found for it. -/
def placeFields (env : Environment) (s : Source) (symbol : String) (size : Nat) (label : Labelled) :
    List Field → Trials → Bytes → Action Session EncodeError Bytes
  | [], _, placed => return placed
  | f :: fs, trials, placed => do
    let (field, trials) ← placeField env s symbol size label f distances trials
    placeFields env s symbol size label fs trials ((field.map (f.put · placed)).getD placed)

/-- The code with the symbol at the placeholder address, as far as that can be told. -/
def place (env : Environment) (s : Source) (symbol : String) (code : Bytes) (fields : List Field) :
    Action Session EncodeError Bytes := do
  match ← withLabel env s symbol code.length with
  | none => return code
  | some label =>
    if label.address = Relocation.placeholderAddress then return label.code
    else placeFields env s symbol code.length label fields [] code

def relocationsOf (env : Environment) (s : Source) (code : Bytes) (symbol : String) :
    Action Session EncodeError (List Relocation) := do
  match ← findFields env s symbol code sentinels with
  | [] => return [{ offset := none, target := symbol }]
  | fields =>
    let placed ← place env s symbol code fields
    return fields.map fun f =>
      { offset := some (f.offset : Int), target := symbol, size := f.size, placeholder := f.bytes placed }

end AssemblyConsole.Assembler
