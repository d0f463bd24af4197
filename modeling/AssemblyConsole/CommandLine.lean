import AssemblyConsole.Target
import AssemblyConsole.Text.DecimalDigit

/-!
The arguments of the command. An option may be shortened as long as no other begins alike; a value stands behind its
option or in the same word, and options of one letter may share a word.
-/

namespace AssemblyConsole.CommandLine

inductive Level
  | debug
  | info
  | warning
  | error
  | critical
deriving DecidableEq, Repr

def Level.text : Level → String
  | .debug => "DEBUG"
  | .info => "INFO"
  | .warning => "WARNING"
  | .error => "ERROR"
  | .critical => "CRITICAL"

def levels : List Level := [.debug, .info, .warning, .error, .critical]

def Level.showsWarnings : Level → Bool
  | .debug | .info | .warning => true
  | .error | .critical => false

inductive Flag
  | help
  | architecture
  | level
deriving DecidableEq, Repr

/-- An option as it is called in messages. -/
def Flag.text : Flag → String
  | .help => "-h/--help"
  | .architecture => "--arch/-a"
  | .level => "--logging-level/-l"

/-- The spellings of the options, in the order in which messages list them. -/
def spellings : List (String × Flag) := [
  ("-h", .help), ("--help", .help), ("--arch", .architecture), ("-a", .architecture),
  ("--logging-level", .level), ("-l", .level)]

/-- What a word is taken for; `attached` is the value of an option in the same word. -/
inductive Word
  | plain
  | divider
  | unknown
  | option (flag : Flag) (isLong : Bool) (attached : Option (List Char))
deriving DecidableEq, Repr

inductive UsageError
  | ambiguous (word : String) (candidates : List String)
  | missingValue (flag : Flag)
  | needlessValue (flag : Flag) (value : String)
  | badChoice (flag : Flag) (value : String) (choices : List String)
  | unrecognized (words : List String)
deriving DecidableEq, Repr

def UsageError.message : UsageError → String
  | .ambiguous w cs => s!"ambiguous option: {w} could match " ++ ", ".intercalate cs
  | .missingValue f => s!"argument {f.text}: expected one argument"
  | .needlessValue f v => s!"argument {f.text}: ignored explicit argument {Text.quoted v}"
  | .badChoice f v cs =>
    s!"argument {f.text}: invalid choice: {Text.quoted v} (choose from " ++
      ", ".intercalate (cs.map Text.quoted) ++ ")"
  | .unrecognized ws => "unrecognized arguments: " ++ " ".intercalate ws

def UsageError.report (e : UsageError) : String := s!"asmshell: error: {e.message}"

/-- What is set. An option may leave its setting without a value. -/
structure Settings where
  architecture : Choice := .architecture Architecture.standard
  level : Option Level := some .warning
deriving DecidableEq, Repr

inductive Request
  | help
  | start (settings : Settings)
deriving DecidableEq, Repr

def isLongSpelling (s : List Char) : Bool := ['-', '-'].isPrefixOf s

/-- The part before the first equals sign and, if there is one, the part behind it. -/
def splitAtEquals (cs : List Char) : List Char × Option (List Char) :=
  match cs.dropWhile (· ≠ '=') with
  | [] => (cs, none)
  | _ :: value => (cs.takeWhile (· ≠ '='), some value)

/-- Whether a word is a negative number, which is no option: digits, or digits around a point with some behind it. -/
def isNegativeNumber : List Char → Bool
  | '-' :: cs =>
    let body := if cs.getLast? = some '\n' then cs.dropLast else cs
    match body.dropWhile Text.isDecimalDigit with
    | [] => !body.isEmpty
    | '.' :: fraction => !fraction.isEmpty && fraction.all Text.isDecimalDigit
    | _ => false
  | _ => false

/-- The options that a word may be short for. A word that begins with two hyphens is compared up to its equals sign,
any other by its first letter, behind which the value stands. -/
def candidates (cs : List Char) : List (String × Word) :=
  if isLongSpelling cs then
    let (name, value) := splitAtEquals cs
    (spellings.filter fun (s, _) => name.isPrefixOf s.toList).map fun (s, f) =>
      (s, .option f true value)
  else
    (spellings.filter fun (s, _) => s.toList = cs.take 2).map fun (s, f) =>
      (s, .option f false (some (cs.drop 2)))

/-- What a word is taken for when it is no option as it stands. -/
def guess (word : String) : Except UsageError Word :=
  let cs := word.toList
  match candidates cs with
  | [] => .ok (if isNegativeNumber cs || cs.contains ' ' then .plain else .unknown)
  | [(_, w)] => .ok w
  | several => .error (.ambiguous word (several.map (·.1)))

def classify (word : String) : Except UsageError Word :=
  let cs := word.toList
  if cs.head? ≠ some '-' then .ok .plain
  else match spellings.lookup word with
    | some f => .ok (.option f (isLongSpelling cs) none)
    | none =>
      if cs.length = 1 then .ok .plain
      else match splitAtEquals cs with
        | (name, some value) =>
          match spellings.lookup (String.ofList name) with
          | some f => .ok (.option f (isLongSpelling name) (some value))
          | none => guess word
        | (_, none) => guess word

def divider : String := "--"

/-- The words with what they are taken for; behind a divider all are plain. -/
def classifyAll : List String → Except UsageError (List (String × Word))
  | [] => .ok []
  | w :: ws =>
    if w = divider then .ok ((w, .divider) :: ws.map fun v => (v, .plain))
    else do return (w, ← classify w) :: (← classifyAll ws)

/-- The settings after the value of an option. A divider is no value, and an empty list of values is left. -/
def assign (s : Settings) (f : Flag) (value : List Char) : Except UsageError Settings :=
  let hasNone := String.ofList value = divider
  match f with
  | .help => .ok s
  | .architecture =>
    if hasNone then .ok { s with architecture := .other "list" }
    else
      let name := String.ofList (Text.lowerCase value)
      match Architecture.table.lookup name with
      | some a => .ok { s with architecture := .architecture a }
      | none => .error (.badChoice f name Architecture.names)
  | .level =>
    if hasNone then .ok { s with level := none }
    else
      match levels.find? (·.text = String.ofList value) with
      | some l => .ok { s with level := some l }
      | none => .error (.badChoice f (String.ofList value) (levels.map Level.text))

def letterFlag? (c : Char) : Option Flag := spellings.lookup (String.ofList ['-', c])

/-- Whether the rest of a word behind the help option is in order: further options of one letter, of which the last may
have a value, in the word or, if `valueFollows`, behind it. -/
def checkCluster (valueFollows : Bool) : List Char → Except UsageError Unit
  | [] => .ok ()
  | c :: rest =>
    match letterFlag? c with
    | none => .error (.needlessValue .help (String.ofList (c :: rest)))
    | some .help => checkCluster valueFollows rest
    | some f => if rest.isEmpty && !valueFollows then .error (.missingValue f) else .ok ()

/-- Goes through the words from the first, with the settings so far and the words that nothing is made of. -/
def interpret (s : Settings) (extras : List String) : List (String × Word) → Except UsageError Request
  | [] => if extras.isEmpty then .ok (.start s) else .error (.unrecognized extras)
  | (_, .option .help isLong attached) :: rest => do
    let valueFollows := match rest with
      | (_, .plain) :: _ => true
      | _ => false
    match attached with
    | none => pure ()
    | some value =>
      if isLong || value.isEmpty then throw (.needlessValue .help (String.ofList value))
      else checkCluster valueFollows value
    return .help
  | (_, .option f _ (some value)) :: rest => do interpret (← assign s f value) extras rest
  | (_, .option f _ none) :: (value, .plain) :: rest => do interpret (← assign s f value.toList) extras rest
  | (_, .option f _ none) :: _ => .error (.missingValue f)
  | (w, _) :: rest => interpret s (extras ++ [w]) rest

def parse (words : List String) : Except UsageError Request := do
  interpret {} [] (← classifyAll words)

end AssemblyConsole.CommandLine
