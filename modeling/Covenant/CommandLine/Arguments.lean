import Covenant.Machine.Limit
/-!
The arguments of the command line. Options may stand anywhere after the command, may be shortened as
long as one option only begins so, and may have their value after an equals sign. Where the mark
after which no options follow stands after the equals sign, the option is given without a value.
-/

namespace Covenant.CommandLine

inductive OptionName
  | help
  | version
  | contract
  | function
  | quiet
  | verbose
  | codeOut
  | abiOut
  | receiver
  | arguments
  | callerKey
  | others
  | salts
  | limit
deriving DecidableEq, Repr

def OptionName.hasValue : OptionName → Bool
  | .help | .version | .quiet | .verbose => false
  | _ => true

abbrev OptionTable := List (String × OptionName)

def mainOptions : OptionTable := [("-h", .help), ("--help", .help), ("--version", .version)]

def sharedOptions : OptionTable :=
  [("-h", .help), ("--help", .help), ("--contract", .contract), ("--function", .function),
   ("--quiet", .quiet), ("--verbose", .verbose)]

def compileOptions : OptionTable :=
  sharedOptions ++ [("--bytecode-out", .codeOut), ("--abi-out", .abiOut)]

def runOptions : OptionTable :=
  sharedOptions ++
    [("--this", .receiver), ("--args", .arguments), ("--caller-key", .callerKey),
     ("--other-records", .others), ("--this-salts", .salts), ("--max-steps", .limit)]

/-- The argument after which no options follow. -/
def markText : String := "--"

/-- What an argument is: something without a name, an option with the text after its equals sign,
an option of one letter with more after it, something that looks like an option, or the mark after
which no options follow. -/
inductive Piece
  | plain (text : String)
  | option (option : OptionName) (value : Option String)
  /-- `repeated` says that the letters after the first are the same letter again -/
  | letters (option : OptionName) (repeated : Bool)
  | unknown
  | mark

/-- Why arguments yield no command. -/
inductive Stop
  /-- help was asked for -/
  | help
  | version
  /-- nothing was asked for -/
  | nothing
  /-- the arguments are wrong -/
  | wrong

/-- The text before the first equals sign and that after it, if there is one. -/
def splitValue (s : List Char) : String × Option String :=
  let name := s.takeWhile (· != '=')
  if name.length = s.length then (String.ofList s, none)
  else (String.ofList name, some (String.ofList (s.drop (name.length + 1))))

def withLetters (letter : Char) (option : OptionName) (more : List Char) : Piece :=
  .letters option (!more.isEmpty && more.all (· == letter))

/-- An option with a text after its equals sign. To an option of one letter that is more letters. -/
def withText (name : String) (option : OptionName) (text : String) : Piece :=
  match name.toList with
  | ['-', letter] => withLetters letter option text.toList
  | _ => .option option (some text)

/-- The options that an argument may be short for. After one hyphen a letter alone is an option. -/
def candidates (table : OptionTable) (s : List Char) : List Piece :=
  match s with
  | '-' :: '-' :: _ =>
    let (name, value) := splitValue s
    (table.filter fun o => name.toList.isPrefixOf o.1.toList).map fun o => .option o.2 value
  | '-' :: letter :: rest =>
    (table.filter fun o => o.1.toList == ['-', letter]).map fun o => withLetters letter o.2 rest
  | _ => []

def withoutLineFeed (s : List Char) : List Char :=
  if s.getLast? = some '\n' then s.dropLast else s

/-- A hyphen and a decimal number; a line feed may follow. -/
def isNegativeNumber (s : List Char) : Bool :=
  match withoutLineFeed s with
  | '-' :: rest =>
    let whole := rest.takeWhile fun c => (Text.digit? c).isSome
    match rest.drop whole.length with
    | [] => !whole.isEmpty
    | '.' :: fraction => !fraction.isEmpty && fraction.all fun c => (Text.digit? c).isSome
    | _ => false
  | _ => false

def classify (table : OptionTable) (text : String) : Except Stop Piece :=
  let s := text.toList
  if s.head? ≠ some '-' then .ok (.plain text)
  else match table.lookup text with
    | some option => .ok (.option option none)
    | none =>
      if s.length = 1 then .ok (.plain text)
      else
        let (name, value) := splitValue s
        match value, table.lookup name with
        | some value, some option => .ok (withText name option value)
        | _, _ =>
          match candidates table s with
          | [piece] => .ok piece
          | _ :: _ :: _ => .error .wrong
          | [] =>
            if isNegativeNumber s || s.contains ' ' then .ok (.plain text) else .ok .unknown

def classifyAll (table : OptionTable) : List String → Except Stop (List Piece)
  | [] => .ok []
  | first :: rest =>
    if first = markText then .ok (.mark :: rest.map .plain)
    else do
      let piece ← classify table first
      return piece :: (← classifyAll table rest)

/-- What has been read of a command's arguments. -/
structure Given where
  source : Option String
  /-- later ones first; an option may be given without a value -/
  values : List (OptionName × Option String)
  flags : List OptionName
  /-- whether there is something that has no place -/
  surplus : Bool

/-- An option that has no value: help and the version end everything. -/
def flag (option : OptionName) (g : Given) : Except Stop Given :=
  match option with
  | .help => .error .help
  | .version => .error .version
  | option => .ok { g with flags := option :: g.flags }

/-- Letters after an option of one letter may only give it again. -/
def flagLetters (option : OptionName) (repeated : Bool) (g : Given) : Except Stop Given :=
  if repeated then flag option g else .error .wrong

/-- A limit must be a positive integer. -/
def checkedValue (option : OptionName) (value : String) : Except Stop Unit :=
  match option with
  | .limit =>
    match Text.integer? value.toList with
    | some n => if 0 < n then .ok () else .error .wrong
    | none => .error .wrong
  | _ => .ok ()

def takeValue (option : OptionName) (value : String) (g : Given) : Except Stop Given := do
  checkedValue option value
  return { g with values := (option, some value) :: g.values }

/-- The text after an equals sign, which is a value or the mark. -/
def takeText (option : OptionName) (text : String) (g : Given) : Except Stop Given :=
  if text = markText then .ok { g with values := (option, none) :: g.values }
  else takeValue option text g

/-- Reads the pieces of a command's arguments in order. `after` says that the piece before was the
source, which a mark may follow. -/
def readPieces (after : Bool) (g : Given) : List Piece → Except Stop Given
  | [] => .ok g
  | .unknown :: rest => readPieces false { g with surplus := true } rest
  | .mark :: rest =>
    readPieces false (if g.source.isSome && !after then { g with surplus := true } else g) rest
  | .plain text :: rest =>
    if g.source.isNone then readPieces true { g with source := some text } rest
    else readPieces false { g with surplus := true } rest
  | .letters option repeated :: rest => do
    readPieces false (← flagLetters option repeated g) rest
  | .option option (some text) :: rest =>
    if option.hasValue then do readPieces false (← takeText option text g) rest
    else .error .wrong
  | .option option none :: rest =>
    if option.hasValue then
      match rest with
      | .plain value :: rest => do readPieces false (← takeValue option value g) rest
      | _ => .error .wrong
    else do readPieces false (← flag option g) rest

/-- A command with its arguments. Options may be given without a value. -/
structure Command where
  source : String
  contract : Option String
  function : Option String
  /-- whether the function is run, not only compiled -/
  runs : Bool
  quiet : Bool
  verbose : Bool
  values : List (OptionName × Option String)

namespace Command

def value? (c : Command) (option : OptionName) : Option (Option String) := c.values.lookup option

/-- The options whose values are files that are read, in the order in which they are. -/
def readOptions : List OptionName := [.callerKey, .salts, .receiver, .arguments, .others]

def readPaths (c : Command) : List String :=
  c.source :: if c.runs then readOptions.filterMap fun o => (c.value? o).join else []

/-- The limit of steps that is asked for; without a value it is none. -/
def limit? (c : Command) : Option Nat :=
  match c.value? .limit with
  | none => some Limit.standard
  | some value => (value.bind fun s => Text.integer? s.toList).map Int.toNat

end Command

/-- A command that has all that is needed, and nothing else. -/
def complete (runs : Bool) (surplus : Bool) (g : Given) : Except Stop Command :=
  match g.source, g.values.lookup .contract, g.values.lookup .function with
  | some source, some contract, some function =>
    if surplus || g.surplus then .error .wrong
    else .ok ⟨source, contract, function, runs, g.flags.contains .quiet, g.flags.contains .verbose,
      g.values⟩
  | _, _, _ => .error .wrong

def readCommand (surplus : Bool) (name : String) (rest : List String) : Except Stop Command := do
  let (runs, table) ←
    if name = "compile" then pure (false, compileOptions)
    else if name = "run" then pure (true, runOptions)
    else .error .wrong
  let given ← readPieces false ⟨none, [], [], false⟩ (← classifyAll table rest)
  complete runs surplus given

def readFrom (surplus : Bool) : List Piece → List String → Except Stop Command
  | .plain name :: _, _ :: rest => readCommand surplus name rest
  | .mark :: _, _ => .error .wrong
  | .unknown :: pieces, _ :: rest => readFrom true pieces rest
  | .letters option repeated :: pieces, _ :: rest => do
    let _ ← flagLetters option repeated ⟨none, [], [], false⟩
    readFrom surplus pieces rest
  | .option option none :: pieces, _ :: rest => do
    let _ ← flag option ⟨none, [], [], false⟩
    readFrom surplus pieces rest
  | .option _ (some _) :: _, _ => .error .wrong
  | _, _ => .error (if surplus then .wrong else .nothing)

def read (arguments : List String) : Except Stop Command := do
  readFrom false (← classifyAll mainOptions arguments) arguments

end Covenant.CommandLine
