import Artwork.Import.Options

/-!
**Arguments of the command line.**

There are two commands, and each reads one content stream.  Options begin with two dashes and take one
value, which follows an equals sign or is the next argument; a value does not begin with a dash unless
it is a lone one.  No option may be given twice.  After two dashes alone every argument is a file.

Main definitions:

* `Command` — what is to be printed;
* `Request` — the command, the file, and the options of the import;
* `Invocation.ofArguments` — **what the arguments ask for**.
-/

set_option relaxedAutoImplicit false
set_option autoImplicit false

namespace Artwork

/-- What is to be printed. -/
inductive Command where
  | layoutJson
  | summary
  | drillTable
  | drillJson
  deriving Repr, DecidableEq

/-- An import to be run for a command. -/
structure Request where
  command : Command
  file : String
  options : ImportOptions
  deriving Repr, DecidableEq

/-- What the arguments ask for. -/
inductive Invocation where
  | run (request : Request)
  | help
  | version
  /-- The arguments are not understood. -/
  | misuse
  deriving Repr, DecidableEq

/-- The two commands. -/
inductive CommandName where
  | importing
  | drilling
  deriving Repr, DecidableEq

/-- The options of both commands. -/
inductive OptionName where
  | format
  | unit
  | steps
  | startId
  deriving Repr, DecidableEq

/-- What was understood of the arguments so far. -/
structure Arguments where
  command : CommandName
  file : Option String := none
  format : Option Command := none
  unit : Option LengthUnit := none
  steps : Option Nat := none
  startId : Option Nat := none
  deriving Repr

namespace Arguments

/-- The option of a name. -/
def optionName? : String → Option OptionName
  | "format" => some .format
  | "unit" => some .unit
  | "steps" => some .steps
  | "start-id" => some .startId
  | _ => none

/-- The format of the output that a command offers under a name. -/
def format? : CommandName → String → Option Command
  | .importing, "json" => some .layoutJson
  | .importing, "summary" => some .summary
  | .drilling, "text" => some .drillTable
  | .drilling, "json" => some .drillJson
  | _, _ => none

/-- The unit of a name. -/
def unit? : String → Option LengthUnit
  | "mm" => some .millimeter
  | "in" => some .inch
  | _ => none

/-- The value of decimal digits, of which there has to be one. -/
def digits? (digits : List Char) : Option Nat :=
  if digits.isEmpty then none
  else digits.foldlM
    (fun n c => if '0' ≤ c ∧ c ≤ '9' then some (n * 10 + (c.toNat - 48)) else none) 0

/-- A whole number of 32 bits, which may have a sign. -/
def word? (value : String) : Option Nat :=
  let number := match value.toList with
    | '+' :: digits => digits? digits
    | '-' :: digits => (digits? digits).filter (· == 0)
    | digits => digits? digits
  number.filter (· < 4294967296)

/-- Takes the value of an option, unless it has one or the value is none of its own. -/
def setOption? (a : Arguments) (name : OptionName) (value : String) : Option Arguments :=
  match name with
  | .format =>
    if a.format.isSome then none
    else (format? a.command value).map ({ a with format := some · })
  | .unit => if a.unit.isSome then none else (unit? value).map ({ a with unit := some · })
  | .steps => if a.steps.isSome then none else (word? value).map ({ a with steps := some · })
  | .startId => if a.startId.isSome then none else (word? value).map ({ a with startId := some · })

/-- Takes the file, of which there is only one. -/
def setFile? (a : Arguments) (file : String) : Option Arguments :=
  if a.file.isSome || file.isEmpty then none else some { a with file := some file }

/-- The format a command has unless another is asked for. -/
def defaultFormat : CommandName → Command
  | .importing => .layoutJson
  | .drilling => .drillTable

/-- The request, if there is a file. -/
def invocation (a : Arguments) : Invocation :=
  match a.file with
  | none => .misuse
  | some file =>
    let defaults : ImportOptions := {}
    .run
      { command := a.format.getD (defaultFormat a.command)
        file := file
        options :=
          { unit := a.unit.getD defaults.unit
            curveSteps := a.steps.getD defaults.curveSteps
            startId := (a.startId.map Nat.toUInt32).getD defaults.startId } }

/-- Arguments after two dashes alone. -/
def takeFiles (a : Arguments) : List String → Invocation
  | [] => a.invocation
  | file :: rest =>
    match a.setFile? file with
    | some a => a.takeFiles rest
    | none => .misuse

/-- What an argument looks like. -/
inductive Shape where
  /-- Two dashes alone. -/
  | separator
  /-- An option, and its value if it follows an equals sign. -/
  | option (name : String) (value : Option String)
  /-- One dash and letters. -/
  | flags (letters : List Char)
  | plain

/-- The shape of an argument. -/
def shapeOf (argument : String) : Shape :=
  match argument.toList with
  | ['-', '-'] => .separator
  | '-' :: '-' :: rest =>
    let name := rest.takeWhile (· != '=')
    let value := match rest.dropWhile (· != '=') with
      | [] => none
      | _ :: value => some (String.ofList value)
    .option (String.ofList name) value
  | '-' :: c :: rest => .flags (c :: rest)
  | _ => .plain

/-- The arguments after the command.  `waiting` is an option whose value is still missing. -/
def take (a : Arguments) (waiting : Option OptionName) : List String → Invocation
  | [] => if waiting.isSome then .misuse else a.invocation
  | argument :: rest =>
    match shapeOf argument, waiting with
    | .plain, some name =>
      match a.setOption? name argument with
      | some a => a.take none rest
      | none => .misuse
    | .plain, none =>
      match a.setFile? argument with
      | some a => a.take none rest
      | none => .misuse
    | _, some _ => .misuse
    | .separator, none => a.takeFiles rest
    | .flags letters, none => if letters.head? = some 'h' then .help else .misuse
    | .option name none, none =>
      if name = "help" then .help
      else match optionName? name with
        | some name => a.take (some name) rest
        | none => .misuse
    | .option name (some value), none =>
      match (optionName? name).bind (a.setOption? · value) with
      | some a => a.take none rest
      | none => .misuse

end Arguments

/-- Help on the program or on one of its commands, of which help is one too. -/
def Invocation.helpOn : List String → Invocation
  | [] => .help
  | [name] => if name = "import" || name = "drills" || name = "help" then .help else .misuse
  | _ => .misuse

/-- What the arguments **ask for**. -/
def Invocation.ofArguments : List String → Invocation
  | [] => .misuse
  | argument :: rest =>
    if argument = "import" then Arguments.take { command := .importing } none rest
    else if argument = "drills" then Arguments.take { command := .drilling } none rest
    else if argument = "help" then .helpOn rest
    else if argument = "--help" then .help
    else if argument = "--version" then .version
    else match Arguments.shapeOf argument with
      | .flags ('h' :: _) => .help
      | .flags ('V' :: _) => .version
      | _ => .misuse

end Artwork
