import ApiUnion.Run.RootSpec

-- Arguments of the program: a command, the options of the command, and options that may stand on
-- either side of its name.

namespace ApiUnion

inductive Command
  | generate (roots : List RootSpec) (out : String) (json : Bool)
  | stats (roots : List RootSpec) (json : Bool)
  | dump (roots : List RootSpec) (filter : Option String)
deriving DecidableEq, Repr

inductive CommandName
  | generate | stats | dump
deriving DecidableEq, Repr

namespace CommandName

def all : List CommandName :=
  [generate, stats, dump]

def text : CommandName → String
  | generate => "generate"
  | stats => "stats"
  | dump => "dump"

end CommandName

inductive HelpTopic
  | program
  | command (name : CommandName)
  | help
deriving DecidableEq, Repr

-- What the arguments ask for.
inductive Request
  | run (config : Option String) (command : Command)
  | help (topic : HelpTopic)
  | version
deriving DecidableEq, Repr

inductive UsageError
  | noCommand
  | unknownArgument (text : String)
  | unknownCommand (text : String)
  | noValue (option : String)
  | needlessValue (option : String)
  | emptyValue (option : String)
  | repeated (option : String)
  | missing (option : String)
  | invalidRoot (error : RootSpecError)
deriving DecidableEq, Repr

def UsageError.message : UsageError → String
  | noCommand => "a command is required"
  | unknownArgument text => s!"unexpected argument '{text}' found"
  | unknownCommand text => s!"unrecognized subcommand '{text}'"
  | noValue option => s!"a value is required for '--{option}' but none was supplied"
  | needlessValue option => s!"unexpected value for '--{option}'"
  | emptyValue option => s!"a value is required for '--{option}' but none was supplied"
  | repeated option => s!"the argument '--{option}' cannot be used multiple times"
  | missing option => s!"the required argument '--{option}' was not provided"
  | invalidRoot error => s!"invalid value for '--root': {error.message}"

namespace CommandLine

inductive OptionKind
  | switch
  | text
  | path
  -- May be given more than once.
  | root
deriving DecidableEq, Repr

abbrev OptionTable := List (String × OptionKind)

def commonOptions : OptionTable :=
  [("config", .path)]

def optionsOf : CommandName → OptionTable
  | .generate => commonOptions ++ [("root", .root), ("out", .path), ("json", .switch)]
  | .stats => commonOptions ++ [("root", .root), ("json", .switch)]
  | .dump => commonOptions ++ [("root", .root), ("filter", .text)]

-- The options that were given, in order, with their values.
abbrev Given := List (String × String)

-- Why reading options came to an end.
inductive Stop
  | finished
  | help
  | version
  | word (text : String) (rest : List String)
deriving DecidableEq, Repr

-- An argument that begins with a hyphen is no value, unless there is nothing else to it.
def isValue (text : String) : Bool :=
  text = "-" || text.toList.head? ≠ some '-'

def checkValue (option value : String) : OptionKind → Except UsageError Unit
  | .path => if value.isEmpty then .error (.emptyValue option) else .ok ()
  | .root => match RootSpec.ofText value with
    | .ok _ => .ok ()
    | .error error => .error (.invalidRoot error)
  | _ => .ok ()

def give (given : Given) (option value : String) (kind : OptionKind) : Except UsageError Given := do
  if kind ≠ .root && (given.lookup option).isSome then throw (.repeated option)
  checkValue option value kind
  pure (given ++ [(option, value)])

-- An option and the value behind an equals sign.
def splitLong (text : String) : String × Option String :=
  let body := text.toList.drop 2
  match body.dropWhile (· ≠ '=') with
  | [] => (String.ofList body, none)
  | _ :: value => (String.ofList (body.takeWhile (· ≠ '=')), some (String.ofList value))

def isLong (text : String) : Bool :=
  "--".toList.isPrefixOf text.toList

-- A long option. What is left to do without a value is up to the next argument.
def switch (table : OptionTable) (versioned : Bool) (given : Given) (text : String) :
    Except UsageError (Given × Option Stop) :=
  let (option, value) := splitLong text
  let asked := if option = "help" then some Stop.help
    else if option = "version" && versioned then some Stop.version else none
  match asked, table.lookup option, value with
  | some stop, _, none => .ok (given, some stop)
  | none, some .switch, none => (give given option "" .switch).map (·, none)
  | none, some kind, some value =>
    if kind = .switch then .error (.needlessValue option)
    else (give given option value kind).map (·, none)
  | none, some _, none => .error (.noValue option)
  | some _, _, some _ => .error (.needlessValue option)
  | none, none, _ => .error (.unknownArgument text)

def short (versioned : Bool) (text : String) : Except UsageError Stop :=
  match text.toList with
  | '-' :: 'h' :: _ => .ok .help
  | '-' :: 'V' :: _ => if versioned then .ok .version else .error (.unknownArgument text)
  | _ => .error (.unknownArgument text)

-- Whether the next argument is the value of this one.
def wantsNext (table : OptionTable) (text : String) : Bool :=
  let (option, value) := splitLong text
  value.isNone && table.any fun row => row.1 = option && row.2 ≠ .switch

-- Options from the left, up to a word that is none or a request for help.
def scan (table : OptionTable) (versioned : Bool) :
    Given → List String → Except UsageError (Given × Stop)
  | given, [] => .ok (given, .finished)
  | given, "--" :: rest =>
    match rest with
    | [] => .ok (given, .finished)
    | text :: _ => .error (.unknownArgument text)
  | given, [text] =>
    if isValue text then .ok (given, .word text [])
    else if isLong text then do
      let (given, stop) ← switch table versioned given text
      pure (given, stop.getD .finished)
    else (short versioned text).map (given, ·)
  | given, text :: next :: rest =>
    if isValue text then .ok (given, .word text (next :: rest))
    else if isLong text && wantsNext table text then
      let (option, _) := splitLong text
      if isValue next then do
        scan table versioned (← give given option next ((table.lookup option).getD .text)) rest
      else .error (.noValue option)
    else if isLong text then do
      match ← switch table versioned given text with
      | (given, some stop) => pure (given, stop)
      | (given, none) => scan table versioned given (next :: rest)
    else (short versioned text).map (given, ·)

def rootsOf (given : Given) : Except UsageError (List RootSpec) := do
  let roots ← given.filterMapM fun (option, value) =>
    if option = "root" then
      match RootSpec.ofText value with
      | .ok root => Except.ok (some root)
      | .error error => .error (.invalidRoot error)
    else .ok none
  if roots.isEmpty then throw (.missing "root")
  pure roots

def required (given : Given) (option : String) : Except UsageError String :=
  match given.lookup option with
  | some value => .ok value
  | none => .error (.missing option)

def commandOf (given : Given) : CommandName → Except UsageError Command
  | .generate => do
    pure (.generate (← rootsOf given) (← required given "out") (given.lookup "json").isSome)
  | .stats => do pure (.stats (← rootsOf given) (given.lookup "json").isSome)
  | .dump => do pure (.dump (← rootsOf given) (given.lookup "filter"))

-- The option that both sides share counts where it stands behind the name of the command.
def parseCommand (before : Given) (name : CommandName) (arguments : List String) :
    Except UsageError Request := do
  match ← scan (optionsOf name) false [] arguments with
  | (given, .finished) =>
    let config := (given.lookup "config").orElse fun _ => before.lookup "config"
    pure (.run config (← commandOf given name))
  | (_, .help) => pure (.help (.command name))
  | (_, .version) => throw (.unknownArgument "--version")
  | (_, .word text _) => throw (.unknownArgument text)

def nameOf? (text : String) : Option CommandName :=
  CommandName.all.find? fun name => name.text = text

def helpWord : String :=
  "help"

-- Help on the whole, on a command or on itself. Nothing has commands below it.
def parseHelp : List String → Except UsageError Request
  | [] => .ok (.help .program)
  | [text] =>
    match nameOf? text with
    | some name => .ok (.help (.command name))
    | none => if text = helpWord then .ok (.help .help) else .error (.unknownCommand text)
  | _ :: text :: _ => .error (.unknownCommand text)

def parse (arguments : List String) : Except UsageError Request := do
  match ← scan commonOptions true [] arguments with
  | (_, .finished) => throw .noCommand
  | (_, .help) => pure (.help .program)
  | (_, .version) => pure .version
  | (given, .word text rest) =>
    match nameOf? text with
    | some name => parseCommand given name rest
    | none => if text = helpWord then parseHelp rest else throw (.unknownCommand text)

end CommandLine

end ApiUnion
