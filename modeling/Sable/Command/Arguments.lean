/-!
# Command lines

A command line is read at two levels: options in front of a command, then the command with its own
options and its paths. The options of the first level may stand at either; at each level an option
stands at most once, and `--quiet` not beside `--verbose`.

## Main definitions

* `Command`: what is to be done.
* `Invocation`: a command with the options for all commands.
* `Refusal`: why no command is carried out.
* `Invocation.parse`: reads a command line.
-/
namespace Sable

inductive Command
  | lex (file : String) (json trivia : Bool)
  | parse (file : String)
  | check (path : Option String) (symbols : Bool)
  deriving DecidableEq, Inhabited

structure Invocation where
  config : Option String
  verbose : Bool
  quiet : Bool
  command : Command
  deriving DecidableEq, Inhabited

inductive Refusal
  | usage
  | help
  | version
  deriving DecidableEq, Inhabited

inductive CommandName
  | lex
  | parse
  | check
  deriving DecidableEq, Inhabited

inductive Flag
  | verbose
  | quiet
  | json
  | trivia
  | symbols
  deriving DecidableEq, Inhabited

namespace CommandName

def ofString? : String → Option CommandName
  | "lex" => some .lex
  | "parse" => some .parse
  | "check" => some .check
  | _ => none

/-- The flags that the command has for itself. -/
def flags : CommandName → List Flag
  | .lex => [.json, .trivia]
  | .parse => []
  | .check => [.symbols]

end CommandName

namespace Flag

def all : List Flag := [.verbose, .quiet, .json, .trivia, .symbols]

/-- The flags of every command. -/
def shared : List Flag := [.verbose, .quiet]

def name : Flag → String
  | .verbose => "verbose"
  | .quiet => "quiet"
  | .json => "json"
  | .trivia => "trivia"
  | .symbols => "symbols"

def letter? : Flag → Option Char
  | .verbose => some 'v'
  | .quiet => some 'q'
  | .json | .trivia | .symbols => none

end Flag

/-- What an argument looks like. -/
inductive Argument
  | word (text : String)
  | letters (cs : List Char)
  | option (name : String) (value : Option String)
  | separator
  deriving DecidableEq, Inhabited

namespace Argument

/-- A single dash is a word. -/
def ofString (s : String) : Argument :=
  match s.toList with
  | ['-', '-'] => .separator
  | '-' :: '-' :: rest =>
    match rest.span (· ≠ '=') with
    | (name, '=' :: value) => .option (.ofList name) (some (.ofList value))
    | (name, _) => .option (.ofList name) none
  | '-' :: c :: rest => .letters (c :: rest)
  | _ => .word s

end Argument

/-- What one level holds. -/
structure ArgumentLevel where
  flags : List Flag := []
  config : Option String := none
  paths : List String := []
  deriving DecidableEq, Inhabited

/-- What one level may hold. Without room for paths, its first word ends the level. -/
structure LevelRule where
  flags : List Flag
  room : Option Nat
  hasVersion : Bool
  deriving DecidableEq, Inhabited

namespace LevelRule

/-- The level in front of the command. -/
def outer : LevelRule := ⟨Flag.shared, none, true⟩

/-- The level of a command. -/
def inner (name : CommandName) : LevelRule := ⟨name.flags ++ Flag.shared, some 1, false⟩

end LevelRule

namespace ArgumentLevel

def addFlag (level : ArgumentLevel) (flag : Flag) : Except Refusal ArgumentLevel :=
  if flag ∈ level.flags then .error .usage
  else .ok { level with flags := level.flags ++ [flag] }

def setConfig (level : ArgumentLevel) (path : String) : Except Refusal ArgumentLevel :=
  if level.config.isSome || path.isEmpty then .error .usage
  else .ok { level with config := some path }

def addPath (room : Nat) (level : ArgumentLevel) (path : String) :
    Except Refusal ArgumentLevel :=
  if path.isEmpty || room ≤ level.paths.length then .error .usage
  else .ok { level with paths := level.paths ++ [path] }

def addLetter (rule : LevelRule) (level : ArgumentLevel) (c : Char) :
    Except Refusal ArgumentLevel :=
  match rule.flags.find? fun flag => flag.letter? = some c with
  | some flag => level.addFlag flag
  | none =>
    if c = 'h' then .error .help
    else if c = 'V' && rule.hasVersion then .error .version
    else .error .usage

/-- An option without a value of its own. -/
def addOption (rule : LevelRule) (level : ArgumentLevel) (name : String) :
    Except Refusal ArgumentLevel :=
  match rule.flags.find? fun flag => flag.name = name with
  | some flag => level.addFlag flag
  | none =>
    if name = "help" then .error .help
    else if name = "version" && rule.hasVersion then .error .version
    else .error .usage

/-- Reads arguments to the end of the level, and gives what follows it. The value of `--config`
may be the next argument, if that is a word. -/
def read (rule : LevelRule) (level : ArgumentLevel) :
    List String → Except Refusal (ArgumentLevel × List String)
  | [] => .ok (level, [])
  | arg :: rest =>
    match Argument.ofString arg with
    | .letters cs => do (← cs.foldlM (addLetter rule) level).read rule rest
    | .option name (some value) =>
      if name = "config" then do (← level.setConfig value).read rule rest else .error .usage
    | .option name none =>
      if name = "config" then
        match rest with
        | [] => .error .usage
        | value :: rest =>
          match Argument.ofString value with
          | .word path => do (← level.setConfig path).read rule rest
          | _ => .error .usage
      else do (← level.addOption rule name).read rule rest
    | .word path =>
      match rule.room with
      | none => .ok (level, arg :: rest)
      | some room => do (← level.addPath room path).read rule rest
    | .separator =>
      match rule.room with
      | none => .error .usage
      | some room => return (← rest.foldlM (addPath room) level, [])

/-- Whether the options of a level go together. -/
def isConsistent (level : ArgumentLevel) : Bool :=
  !(level.flags.contains .verbose && level.flags.contains .quiet)

/-- The command that a level describes. -/
def command? (level : ArgumentLevel) : CommandName → Option Command
  | .lex => level.paths.head?.map fun file =>
    .lex file (level.flags.contains .json) (level.flags.contains .trivia)
  | .parse => level.paths.head?.map .parse
  | .check => some (.check level.paths.head? (level.flags.contains .symbols))

end ArgumentLevel

namespace Invocation

/-- The options of the command count before those in front of it. -/
def ofLevels? (outer inner : ArgumentLevel) (name : CommandName) : Option Invocation := do
  let command ← inner.command? name
  if outer.isConsistent && inner.isConsistent then
    some {
      config := inner.config <|> outer.config
      verbose := (outer.flags ++ inner.flags).contains .verbose
      quiet := (outer.flags ++ inner.flags).contains .quiet
      command }
  else none

/-- Help may be asked for on a command, or on the help itself. -/
def helpOn : List String → Refusal
  | [] => .help
  | [name] => if name = "help" || (CommandName.ofString? name).isSome then .help else .usage
  | _ => .usage

def parse (args : List String) : Except Refusal Invocation := do
  match ← ArgumentLevel.read .outer {} args with
  | (_, []) => throw .usage
  | (outer, word :: rest) =>
    match CommandName.ofString? word with
    | none => throw (if word = "help" then helpOn rest else .usage)
    | some name =>
      let (inner, _) ← ArgumentLevel.read (.inner name) {} rest
      match ofLevels? outer inner name with
      | some invocation => return invocation
      | none => throw .usage

end Invocation

end Sable
