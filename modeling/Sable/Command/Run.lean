import Sable.Check
import Sable.Command.Arguments
import Sable.Command.Files
import Sable.Diagnostic
import Sable.Syntax.Outline
import Sable.Token.Listing

/-!
# Running commands

A command prints to the output, complains elsewhere, and ends with a status: 0 if all went well, 1
if something failed, 2 if the command line made no sense. The configuration is settled first: it has
to be readable, and its log level, unless the command line gives one, and its tables have to be
good.

## Main definitions

* `Outcome`: what a run leaves.
* `Invocation.run`: carries out a command.
* `runArguments`: reads a command line and carries it out.
-/
namespace Sable

structure Outcome where
  output : String := ""
  complaints : List String := []
  status : Nat := 0
  deriving DecidableEq, Inhabited

namespace Outcome

def failure (complaints : List String) : Outcome := { complaints, status := 1 }

def usage : List String :=
  ["Usage: sable [OPTIONS] <COMMAND>",
    "",
    "Commands:",
    "  lex FILE [--json] [--trivia]  Print the tokens of a file",
    "  parse FILE                    Print the outline of a file",
    "  check [PATH] [--symbols]      Analyze a file or directory",
    "",
    "Options:",
    "      --config <CONFIG>         Config file (defaults to ./sable.toml when present)",
    "  -v, --verbose                 Log debug output",
    "  -q, --quiet                   Only log warnings and errors",
    "  -h, --help                    Print help",
    "  -V, --version                 Print version"]

/-- Asking for help or the version is no failure. -/
def ofRefusal : Refusal → Outcome
  | .usage => { complaints := usage, status := 2 }
  | .help => { output := .join (usage.map (· ++ "\n")) }
  | .version => { output := "sable 0.1.0\n" }

end Outcome

/-- What was found out about one of the files to be checked. -/
structure FileReport where
  isOk : Bool
  complaints : List String
  /-- The name of the file and its symbols, if it could be parsed. -/
  symbols : String
  deriving DecidableEq, Inhabited

namespace FileReport

def unreadable (path : String) : FileReport := ⟨false, [s!"Error reading {path}"], ""⟩

/-- The line for a diagnostic. -/
def complaint (file : SourceFile) (d : Diagnostic) : String := s!"{file.name}: {d.message}"

def ofFile (lexer : Lexer) (file : SourceFile) : FileReport :=
  match file.check lexer (.core 0) with
  | .error e => ⟨false, [complaint file (.ofParseError file e)], ""⟩
  | .ok checked =>
    let c := checked.context
    ⟨c.isOk, c.errors.map fun e => complaint file (.ofSemanticError file e),
      s!"{file.name}:\n{c.library.describe}"⟩

/-- The reports on all files, and how many there are and how many found something wrong. -/
def summarize (showSymbols : Bool) (reports : List FileReport) : Outcome :=
  let failed := (reports.filter fun r => !r.isOk).length
  let symbols := if showSymbols then String.join (reports.map FileReport.symbols) else ""
  { output := symbols ++ s!"Checked {reports.length} files, {failed} with errors\n"
    complaints := reports.flatMap FileReport.complaints
    status := if failed = 0 then 0 else 1 }

end FileReport

namespace Command

def lexFile (lexer : Lexer) (file : SourceFile) (json trivia : Bool) : Outcome :=
  let tokens := lexer.tokenize file.text
  let shown := if trivia then tokens else Token.significant tokens
  let records := TokenRecord.ofTokens file shown
  if json then { output := TokenRecord.jsonArray records ++ "\n" }
  else { output := .join ((TokenRecord.lines file records).map (· ++ "\n")) }

def parseFile (lexer : Lexer) (file : SourceFile) : Outcome :=
  match lexer.parse file with
  | .ok block => { output := block.tree.outline }
  | .error e => .failure [FileReport.complaint file (.ofParseError file e)]

variable {m : Type → Type} [Monad m]

/-- Carries out a command on a file, if that can be read. -/
def withFile (files : Files m) (path : String) (f : SourceFile → Outcome) : m Outcome := do
  match ← files.readSource path with
  | some file => return f file
  | none => return .failure [s!"Error reading {path}"]

def reportOn (lexer : Lexer) (files : Files m) (path : String) : m FileReport := do
  match ← files.readSource path with
  | some file => return .ofFile lexer file
  | none => return .unreadable path

def checkPath (lexer : Lexer) (files : Files m) (path : String) (showSymbols : Bool) :
    m Outcome := do
  if (← files.isFile path) || (← files.isDirectory path) then
    let reports ← (← files.collectSources path).mapM (reportOn lexer files)
    return FileReport.summarize showSymbols reports
  else return .failure [s!"Error: {path} does not exist"]

/-- A check without a path is one of the directory where it is run. -/
def run (lexer : Lexer) (files : Files m) : Command → m Outcome
  | .lex path json trivia => withFile files path fun file => lexFile lexer file json trivia
  | .parse path => withFile files path (parseFile lexer)
  | .check path symbols => checkPath lexer files (path.getD ".") symbols

end Command

variable {m : Type → Type} [Monad m]

/-- What the configuration makes of the lexer. -/
def Invocation.lexer? (i : Invocation) (config : Config) : Except ConfigError Lexer := do
  unless i.verbose || i.quiet do
    let _ ← config.logLevel
  return .ofVocabulary (← config.vocabulary)

def Invocation.run (files : Files m) (i : Invocation) : m Outcome := do
  match ← files.discoverConfig i.config with
  | .error e => return .failure [s!"Error loading config: {e.message}"]
  | .ok config =>
    match i.lexer? config with
    | .error e => return .failure [s!"Error: {e.message}"]
    | .ok lexer => i.command.run lexer files

def runArguments (files : Files m) (args : List String) : m Outcome :=
  match Invocation.parse args with
  | .error refusal => return .ofRefusal refusal
  | .ok invocation => invocation.run files

end Sable
