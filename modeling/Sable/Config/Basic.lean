import Sable.Config.Level
import Sable.Token.Vocabulary
import Sable.Toml.Reader

/-!
# Configuration

A configuration respells the tables of the vocabulary and sets the log level. It is a document with
the groups `lexer` and `log`; whatever else stands in it has no meaning. Values are checked only
when they are used, so that a configuration with a bad table or level can be read.

## Main definitions

* `Config`: the settings.
* `Config.parse?`: reads the text of a configuration.
* `Config.vocabulary`, `Config.logLevel`: what the settings stand for.
-/
namespace Sable

structure Config where
  keywords : Option (List String) := none
  punctuators : Option (List String) := none
  level : String := "info"
  deriving DecidableEq, Inhabited

inductive ConfigError
  | unreadable (path : String)
  | malformed
  | vocabulary (e : VocabularyError)
  | logLevel (text : String)
  deriving DecidableEq, Inhabited

def ConfigError.message : ConfigError → String
  | .unreadable path => s!"failed to read config at {path}"
  | .malformed => "TOML parse error"
  | .vocabulary e => s!"invalid literal table: {e.message}"
  | .logLevel text => s!"invalid log level '{text}'"

namespace Config

/-- The settings of a group; a group that is not there has none. -/
def group? (document : Toml.Table) (name : String) (settings : List String) :
    Option Toml.Table :=
  match document.lookup name with
  | some value => value.group? settings
  | none => some []

/-- A setting that may be left out. -/
def setting? {α : Type} (group : Toml.Table) (name : String) (read : Toml.Value → Option α) :
    Option (Option α) :=
  match group.lookup name with
  | some value => (read value).map some
  | none => some none

def ofTable? (document : Toml.Table) : Option Config := do
  let lexer ← group? document "lexer" ["keywords", "symbols"]
  let log ← group? document "log" ["level"]
  let level ← setting? log "level" Toml.Value.string?
  return {
    keywords := ← setting? lexer "keywords" Toml.Value.strings?
    punctuators := ← setting? lexer "symbols" Toml.Value.strings?
    level := level.getD "info" }

def parse? (text : String) : Option Config := (Toml.Table.parse? text).bind ofTable?

/-- A table that the configuration leaves out has its standard spellings. -/
def vocabulary (c : Config) : Except ConfigError Vocabulary :=
  (Vocabulary.ofLists (c.keywords.getD Vocabulary.standard.keywords)
    (c.punctuators.getD Vocabulary.standard.punctuators)).mapError .vocabulary

def logLevel (c : Config) : Except ConfigError LogLevel :=
  match LogLevel.parse? c.level with
  | some level => .ok level
  | none => .error (.logLevel c.level)

end Config

end Sable
