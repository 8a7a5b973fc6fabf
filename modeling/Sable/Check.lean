import Sable.Analysis.Run
import Sable.Grammar.Parse
import Sable.Token.Lexer

/-!
# Checking a file

A file is checked by itself, against the library of the built-in types.

## Main definitions

* `SourceFile.check`: parses and analyzes a file.
* `Context.typedNodes`: the nodes with their types.
-/
namespace Sable

/-- A unit with the end of its analysis. -/
structure Checked where
  block : Block
  context : Context
  deriving Inhabited

def Lexer.parse (lexer : Lexer) (file : SourceFile) : Except ParseError Block :=
  Block.parse (lexer.tokenize file.text) file.text

/-- The symbols of the file go into a new library, which bears the name of the file. -/
def SourceFile.check (file : SourceFile) (lexer : Lexer) (core : Library) :
    Except ParseError Checked := do
  let block ← lexer.parse file
  return ⟨block, block.analyze [core] (.new (core.id + 1) file.name)⟩

/-- The nodes of a tree that have a resolved type, in preorder. -/
def Context.typedNodes (c : Context) (t : Tree) : List (Node × SymbolId) :=
  t.preorder.filterMap fun n => (c.annotations.resolvedTypes.get? n.id).map (n, ·)

end Sable
