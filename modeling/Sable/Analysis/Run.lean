import Sable.Analysis.Binding
import Sable.Analysis.Declaring
import Sable.Analysis.Typing

/-!
# Analyses

An analysis takes a unit through four phases: it declares the classes, looks up the written types,
binds the other declarations, and gives the expressions their types. It ends with the library that
holds the symbols of the unit, whether or not there were errors.

## Main definitions

* `Block.analyze`: the state after all phases.
-/
namespace Sable

namespace Analyzing

def unit (b : Block) : Analyzing Unit := do
  modify fun c => { c with parents := .build b.tree }
  declareClasses b
  resolveTypes b.tree
  bindBlock b
  checkBlock b

end Analyzing

/-- Analyzes a unit against libraries into a target. -/
def Block.analyze (b : Block) (dependencies : List Library) (target : Library) : Context :=
  ((Analyzing.unit b).run (.start dependencies target)).2

def Context.isOk (c : Context) : Bool := c.errors.isEmpty

end Sable
