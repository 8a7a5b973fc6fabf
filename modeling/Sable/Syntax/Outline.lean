import Sable.Number.Decimal
import Sable.Syntax.Tree

/-!
# Outlines

An outline lists the nodes of a tree in preorder, one a line. A line is indented by two blanks for
each level of depth; it names the kind of the node and says what the node itself says.

## Main definitions

* `Head.caption`: what stands on the line of a node.
* `Tree.outline`: the whole listing.
-/
namespace Sable

def Value.render : Value → String
  | .integer v => toString v
  | .float v => v.render
  | .character lexeme | .string lexeme => lexeme
  | .boolean true => "true"
  | .boolean false => "false"
  | .null => "null"
  | .identifier name => name.name

/-- A written type with its stars. -/
def WrittenType.render (t : WrittenType) : String :=
  t.name.name ++ .ofList (List.replicate t.stars '*')

/-- What the line of a node says behind its kind. -/
def Head.detail? : Head → Option String
  | .classDecl name | .function name _ _ | .parameter name | .variable name | .label name
  | .goto name => some name.name
  | .type written => some written.render
  | .value v => some v.render
  | .unary op => some op.spelling
  | .binary op => some op.spelling
  | .access kind member => some (kind.spelling ++ member.name)
  | .block | .scope | .returns | .breakLoop | .continueLoop | .branch _ | .whileLoop
  | .forLoop .. | .call | .cast | .index => none

def Head.caption (h : Head) : String :=
  match h.detail? with
  | some text => h.kind.name ++ " " ++ text
  | none => h.kind.name

namespace Tree

def indentation (depth : Nat) : String := .ofList (List.replicate (2 * depth) ' ')

mutual

/-- The lines of a tree whose root is `depth` levels down. -/
def outlineLines (depth : Nat) : Tree → List String
  | .node n cs => (indentation depth ++ n.head.caption) :: outlinesLines (depth + 1) cs

def outlinesLines (depth : Nat) : List Tree → List String
  | [] => []
  | t :: ts => t.outlineLines depth ++ outlinesLines depth ts

end

/-- Every line ends in a line feed. -/
def outline (t : Tree) : String := .join ((t.outlineLines 0).map (· ++ "\n"))

end Tree

end Sable
