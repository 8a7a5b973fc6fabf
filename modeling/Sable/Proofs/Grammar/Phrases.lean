import Mathlib.Computability.Language
import Sable.Grammar.Expression
import Sable.Proofs.Grammar.Accepting
import Sable.Proofs.Token.Tokenization
import Sable.Syntax.Tree

/-!
# The tokens of a tree

A tree tells which tokens it is made of, from left to right, in the order of the grammar. All that
it leaves open is how a number is written, and how many pairs of parentheses stand around an
expression. So a tree has a language of token lists, and these are put together like grammars: by
concatenation.

## Main definitions

* `Phrases.sign`, `Phrases.word`, `Ident.phrase`, `Value.phrases`: single tokens.
* `Phrases.grouped`: pairs of parentheses around.
* `Expr.phrases`, `Stmt.phrases`, `Declaration.phrases`, `Block.phrases`: the tokens of a tree.
-/
namespace Sable

/-- A set of token lists. -/
abbrev Phrases := Language Token

namespace Phrases

/-- One token that satisfies `p`. -/
def one (p : Token → Prop) : Phrases := fun ts => ∃ t, ts = [t] ∧ p t

def sign (p : Punctuator) : Phrases := one fun t => t.kind = .punctuator p

def word (k : Keyword) : Phrases := one fun t => t.kind = .keyword k

/-- Any number of pairs of parentheses around a phrase. -/
inductive InParens (L : Phrases) : List Token → Prop
  | bare {ts : List Token} (h : ts ∈ L) : InParens L ts
  | pair {ts : List Token} {opening closing : Token} (h : InParens L ts)
      (hopening : opening.kind = .punctuator .openParen)
      (hclosing : closing.kind = .punctuator .closeParen) :
      InParens L (opening :: ts ++ [closing])

def grouped (L : Phrases) : Phrases := InParens L

/-- Phrases one after another, with a comma in front of each but the first. -/
def commas : List Phrases → Phrases
  | [] => 1
  | L :: Ls => L * (Ls.map (sign .comma * ·)).prod

end Phrases

open Phrases

def Ident.phrase (name : Ident) : Phrases := one fun t => t = name.token

/-- The text of a float may have one `f` behind the number. -/
def Value.phrases (source : List Char) : Value → Phrases
  | .integer v => one fun t =>
    t.kind = .integerLiteral ∧ Number.int64? (t.lexeme source) = some v
  | .float v => one fun t => t.kind = .floatLiteral ∧ ∃ digits,
    (t.lexeme source = digits ∧ digits.getLast? ≠ some 'f' ∨ t.lexeme source = digits ++ ['f']) ∧
      Binary64.read? digits = some v
  | .character lexeme => one fun t => t.kind = .characterLiteral ∧ t.text = some lexeme
  | .string lexeme => one fun t => t.kind = .stringLiteral ∧ t.text = some lexeme
  | .boolean true => word .trueWord
  | .boolean false => word .falseWord
  | .null => word .nullWord
  | .identifier name => name.phrase

def WrittenType.phrases (t : WrittenType) : Phrases := t.name.phrase * sign .star ^ t.stars

mutual

/-- The tokens of an expression. -/
def Expr.phrases (source : List Char) : Expr → Phrases
  | .value _ v => grouped (v.phrases source)
  | .unary _ op operand => grouped (sign op.punctuator * operand.phrases source)
  | .binary _ op left right =>
    grouped (left.phrases source * sign op.punctuator * right.phrases source)
  | .access _ kind object member =>
    grouped (object.phrases source * sign kind.punctuator * member.phrase)
  | .call _ callee arguments =>
    grouped (callee.phrases source * sign .openParen * commas (Expr.listPhrases source arguments) *
      sign .closeParen)
  | .cast _ operand target =>
    grouped (operand.phrases source * word .asWord * target.phrases)
  | .index _ target subscript =>
    grouped (target.phrases source * sign .openBracket * subscript.phrases source *
      sign .closeBracket)

def Expr.listPhrases (source : List Char) : List Expr → List Phrases
  | [] => []
  | e :: es => e.phrases source :: Expr.listPhrases source es

end

/-- Nothing, or the phrases of what is there. -/
def Option.phrases {α : Type} (phrases : α → Phrases) : Option α → Phrases
  | none => 1
  | some x => phrases x

/-- A variable without the semicolon behind it. -/
def VariableDecl.phrases (source : List Char) (d : VariableDecl) : Phrases :=
  word .varWord * d.name.phrase * sign .colon * d.type.phrases *
    Option.phrases (fun e => sign .assign * e.phrases source) d.initializer

def Parameter.phrases (d : Parameter) : Phrases := d.name.phrase * sign .colon * d.type.phrases

def ForInit.phrases (source : List Char) : ForInit → Phrases
  | .nothing => 1
  | .variable d => d.phrases source
  | .expr e => e.phrases source

mutual

/-- The tokens of a statement, up to the semicolon or the brace that ends it. -/
def Stmt.phrases (source : List Char) : Stmt → Phrases
  | .label _ name => word .labelWord * name.phrase * sign .semicolon
  | .goto _ label => word .gotoWord * label.phrase * sign .semicolon
  | .returns _ value =>
    word .returnWord * Option.phrases (Expr.phrases source) value * sign .semicolon
  | .breakLoop _ => word .breakWord * sign .semicolon
  | .continueLoop _ => word .continueWord * sign .semicolon
  | .variable d => d.phrases source * sign .semicolon
  | .expr e => e.phrases source * sign .semicolon
  | .branch b => b.phrases source
  | .whileLoop _ condition body =>
    word .whileWord * sign .openParen * condition.phrases source * sign .closeParen *
      body.phrases source
  | .forLoop _ init condition step body =>
    word .forWord * sign .openParen * init.phrases source * sign .semicolon *
      Option.phrases (Expr.phrases source) condition * sign .semicolon *
      Option.phrases (Expr.phrases source) step * sign .closeParen * body.phrases source

def Branch.phrases (source : List Char) : Branch → Phrases
  | .mk _ condition body otherwise =>
    word .ifWord * sign .openParen * condition.phrases source * sign .closeParen *
      body.phrases source * otherwise.phrases source

def Otherwise.phrases (source : List Char) : Otherwise → Phrases
  | .nothing => 1
  | .branch b => word .elseWord * b.phrases source
  | .scope s => word .elseWord * s.phrases source

def Scope.phrases (source : List Char) : Scope → Phrases
  | .mk _ statements =>
    sign .openBrace * (Stmt.listPhrases source statements).prod * sign .closeBrace

def Stmt.listPhrases (source : List Char) : List Stmt → List Phrases
  | [] => []
  | s :: ss => s.phrases source :: Stmt.listPhrases source ss

end

def FunctionDecl.phrases (source : List Char) (d : FunctionDecl) : Phrases :=
  word .fnWord * d.name.phrase * sign .openParen *
    commas (d.parameters.map Parameter.phrases) * sign .closeParen *
    Option.phrases (fun t => sign .colon * t.phrases) d.returns * d.body.phrases source

def Member.phrases (source : List Char) : Member → Phrases
  | .variable d => d.phrases source * sign .semicolon
  | .function d => d.phrases source

def ClassDecl.phrases (source : List Char) (d : ClassDecl) : Phrases :=
  word .classWord * d.name.phrase * sign .openBrace *
    (d.members.map (Member.phrases source)).prod * sign .closeBrace

def Declaration.phrases (source : List Char) : Declaration → Phrases
  | .classDecl d => d.phrases source
  | .function d => d.phrases source
  | .variable d => d.phrases source * sign .semicolon

/-- The tokens of a unit. -/
def Block.phrases (source : List Char) (b : Block) : Phrases :=
  (b.declarations.map (Declaration.phrases source)).prod

/-! ## Lists of trees -/

theorem Expr.listPhrases_eq_map (source : List Char) (es : List Expr) :
    Expr.listPhrases source es = es.map (Expr.phrases source) := by
  induction es with
  | nil => rfl
  | cons e es ih => rw [Expr.listPhrases, ih, List.map_cons]

theorem Stmt.listPhrases_eq_map (source : List Char) (ss : List Stmt) :
    Stmt.listPhrases source ss = ss.map (Stmt.phrases source) := by
  induction ss with
  | nil => rfl
  | cons s ss ih => rw [Stmt.listPhrases, ih, List.map_cons]

namespace Phrases

/-! ## Membership -/

variable {A B : Phrases} {ts us : List Token} {t : Token}

theorem mem_one {p : Token → Prop} (h : p t) : [t] ∈ one p := ⟨t, rfl, h⟩

theorem mem_mul (hts : ts ∈ A) (hus : us ∈ B) : ts ++ us ∈ A * B :=
  Language.append_mem_mul hts hus

theorem nil_notMem_one (p : Token → Prop) : [] ∉ one p := by
  rintro ⟨t, h, -⟩
  simp at h

theorem ne_nil_of_mem_one {p : Token → Prop} {ts : List Token} (h : ts ∈ one p) : ts ≠ [] := by
  rintro rfl
  exact nil_notMem_one p h

theorem nil_notMem_word (k : Keyword) : [] ∉ word k := nil_notMem_one _

theorem nil_notMem_sign (p : Punctuator) : [] ∉ sign p := nil_notMem_one _

theorem nil_mem_mul : [] ∈ A * B ↔ [] ∈ A ∧ [] ∈ B := by
  simp [Language.mem_mul]

theorem mem_grouped (h : ts ∈ A) : ts ∈ grouped A := .bare h

end Phrases

end Sable
