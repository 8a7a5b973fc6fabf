import Sable.Grammar.Expression
import Sable.Proofs.Grammar.Reading
import Sable.Token.Lexer

/-!
# Printing

A tree is printed as the words of its tokens with single blanks between them. There are no more
parentheses than the grammar needs: an operand stands in parentheses if it binds less tightly than
its place demands. One more pair is needed because a written type takes all stars behind it: the
left operand of a multiplication must not end in a cast.

Numbers may be spelled in many ways, so that printing depends on a choice of numerals.

## Main definitions

* `Lexeme`: a kind of token and a text.
* `Expr.level`: how tightly the outermost operator of an expression binds.
* `Expr.lexemes`, `Stmt.lexemes`, `Declaration.lexemes`, `Block.lexemes`: the printed tokens.
* `Block.text`: the printed text.
* `Expr.bare`, `Block.bare`: a tree without its places.
* `Lexeme.IsLexable`: the text, read as a whole, makes a token of the kind.
* `Block.Writable`: names and literals are those of tokens.

## Main statements

* `Expr.endsInCast_iff`: which expressions end in a cast can be seen from the tree.
-/
namespace Sable

/-! ## Words -/

structure Lexeme where
  kind : TokenKind
  text : String
  deriving DecidableEq, Inhabited

namespace Lexeme

def word (k : Keyword) : Lexeme := ⟨.keyword k, k.spelling⟩

def sign (p : Punctuator) : Lexeme := ⟨.punctuator p, p.spelling⟩

def name (name : Ident) : Lexeme := ⟨.identifier, name.name⟩

/-- Words with single blanks between them. -/
def spaced (ls : List Lexeme) : String := " ".intercalate (ls.map Lexeme.text)

/-- A comma in front of each of some lists of words. -/
def behindCommas (xs : List (List Lexeme)) : List Lexeme := xs.flatMap fun ls => sign .comma :: ls

/-- Lists of words with commas between them. -/
def commas : List (List Lexeme) → List Lexeme
  | [] => []
  | ls :: more => ls ++ behindCommas more

def parenthesized (parens : Bool) (ls : List Lexeme) : List Lexeme :=
  if parens then sign .openParen :: ls ++ [sign .closeParen] else ls

end Lexeme

open Lexeme

/-! ## Expressions -/

/-- What the left operand must bind at least as tightly as. -/
def BinaryOp.leftLevel (op : BinaryOp) : Nat := if op.isAssignment then 1 else op.precedence

/-- Assignments group to the right, the other operators to the left. -/
def BinaryOp.rightLevel (op : BinaryOp) : Nat := if op.isAssignment then 0 else op.precedence + 1

def UnaryOp.level : Nat := 6

/-- The level of what may be followed by a member, arguments, a cast or an index. -/
def Expr.postfixLevel : Nat := 7

def Value.level : Nat := 8

def Expr.level : Expr → Nat
  | .value .. => Value.level
  | .access .. | .call .. | .cast .. | .index .. => Expr.postfixLevel
  | .unary .. => UnaryOp.level
  | .binary _ op _ _ => op.precedence

/-- Whether the printed expression ends in the written type of a cast. -/
def Expr.endsInCast : Expr → Bool
  | .cast .. => true
  | .unary _ _ operand => !(operand.level < UnaryOp.level) && operand.endsInCast
  | .binary _ op _ right => !(right.level < op.rightLevel) && right.endsInCast
  | .value .. | .access .. | .call .. | .index .. => false

/-- The left operand needs parentheses if it binds too loosely, or if its last type would take the
star that follows. -/
def BinaryOp.parenthesizesLeft (op : BinaryOp) (left : Expr) : Bool :=
  left.level < op.leftLevel || op == .mul && left.endsInCast

def Value.lexeme (numeral : Value → String) : Value → Lexeme
  | .integer v => ⟨.integerLiteral, numeral (.integer v)⟩
  | .float v => ⟨.floatLiteral, numeral (.float v)⟩
  | .character lexeme => ⟨.characterLiteral, lexeme⟩
  | .string lexeme => ⟨.stringLiteral, lexeme⟩
  | .boolean true => word .trueWord
  | .boolean false => word .falseWord
  | .null => word .nullWord
  | .identifier name => .name name

def WrittenType.lexemes (t : WrittenType) : List Lexeme :=
  .name t.name :: List.replicate t.stars (sign .star)

mutual

def Expr.lexemes (numeral : Value → String) : Expr → List Lexeme
  | .value _ v => [v.lexeme numeral]
  | .unary _ op operand =>
    sign op.punctuator :: parenthesized (operand.level < UnaryOp.level) (operand.lexemes numeral)
  | .binary _ op left right =>
    parenthesized (op.parenthesizesLeft left) (left.lexemes numeral) ++ sign op.punctuator ::
      parenthesized (right.level < op.rightLevel) (right.lexemes numeral)
  | .access _ kind object member =>
    parenthesized (object.level < Expr.postfixLevel) (object.lexemes numeral) ++
      [sign kind.punctuator, .name member]
  | .call _ callee arguments =>
    parenthesized (callee.level < Expr.postfixLevel) (callee.lexemes numeral) ++
      sign .openParen :: commas (Expr.listLexemes numeral arguments) ++ [sign .closeParen]
  | .cast _ operand target =>
    parenthesized (operand.level < Expr.postfixLevel) (operand.lexemes numeral) ++
      word .asWord :: target.lexemes
  | .index _ target subscript =>
    parenthesized (target.level < Expr.postfixLevel) (target.lexemes numeral) ++
      sign .openBracket :: subscript.lexemes numeral ++ [sign .closeBracket]

def Expr.listLexemes (numeral : Value → String) : List Expr → List (List Lexeme)
  | [] => []
  | e :: es => e.lexemes numeral :: Expr.listLexemes numeral es

end

/-! ## Statements and declarations -/

section

variable (numeral : Value → String)

def Option.lexemes {α : Type} (lexemes : α → List Lexeme) : Option α → List Lexeme
  | none => []
  | some x => lexemes x

/-- A variable without the semicolon behind it. -/
def VariableDecl.lexemes (d : VariableDecl) : List Lexeme :=
  word .varWord :: .name d.name :: sign .colon :: d.type.lexemes ++
    Option.lexemes (fun e => sign .assign :: e.lexemes numeral) d.initializer

def Parameter.lexemes (d : Parameter) : List Lexeme :=
  .name d.name :: sign .colon :: d.type.lexemes

def ForInit.lexemes : ForInit → List Lexeme
  | .nothing => []
  | .variable d => d.lexemes numeral
  | .expr e => e.lexemes numeral

mutual

def Stmt.lexemes : Stmt → List Lexeme
  | .label _ name => [word .labelWord, .name name, sign .semicolon]
  | .goto _ label => [word .gotoWord, .name label, sign .semicolon]
  | .returns _ value =>
    word .returnWord :: Option.lexemes (Expr.lexemes numeral) value ++ [sign .semicolon]
  | .breakLoop _ => [word .breakWord, sign .semicolon]
  | .continueLoop _ => [word .continueWord, sign .semicolon]
  | .variable d => d.lexemes numeral ++ [sign .semicolon]
  | .expr e => e.lexemes numeral ++ [sign .semicolon]
  | .branch b => b.lexemes
  | .whileLoop _ condition body =>
    word .whileWord :: sign .openParen :: condition.lexemes numeral ++
      sign .closeParen :: body.lexemes
  | .forLoop _ init condition step body =>
    word .forWord :: sign .openParen :: init.lexemes numeral ++ sign .semicolon ::
      Option.lexemes (Expr.lexemes numeral) condition ++ sign .semicolon ::
      Option.lexemes (Expr.lexemes numeral) step ++ sign .closeParen :: body.lexemes

def Branch.lexemes : Branch → List Lexeme
  | .mk _ condition body otherwise =>
    word .ifWord :: sign .openParen :: condition.lexemes numeral ++
      sign .closeParen :: body.lexemes ++ otherwise.lexemes

def Otherwise.lexemes : Otherwise → List Lexeme
  | .nothing => []
  | .branch b => word .elseWord :: b.lexemes
  | .scope s => word .elseWord :: s.lexemes

def Scope.lexemes : Scope → List Lexeme
  | .mk _ statements => sign .openBrace :: Stmt.listLexemes statements ++ [sign .closeBrace]

def Stmt.listLexemes : List Stmt → List Lexeme
  | [] => []
  | s :: ss => s.lexemes ++ Stmt.listLexemes ss

end

def FunctionDecl.lexemes (d : FunctionDecl) : List Lexeme :=
  word .fnWord :: .name d.name :: sign .openParen :: commas (d.parameters.map Parameter.lexemes) ++
    sign .closeParen :: Option.lexemes (fun t => sign .colon :: t.lexemes) d.returns ++
    d.body.lexemes numeral

def Member.lexemes : Member → List Lexeme
  | .variable d => d.lexemes numeral ++ [sign .semicolon]
  | .function d => d.lexemes numeral

def ClassDecl.lexemes (d : ClassDecl) : List Lexeme :=
  word .classWord :: .name d.name :: sign .openBrace ::
    d.members.flatMap (Member.lexemes numeral) ++ [sign .closeBrace]

def Declaration.lexemes : Declaration → List Lexeme
  | .classDecl d => d.lexemes numeral
  | .function d => d.lexemes numeral
  | .variable d => d.lexemes numeral ++ [sign .semicolon]

def Block.lexemes (b : Block) : List Lexeme :=
  b.declarations.flatMap (Declaration.lexemes numeral)

def Block.text (b : Block) : String := spaced (b.lexemes numeral)

end

theorem Expr.listLexemes_eq_map (numeral : Value → String) (es : List Expr) :
    Expr.listLexemes numeral es = es.map (Expr.lexemes numeral) := by
  induction es with
  | nil => rfl
  | cons e es ih => rw [Expr.listLexemes, ih, List.map_cons]

theorem Stmt.listLexemes_eq_flatMap (numeral : Value → String) (ss : List Stmt) :
    Stmt.listLexemes numeral ss = ss.flatMap (Stmt.lexemes numeral) := by
  induction ss with
  | nil => rfl
  | cons s ss ih => rw [Stmt.listLexemes, ih, List.flatMap_cons]

theorem Lexeme.length_le_commas {ls : List Lexeme} {xs : List (List Lexeme)} (h : ls ∈ xs) :
    ls.length ≤ (commas xs).length := by
  have hbehind : ∀ xs : List (List Lexeme), ls ∈ xs → ls.length ≤ (behindCommas xs).length := by
    intro xs h
    induction xs with
    | nil => simp at h
    | cons ms xs ih =>
      simp only [behindCommas, List.flatMap_cons, List.length_append, List.length_cons] at ih ⊢
      rcases List.mem_cons.1 h with rfl | h
      · omega
      · have := ih h
        omega
  cases xs with
  | nil => simp at h
  | cons ms xs =>
    rw [commas, List.length_append]
    rcases List.mem_cons.1 h with rfl | h
    · omega
    · have := hbehind xs h
      omega

/-! ## Casts at the end -/

namespace Lexeme

/-- The last words are those of a cast. -/
def EndInCast (ls : List Lexeme) : Prop :=
  ∃ (before : List Lexeme) (t : WrittenType), ls = before ++ word .asWord :: t.lexemes

variable {l : Lexeme} {ls ms : List Lexeme}

theorem endInCast_cons (hl : l ≠ word .asWord) (h : EndInCast (l :: ls)) : EndInCast ls := by
  obtain ⟨before, t, h⟩ := h
  cases before with
  | nil => exact absurd (List.cons.inj h).1 hl
  | cons m before => exact ⟨before, t, (List.cons.inj h).2⟩

theorem EndInCast.append (h : EndInCast ms) (ls : List Lexeme) : EndInCast (ls ++ ms) := by
  obtain ⟨before, t, rfl⟩ := h
  exact ⟨ls ++ before, t, by simp⟩

/-- A cast reaches back over a sign only if nothing but stars is behind it. -/
theorem endInCast_of_append {p : Punctuator} (hms : ∃ m ∈ ms, m ≠ sign .star)
    (h : EndInCast (ls ++ sign p :: ms)) : EndInCast ms := by
  obtain ⟨before, t, h⟩ := h
  rcases List.append_eq_append_iff.1 h with ⟨between, -, hms'⟩ | ⟨between, -, hcast⟩
  · cases between with
    | nil => simp [sign, word] at hms'
    | cons m between => exact ⟨between, t, (List.cons.inj hms').2⟩
  · match between with
    | [] => simp [sign, word] at hcast
    | [m] => simp [WrittenType.lexemes, Lexeme.name, sign] at hcast
    | m :: m' :: between =>
      obtain ⟨m, hm, hne⟩ := hms
      simp only [WrittenType.lexemes, List.cons_append, List.cons.injEq] at hcast
      have hmem : m ∈ List.replicate t.stars (sign .star) := by simp only [hcast.2.2]; simp [hm]
      exact absurd (List.eq_of_mem_replicate hmem) hne

theorem not_endInCast_singleton : ¬EndInCast [l] := by
  rintro ⟨before, t, h⟩
  have hlen := congrArg List.length h
  simp only [WrittenType.lexemes, List.length_append, List.length_cons, List.length_nil] at hlen
  omega

/-- A cast ends in a name or a star. -/
theorem not_endInCast_concat (hl : l.kind ≠ .identifier) (hstar : l ≠ sign .star) :
    ¬EndInCast (ls ++ [l]) := by
  rintro ⟨before, t, h⟩
  have hlast := congrArg List.getLast? h
  rw [WrittenType.lexemes, List.getLast?_concat] at hlast
  cases hstars : t.stars with
  | zero =>
    simp [hstars] at hlast
    simp [hlast, Lexeme.name] at hl
  | succ n =>
    rw [hstars, List.replicate_succ', ← List.cons_append, ← List.cons_append,
      ← List.append_assoc, List.getLast?_concat] at hlast
    exact hstar (Option.some.inj hlast)

end Lexeme

theorem Lexeme.exists_mem_parenthesized_ne_star (parens : Bool) {ls : List Lexeme}
    (h : ∃ l ∈ ls, l ≠ sign .star) : ∃ l ∈ parenthesized parens ls, l ≠ sign .star := by
  obtain ⟨l, hl, hne⟩ := h
  cases parens with
  | false => exact ⟨l, hl, hne⟩
  | true => exact ⟨l, by simp [parenthesized, hl], hne⟩

theorem Expr.exists_mem_lexemes_ne_star (numeral : Value → String) (e : Expr) :
    ∃ l ∈ e.lexemes numeral, l ≠ sign .star := by
  cases e with
  | value _ v =>
    refine ⟨_, List.mem_singleton_self _, ?_⟩
    cases v with
    | boolean b => cases b <;> simp [Value.lexeme, sign, word]
    | _ => simp [Value.lexeme, sign, word, Lexeme.name]
  | unary _ op operand =>
    obtain ⟨l, hl, hne⟩ := exists_mem_parenthesized_ne_star (operand.level < UnaryOp.level)
      (operand.exists_mem_lexemes_ne_star numeral)
    exact ⟨l, List.mem_cons_of_mem _ hl, hne⟩
  | binary _ op left right =>
    obtain ⟨l, hl, hne⟩ := exists_mem_parenthesized_ne_star (op.parenthesizesLeft left)
      (left.exists_mem_lexemes_ne_star numeral)
    exact ⟨l, List.mem_append_left _ hl, hne⟩
  | access _ _ _ member =>
    exact ⟨.name member, by simp [Expr.lexemes], by simp [Lexeme.name, sign]⟩
  | call => exact ⟨sign .closeParen, by simp [Expr.lexemes], by simp [sign]⟩
  | cast => exact ⟨word .asWord, by simp [Expr.lexemes], by simp [word, sign]⟩
  | index => exact ⟨sign .closeBracket, by simp [Expr.lexemes], by simp [sign]⟩

theorem Expr.endsInCast_iff (numeral : Value → String) (e : Expr) :
    e.endsInCast = true ↔ EndInCast (e.lexemes numeral) := by
  have hparens : ∀ (parens : Bool) (e : Expr),
      (e.endsInCast = true ↔ EndInCast (e.lexemes numeral)) →
      ((!parens && e.endsInCast) = true ↔
        EndInCast (parenthesized parens (e.lexemes numeral))) := by
    intro parens e h
    cases parens with
    | false => simpa [parenthesized] using h
    | true =>
      simp only [Bool.not_true, Bool.false_and, Bool.false_eq_true, false_iff]
      exact not_endInCast_concat (by simp [sign]) (by simp [sign])
  match e with
  | .value _ v =>
    simp only [endsInCast, Bool.false_eq_true, false_iff]
    exact not_endInCast_singleton
  | .unary _ op operand =>
    rw [endsInCast, Expr.lexemes, hparens _ _ (operand.endsInCast_iff numeral)]
    exact ⟨fun h => h.append [_], endInCast_cons (by simp [sign, word])⟩
  | .binary _ op left right =>
    rw [endsInCast, Expr.lexemes, hparens _ _ (right.endsInCast_iff numeral)]
    refine ⟨fun h => ?_, endInCast_of_append ?_⟩
    · exact (h.append [_]).append _
    · exact exists_mem_parenthesized_ne_star _ (right.exists_mem_lexemes_ne_star numeral)
  | .access _ kind object member =>
    simp only [endsInCast, Bool.false_eq_true, false_iff]
    intro h
    refine not_endInCast_singleton (endInCast_of_append ?_ h)
    exact ⟨.name member, by simp, by simp [Lexeme.name, sign]⟩
  | .call .. | .index .. =>
    simp only [endsInCast, Bool.false_eq_true, false_iff]
    exact not_endInCast_concat (by simp [sign]) (by simp [sign])
  | .cast _ operand target =>
    simp only [endsInCast, true_iff]
    exact ⟨_, target, rfl⟩

/-! ## Trees without places -/

/-- The place of a node that was not read. -/
def Place.nowhere : Place := ⟨0, .dummy⟩

def Ident.bare (name : Ident) : Ident := ⟨name.name, .dummy⟩

def WrittenType.bare (t : WrittenType) : WrittenType := ⟨.nowhere, t.name.bare, t.stars⟩

def Value.bare : Value → Value
  | .identifier name => .identifier name.bare
  | v => v

mutual

/-- The expression without its numbers and spans. -/
@[simp] def Expr.bare : Expr → Expr
  | .value _ v => .value .nowhere v.bare
  | .unary _ op operand => .unary .nowhere op operand.bare
  | .binary _ op left right => .binary .nowhere op left.bare right.bare
  | .access _ kind object member => .access .nowhere kind object.bare member.bare
  | .call _ callee arguments => .call .nowhere callee.bare (Expr.listBare arguments)
  | .cast _ operand target => .cast .nowhere operand.bare target.bare
  | .index _ target subscript => .index .nowhere target.bare subscript.bare

def Expr.listBare : List Expr → List Expr
  | [] => []
  | e :: es => e.bare :: Expr.listBare es

end

def VariableDecl.bare (d : VariableDecl) : VariableDecl :=
  ⟨.nowhere, d.name.bare, d.type.bare, d.initializer.map Expr.bare⟩

def Parameter.bare (d : Parameter) : Parameter := ⟨.nowhere, d.name.bare, d.type.bare⟩

def ForInit.bare : ForInit → ForInit
  | .nothing => .nothing
  | .variable d => .variable d.bare
  | .expr e => .expr e.bare

mutual

@[simp] def Stmt.bare : Stmt → Stmt
  | .label _ name => .label .nowhere name.bare
  | .goto _ label => .goto .nowhere label.bare
  | .returns _ value => .returns .nowhere (value.map Expr.bare)
  | .breakLoop _ => .breakLoop .nowhere
  | .continueLoop _ => .continueLoop .nowhere
  | .variable d => .variable d.bare
  | .expr e => .expr e.bare
  | .branch b => .branch b.bare
  | .whileLoop _ condition body => .whileLoop .nowhere condition.bare body.bare
  | .forLoop _ init condition step body =>
    .forLoop .nowhere init.bare (condition.map Expr.bare) (step.map Expr.bare) body.bare

@[simp] def Branch.bare : Branch → Branch
  | .mk _ condition body otherwise => .mk .nowhere condition.bare body.bare otherwise.bare

@[simp] def Otherwise.bare : Otherwise → Otherwise
  | .nothing => .nothing
  | .branch b => .branch b.bare
  | .scope s => .scope s.bare

@[simp] def Scope.bare : Scope → Scope
  | .mk _ statements => .mk .nowhere (Stmt.listBare statements)

def Stmt.listBare : List Stmt → List Stmt
  | [] => []
  | s :: ss => s.bare :: Stmt.listBare ss

end

def FunctionDecl.bare (d : FunctionDecl) : FunctionDecl :=
  ⟨.nowhere, d.name.bare, d.parameters.map Parameter.bare, d.returns.map WrittenType.bare,
    d.body.bare⟩

def Member.bare : Member → Member
  | .variable d => .variable d.bare
  | .function d => .function d.bare

def ClassDecl.bare (d : ClassDecl) : ClassDecl :=
  ⟨.nowhere, d.name.bare, d.members.map Member.bare⟩

def Declaration.bare : Declaration → Declaration
  | .classDecl d => .classDecl d.bare
  | .function d => .function d.bare
  | .variable d => .variable d.bare

/-- The unit without its numbers and spans. -/
def Block.bare (b : Block) : Block := ⟨.nowhere, b.declarations.map Declaration.bare⟩

theorem Expr.listBare_eq_map (es : List Expr) : Expr.listBare es = es.map Expr.bare := by
  induction es with
  | nil => rfl
  | cons e es ih => rw [Expr.listBare, ih, List.map_cons]

theorem Stmt.listBare_eq_map (ss : List Stmt) : Stmt.listBare ss = ss.map Stmt.bare := by
  induction ss with
  | nil => rfl
  | cons s ss ih => rw [Stmt.listBare, ih, List.map_cons]

/-! ## What can be printed -/

/-- The lexer of the standard vocabulary. -/
@[irreducible]
def Lexer.standard : Lexer := .ofVocabulary .standard

/-- The whole text makes one token of the kind. -/
def Lexeme.IsLexable (l : Lexeme) : Prop :=
  Lexer.standard.readToken l.text.toList = some ⟨l.kind, l.text.utf8ByteSize⟩

/-- The value is printed as a token that denotes it. -/
def Value.IsSpelled (numeral : Value → String) (v : Value) : Prop :=
  (v.lexeme numeral).IsLexable ∧
    match v with
    | .integer _ | .float _ =>
      Grammar.numberValue? (v.lexeme numeral).kind (v.lexeme numeral).text.toList = some v
    | _ => True

/-- The names of a node are lexable as identifiers, and its value is spelled. -/
def Head.Writable (numeral : Value → String) (head : Head) : Prop :=
  (∀ name ∈ head.names, (Lexeme.name name).IsLexable) ∧
    ∀ v, head = .value v → v.IsSpelled numeral

def Tree.Writable (numeral : Value → String) (t : Tree) : Prop :=
  ∀ n ∈ t.preorder, n.head.Writable numeral

theorem Tree.writable_node {numeral : Value → String} {n : Node} {ts : List Tree} :
    (Tree.node n ts).Writable numeral ↔
      n.head.Writable numeral ∧ ∀ t ∈ ts, t.Writable numeral := by
  simp only [Tree.Writable, preorder, List.mem_cons, mem_preorders, forall_eq_or_imp]
  constructor
  · rintro ⟨hn, h⟩
    exact ⟨hn, fun t ht n hn => h n ⟨t, ht, hn⟩⟩
  · rintro ⟨hn, h⟩
    exact ⟨hn, fun n ⟨t, ht, hn⟩ => h t ht n hn⟩

def Block.Writable (numeral : Value → String) (b : Block) : Prop := b.tree.Writable numeral

end Sable
