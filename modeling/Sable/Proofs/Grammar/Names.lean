import Mathlib.Algebra.BigOperators.Group.List.Basic
import Sable.Proofs.Grammar.Soundness

/-!
# The identifiers of a phrase

A tree says its names, and says each of them by an identifier of its own: the identifiers among the
tokens of a phrase are those of the names, up to their order.

## Main definitions

* `Tree.names`: the names in the nodes of a tree.
* `Phrases.Says`: the identifiers of the phrases are these names.

## Main statements

* `Block.says_phrases`: the identifiers of a unit.
-/
namespace Sable

open Phrases

/-! ## Names of trees -/

namespace Tree

def names (t : Tree) : List Ident := t.preorder.flatMap fun n => n.head.names

theorem names_node (n : Node) (ts : List Tree) :
    (node n ts).names = n.head.names ++ ts.flatMap names := by
  rw [names, preorder, List.flatMap_cons, preorders_eq_flatMap, List.flatMap_assoc]
  rfl

end Tree

open Sable.Tree

/-! ## Languages -/

/-- The identifiers of the phrases are those of the names, in some order. -/
def Phrases.Says (L : Phrases) (names : List Ident) : Prop :=
  ∀ ts ∈ L, (ts.filter fun t => t.kind == .identifier).Perm (names.map Ident.token)

namespace Phrases

variable {A B : Phrases} {names names' : List Ident}

theorem Says.perm (h : A.Says names) (hnames : names.Perm names') : A.Says names' :=
  fun ts hts => (h ts hts).trans (hnames.map _)

theorem says_one {p : Token → Prop} (hp : ∀ t, p t → t.kind ≠ .identifier) : (one p).Says [] := by
  rintro _ ⟨t, rfl, ht⟩
  simp [hp t ht]

theorem says_sign (p : Punctuator) : (sign p).Says [] := says_one fun t ht => by simp [ht]

theorem says_word (k : Keyword) : (word k).Says [] := says_one fun t ht => by simp [ht]

theorem says_nothing : Says 1 [] := by
  intro ts hts
  obtain rfl : ts = [] := by simpa [Language.mem_one] using hts
  simp

theorem Says.mul (hA : A.Says names) (hB : B.Says names') : (A * B).Says (names ++ names') := by
  intro ts hts
  obtain ⟨us, hus, vs, hvs, rfl⟩ := Language.mem_mul.1 hts
  rw [List.filter_append, List.map_append]
  exact (hA us hus).append (hB vs hvs)

/-- In front of a phrase without names. -/
theorem Says.mul_silent (hA : A.Says names) (hB : B.Says []) : (A * B).Says names := by
  simpa using hA.mul hB

theorem Says.silent_mul (hA : A.Says []) (hB : B.Says names) : (A * B).Says names := hA.mul hB

theorem Says.pow (hA : A.Says []) (n : Nat) : (A ^ n).Says [] := by
  induction n with
  | zero =>
    rw [pow_zero]
    exact says_nothing
  | succ n ih =>
    rw [pow_succ]
    exact ih.mul hA

theorem Says.grouped (hA : A.Says names) : (grouped A).Says names := by
  intro ts hts
  induction hts with
  | bare h => exact hA _ h
  | @pair ts opening closing _ hopening hclosing ih =>
    simpa [List.filter_cons, List.filter_append, hopening, hclosing] using ih

theorem Says.prod {Ls : List Phrases} {namess : List (List Ident)}
    (h : List.Forall₂ Says Ls namess) : Ls.prod.Says namess.flatten := by
  induction h with
  | nil => exact says_nothing
  | cons h _ ih =>
    rw [List.prod_cons, List.flatten_cons]
    exact h.mul ih

theorem Says.commas {Ls : List Phrases} {namess : List (List Ident)}
    (h : List.Forall₂ Says Ls namess) : (commas Ls).Says namess.flatten := by
  cases h with
  | nil => exact says_nothing
  | cons h hs =>
    rw [Phrases.commas, List.flatten_cons]
    refine h.mul (Says.prod ?_)
    rw [List.forall₂_map_left_iff]
    exact hs.imp fun _ _ h => (says_sign .comma).silent_mul h

theorem forall₂_phrases {α : Type} {L : α → Phrases} {names : α → List Ident} (xs : List α)
    (h : ∀ x ∈ xs, (L x).Says (names x)) : List.Forall₂ Says (xs.map L) (xs.map names) := by
  rw [List.forall₂_map_left_iff, List.forall₂_map_right_iff, List.forall₂_same]
  exact h

end Phrases

/-! ## Expressions -/

theorem Ident.says_phrase (name : Ident) : name.phrase.Says [name] := by
  rintro _ ⟨t, rfl, rfl⟩
  simp [Ident.token]

theorem WrittenType.says_phrases (t : WrittenType) : t.phrases.Says t.tree.names :=
  (t.name.says_phrase).mul_silent ((says_sign .star).pow t.stars)

theorem Value.says_phrases (source : List Char) (v : Value) :
    (v.phrases source).Says (Head.value v).names := by
  cases v with
  | identifier name => exact name.says_phrase
  | integer | float | character | string => exact says_one fun t ht => by simp [ht.1]
  | null => exact says_word _
  | boolean value => cases value <;> exact says_word _

variable {source : List Char}

mutual

theorem Expr.says_phrases : (e : Expr) → (e.phrases source).Says e.tree.names
  | .value _ v => by
    rw [Expr.tree, names_node, List.flatMap_nil, List.append_nil]
    exact (v.says_phrases source).grouped
  | .unary _ op operand => by
    simpa [Expr.phrases, Expr.tree, names_node, Head.names]
      using ((says_sign op.punctuator).silent_mul operand.says_phrases).grouped
  | .binary _ op left right => by
    simpa [Expr.phrases, Expr.tree, names_node, Head.names]
      using ((left.says_phrases.mul_silent (says_sign op.punctuator)).mul
        right.says_phrases).grouped
  | .access _ kind object member => by
    have h := ((object.says_phrases.mul_silent (says_sign kind.punctuator)).mul
      member.says_phrase).grouped
    refine h.perm ?_
    simp [Expr.tree, names_node, Head.names]
  | .call _ callee arguments => by
    simpa [Expr.phrases, Expr.tree, names_node, Head.names, List.flatMap_def]
      using (((callee.says_phrases.mul_silent (says_sign .openParen)).mul
        (Says.commas (Expr.says_listPhrases arguments))).mul_silent (says_sign .closeParen)).grouped
  | .cast _ operand target => by
    simpa [Expr.phrases, Expr.tree, names_node, Head.names]
      using ((operand.says_phrases.mul_silent (says_word .asWord)).mul target.says_phrases).grouped
  | .index _ target subscript => by
    simpa [Expr.phrases, Expr.tree, names_node, Head.names]
      using (((target.says_phrases.mul_silent (says_sign .openBracket)).mul
        subscript.says_phrases).mul_silent (says_sign .closeBracket)).grouped

theorem Expr.says_listPhrases : (es : List Expr) →
    List.Forall₂ Says (Expr.listPhrases source es) ((Expr.trees es).map names)
  | [] => .nil
  | e :: es => .cons e.says_phrases (Expr.says_listPhrases es)

end

theorem Option.says_phrases {α : Type} {L : α → Phrases} {T : α → List Tree} (x : Option α)
    (h : ∀ y, (L y).Says ((T y).flatMap names)) :
    (Option.phrases L x).Says ((x.toList.flatMap T).flatMap names) := by
  cases x with
  | none => exact says_nothing
  | some y => simpa [Option.phrases] using h y

theorem Expr.says_option (e : Option Expr) :
    (Option.phrases (Expr.phrases source) e).Says ((Expr.optionTrees e).flatMap names) := by
  rw [Expr.optionTrees, List.map_eq_flatMap]
  exact Option.says_phrases e fun e => by simpa using e.says_phrases

/-! ## Statements -/

theorem VariableDecl.says_phrases (d : VariableDecl) : (d.phrases source).Says d.tree.names := by
  have hinit : (Option.phrases (fun e => sign .assign * e.phrases source) d.initializer).Says
      ((Expr.optionTrees d.initializer).flatMap names) := by
    rw [Expr.optionTrees, List.map_eq_flatMap]
    exact Option.says_phrases _ fun e => by
      simpa using (says_sign .assign).silent_mul e.says_phrases
  simpa [VariableDecl.phrases, VariableDecl.tree, names_node, Head.names]
    using (((((says_word .varWord).silent_mul d.name.says_phrase).mul_silent
      (says_sign .colon)).mul d.type.says_phrases).mul hinit)

theorem Parameter.says_phrases (d : Parameter) : d.phrases.Says d.tree.names := by
  simpa [Parameter.phrases, Parameter.tree, names_node, Head.names]
    using (d.name.says_phrase.mul_silent (says_sign .colon)).mul d.type.says_phrases

theorem ForInit.says_phrases (init : ForInit) :
    (init.phrases source).Says (init.trees.flatMap names) := by
  match init with
  | .nothing => exact says_nothing
  | .variable d => simpa [ForInit.phrases, ForInit.trees] using d.says_phrases
  | .expr e => simpa [ForInit.phrases, ForInit.trees] using e.says_phrases

mutual

theorem Stmt.says_phrases : (s : Stmt) → (s.phrases source).Says s.tree.names
  | .label _ name =>
    ((says_word .labelWord).silent_mul name.says_phrase).mul_silent (says_sign .semicolon)
  | .goto _ label =>
    ((says_word .gotoWord).silent_mul label.says_phrase).mul_silent (says_sign .semicolon)
  | .returns _ value => by
    simpa [Stmt.phrases, Stmt.tree, names_node, Head.names]
      using ((says_word .returnWord).silent_mul (Expr.says_option value)).mul_silent
        (says_sign .semicolon)
  | .breakLoop _ => (says_word .breakWord).mul (says_sign .semicolon)
  | .continueLoop _ => (says_word .continueWord).mul (says_sign .semicolon)
  | .variable d => d.says_phrases.mul_silent (says_sign .semicolon)
  | .expr e => e.says_phrases.mul_silent (says_sign .semicolon)
  | .branch b => b.says_phrases
  | .whileLoop _ condition body => by
    simpa [Stmt.phrases, Stmt.tree, names_node, Head.names]
      using ((((says_word .whileWord).mul (says_sign .openParen)).silent_mul
        condition.says_phrases).mul_silent (says_sign .closeParen)).mul body.says_phrases
  | .forLoop _ init condition step body => by
    simpa [Stmt.phrases, Stmt.tree, names_node, Head.names]
      using ((((((((says_word .forWord).mul (says_sign .openParen)).silent_mul
        init.says_phrases).mul_silent (says_sign .semicolon)).mul
        (Expr.says_option condition)).mul_silent (says_sign .semicolon)).mul
        (Expr.says_option step)).mul_silent (says_sign .closeParen)).mul body.says_phrases

theorem Branch.says_phrases : (b : Branch) → (b.phrases source).Says b.tree.names
  | .mk _ condition body otherwise => by
    simpa [Branch.phrases, Branch.tree, names_node, Head.names]
      using (((((says_word .ifWord).mul (says_sign .openParen)).silent_mul
        condition.says_phrases).mul_silent (says_sign .closeParen)).mul body.says_phrases).mul
        otherwise.says_phrases

theorem Otherwise.says_phrases : (o : Otherwise) →
    (o.phrases source).Says (o.trees.flatMap names)
  | .nothing => says_nothing
  | .branch b => by
    simpa [Otherwise.phrases, Otherwise.trees] using (says_word .elseWord).silent_mul b.says_phrases
  | .scope s => by
    simpa [Otherwise.phrases, Otherwise.trees] using (says_word .elseWord).silent_mul s.says_phrases

theorem Scope.says_phrases : (s : Scope) → (s.phrases source).Says s.tree.names
  | .mk _ statements => by
    simpa [Scope.phrases, Scope.tree, names_node, Head.names, List.flatMap_def]
      using ((says_sign .openBrace).silent_mul
        (Says.prod (Stmt.says_listPhrases statements))).mul_silent (says_sign .closeBrace)

theorem Stmt.says_listPhrases : (ss : List Stmt) →
    List.Forall₂ Says (Stmt.listPhrases source ss) ((Stmt.trees ss).map names)
  | [] => .nil
  | s :: ss => .cons s.says_phrases (Stmt.says_listPhrases ss)

end

/-! ## Declarations -/

theorem FunctionDecl.says_phrases (d : FunctionDecl) : (d.phrases source).Says d.tree.names := by
  have hparameters := Says.commas
    (forall₂_phrases d.parameters fun p _ => p.says_phrases)
  have hreturns : (Option.phrases (fun t => sign .colon * t.phrases) d.returns).Says
      ((d.returns.toList.map WrittenType.tree).flatMap names) := by
    rw [List.map_eq_flatMap]
    exact Option.says_phrases _ fun t => by simpa using (says_sign .colon).silent_mul t.says_phrases
  simpa [FunctionDecl.phrases, FunctionDecl.tree, names_node, Head.names, List.flatMap_def,
    Function.comp_def]
    using ((((((says_word .fnWord).silent_mul d.name.says_phrase).mul_silent
      (says_sign .openParen)).mul hparameters).mul_silent (says_sign .closeParen)).mul
      hreturns).mul d.body.says_phrases

theorem Member.says_phrases (m : Member) : (m.phrases source).Says m.tree.names := by
  match m with
  | .variable d => exact d.says_phrases.mul_silent (says_sign .semicolon)
  | .function d => exact d.says_phrases

theorem ClassDecl.says_phrases (d : ClassDecl) : (d.phrases source).Says d.tree.names := by
  have hmembers := Says.prod (forall₂_phrases (L := Member.phrases source) d.members fun m _ =>
    m.says_phrases)
  simpa [ClassDecl.phrases, ClassDecl.tree, names_node, Head.names, List.flatMap_def,
    Function.comp_def]
    using ((((says_word .classWord).silent_mul d.name.says_phrase).mul_silent
      (says_sign .openBrace)).mul hmembers).mul_silent (says_sign .closeBrace)

theorem Declaration.says_phrases (d : Declaration) : (d.phrases source).Says d.tree.names := by
  match d with
  | .classDecl d => exact d.says_phrases
  | .function d => exact d.says_phrases
  | .variable d => exact d.says_phrases.mul_silent (says_sign .semicolon)

/-- The identifiers of a unit are its names. -/
theorem Block.says_phrases (b : Block) : (b.phrases source).Says b.tree.names := by
  have hall := Says.prod
    (forall₂_phrases (L := Declaration.phrases source) b.declarations fun d _ => d.says_phrases)
  simpa [Block.phrases, Block.tree, names_node, Head.names, List.flatMap_def, Function.comp_def]
    using hall

end Sable
