import Sable.Proofs.Grammar.Parallel

/-!
# The grammar in two texts

The rules of the grammar look at the kinds and the texts of tokens only, and at the values of
numbers. So in two texts with the same tokens they read the same tree.

## Main statements

* `Grammar.parallel_expression`, `Grammar.parallel_scope`, `Grammar.parallel_declaration`: each rule
  reads one tree in two texts.
* `Grammar.parallel_declarations`: and so for all declarations of a unit.
-/
namespace Sable

open Pairing

variable {K : Pairing}

namespace Pairing.Twins

theorem identSpan {x x' : Ident} (h : K.Twins x x') : K.Twins x.span x'.span :=
  h.map Ident.span fun _ _ => rfl

theorem typeSpan {x x' : WrittenType} (h : K.Twins x x') : K.Twins x.place.span x'.place.span :=
  h.map (fun t => t.place.span) fun _ _ => rfl

theorem exprSpan {x x' : Expr} (h : K.Twins x x') : K.Twins x.span x'.span :=
  h.map Expr.span fun φ e => e.move_span φ

end Pairing.Twins

namespace Grammar

open Rule

variable (h : K.Compatible)
include h

/-! ## Types -/

theorem parallel_writtenType : Parallel K 1 K.Twins writtenType writtenType := by
  refine .located h <| parallel_identifier.bind fun _ _ hname =>
    (parallel_punctuator .star).many.bind fun stars stars' hstars =>
      parallel_pure fun _ _ hplace => ?_
  rw [hstars.length_eq]
  exact (hplace.prod hname).map (fun x => WrittenType.mk x.1 x.2 stars'.length) fun _ _ => rfl

theorem parallel_annotatedType : Parallel K 1 K.Twins typeAnnotation typeAnnotation :=
  (parallel_punctuator .colon).bind fun _ _ _ => (parallel_writtenType h).required _

/-! ## Values -/

omit h in
theorem literalValue?_eq {s s' : TokenStream} {t t' : Token} (hs : s.Parallel K s')
    (ht : t.Parallel K t') : literalValue? s' t' = literalValue? s t := by
  have hnumber (hkind : t.kind = .integerLiteral ∨ t.kind = .floatLiteral) :
      s'.textOf t'.span = s.textOf t.span := by
    rw [TokenStream.textOf, TokenStream.textOf, hs.source_left, hs.source_right]
    exact ht.lexeme_eq hkind
  unfold literalValue?
  rw [ht.kind_eq, ht.text_eq]
  split
  · next hkind => rw [hnumber (.inl hkind)]
  · next hkind => rw [hnumber (.inr hkind)]
  · rfl
  · rfl
  · rfl

omit h in
theorem literalValue?_move {s : TokenStream} {t : Token} {v : Value}
    (hv : literalValue? s t = some v) (φ : Relocation) : v.move φ = v := by
  cases v with
  | identifier name =>
    simp only [literalValue?] at hv
    split at hv <;> simp_all [numberValue?]
  | _ => rfl

section

variable {s s' : TokenStream} {t t' : Token} (hs : s.Parallel K s') (ht : s.first? = some t)
include hs ht

theorem parallel_constant {v : Value} (hv : ∀ φ, v.move φ = v) :
    Reply.Parallel K 1 s K.Twins (constant v s) (constant v s') := by
  have hreaches : s.Reaches 1 s.tail := .tail ht
  have hplace := hs.tail.place (hs.spanSince h hs.tail hreaches)
  refine .accept (hplace.map (fun place => Expr.value place v) fun φ place => ?_) hs.tail.drawId
    ⟨hreaches.length_le, hreaches.start_add⟩
  exact congrArg (Expr.value _) (hv φ).symm

theorem parallel_literal (htt : t.Parallel K t') :
    Reply.Parallel K 1 s K.Twins (literal t s) (literal t' s') := by
  unfold literal
  rw [literalValue?_eq hs htt]
  cases hv : literalValue? s t with
  | none => exact .reject hs
  | some v => exact parallel_constant h hs ht (literalValue?_move hv)

end

theorem parallel_variableName : Parallel K 1 K.Twins variableName variableName :=
  .located h <| parallel_identifier.bind fun _ _ hname => parallel_pure fun _ _ hplace =>
    (hplace.prod hname).map (fun x => Expr.value x.1 (.identifier x.2)) fun _ _ => rfl

section

variable {nested nested' : Rule Expr} (hnested : Parallel K 1 K.Twins nested nested')
include hnested

omit h in
theorem parallel_grouped : Parallel K 1 K.Twins (grouped nested) (grouped nested') :=
  (parallel_punctuator .openParen).bind fun _ _ _ => (hnested.required _).bind fun _ _ he =>
    (parallel_expect .closeParen).bind fun _ _ _ => parallel_pure he

theorem parallel_value : Parallel K 1 K.Twins (value nested) (value nested') := by
  intro s s' hs
  unfold value
  rcases hs.first? with ⟨ht, ht'⟩ | ⟨t, t', ht, ht', htt⟩
  · rw [ht, ht']
    exact .decline hs
  · have hliteral := parallel_literal h hs ht htt
    rw [ht, ht']
    dsimp only
    rw [htt.kind_eq]
    generalize t.kind = kind
    split
    · exact hliteral
    · exact hliteral
    · exact hliteral
    · exact hliteral
    · exact parallel_constant h hs ht fun _ => rfl
    · exact parallel_constant h hs ht fun _ => rfl
    · exact parallel_constant h hs ht fun _ => rfl
    · exact parallel_variableName h hs
    · exact parallel_grouped hnested hs
    · exact .decline hs

/-! ## What follows an operand -/

section

variable {operand operand' : Expr} (hoperand : K.Twins operand operand')
include hoperand

omit hnested in
theorem parallel_access (kind : AccessKind) :
    Parallel K 1 K.Twins (access kind operand) (access kind operand') :=
  (parallel_punctuator _).bind fun _ _ _ => (parallel_identifier.required _).bind
    fun _ _ hmember => (parallel_numbered (hoperand.exprSpan.merge h hmember.identSpan)).bind
      fun _ _ hplace => parallel_pure <| (hplace.prod (hoperand.prod hmember)).map
        (fun x => Expr.access x.1 kind x.2.1 x.2.2) fun _ _ => rfl

theorem parallel_call : Parallel K 1 K.Twins (call nested operand) (call nested' operand') :=
  (parallel_punctuator _).bind fun _ _ _ => (hnested.commaList _).bind fun _ _ harguments =>
    (parallel_expect _).bind fun _ _ hclose =>
      (parallel_numbered (hoperand.exprSpan.merge h hclose.span)).bind fun _ _ hplace =>
        parallel_pure <| (hplace.prod (hoperand.prod (twins_of_forall₂ harguments))).map
          (fun x => Expr.call x.1 x.2.1 x.2.2) fun _ _ =>
            congrArg (Expr.call _ _) (Expr.moveAll_eq_map _ _).symm

omit hnested in
theorem parallel_cast : Parallel K 1 K.Twins (cast operand) (cast operand') :=
  (parallel_keyword _).bind fun _ _ _ => ((parallel_writtenType h).required _).bind
    fun _ _ htarget => (parallel_numbered (hoperand.exprSpan.merge h htarget.typeSpan)).bind
      fun _ _ hplace => parallel_pure <| (hplace.prod (hoperand.prod htarget)).map
        (fun x => Expr.cast x.1 x.2.1 x.2.2) fun _ _ => rfl

theorem parallel_index : Parallel K 1 K.Twins (index nested operand) (index nested' operand') :=
  (parallel_punctuator _).bind fun _ _ _ => (hnested.required _).bind fun _ _ hsubscript =>
    (parallel_expect _).bind fun _ _ hclose =>
      (parallel_numbered (hoperand.exprSpan.merge h hclose.span)).bind fun _ _ hplace =>
        parallel_pure <| (hplace.prod (hoperand.prod hsubscript)).map
          (fun x => Expr.index x.1 x.2.1 x.2.2) fun _ _ => rfl

theorem parallel_suffix : Parallel K 1 K.Twins (suffix nested operand) (suffix nested' operand') :=
  (parallel_access h hoperand .dot).orElse <| (parallel_access h hoperand .arrow).orElse <|
    (parallel_call h hnested hoperand).orElse <| (parallel_cast h hoperand).orElse <|
      parallel_index h hnested hoperand

end

theorem parallel_postfixed : Parallel K 1 K.Twins (postfixed nested) (postfixed nested') :=
  (parallel_value h hnested).bind fun _ _ hoperand =>
    parallel_iterate (fun _ _ => parallel_suffix h hnested) hoperand

/-! ## Operators -/

theorem parallel_unaryWithin {bound bound' : List Token} (hbound : bound.length = bound'.length) :
    Parallel K 1 K.Twins (unaryWithin nested bound) (unaryWithin nested' bound') := by
  induction bound generalizing bound' with
  | nil =>
    obtain rfl := List.length_eq_zero_iff.1 hbound.symm
    exact parallel_postfixed h hnested
  | cons _ bound ih =>
    obtain _ | ⟨_, bound'⟩ := bound'
    · simp at hbound
    refine .orElse (.located h ((parallel_operator _).bind (k := 1) ?_))
      (parallel_postfixed h hnested)
    rintro op _ rfl
    exact ((ih (Nat.succ.inj hbound)).required _).bind fun _ _ hoperand =>
      parallel_pure fun _ _ hplace =>
        (hplace.prod hoperand).map (fun x => Expr.unary x.1 op x.2) fun _ _ => rfl

theorem parallel_unary : Parallel K 1 K.Twins (unary nested) (unary nested') :=
  fun _ _ hs => parallel_unaryWithin h hnested hs.tokens.length_eq hs

omit hnested in
theorem parallel_binaryRest (p : BinaryOp → Bool) {operand operand' : Rule Expr}
    (hoperand : Parallel K 1 K.Twins operand operand') {left left' : Expr}
    (hleft : K.Twins left left') :
    Parallel K 1 K.Twins (binaryRest p operand left) (binaryRest p operand' left') := by
  refine (parallel_operator _).bind (k := 1) ?_
  rintro op _ rfl
  exact (hoperand.required _).bind fun _ _ hright =>
    (parallel_numbered (hleft.exprSpan.merge h hright.exprSpan)).bind fun _ _ hplace =>
      parallel_pure <| (hplace.prod (hleft.prod hright)).map
        (fun x => Expr.binary x.1 op x.2.1 x.2.2) fun _ _ => rfl

theorem parallel_binaryWithin (levels : Nat) :
    Parallel K 1 K.Twins (binaryWithin nested levels) (binaryWithin nested' levels) := by
  induction levels with
  | zero => exact parallel_unary h hnested
  | succ levels ih =>
    exact ih.bind fun _ _ hleft =>
      parallel_iterate (fun _ _ => parallel_binaryRest h _ ih) hleft

theorem parallel_assignment : Parallel K 1 K.Twins (assignment nested) (assignment nested') :=
  (parallel_binaryWithin h hnested _).bind fun _ _ hleft =>
    (parallel_binaryRest h _ hnested hleft).weaken.orElse (parallel_pure hleft)

end

theorem parallel_expressionWithin {bound bound' : List Token}
    (hbound : bound.length = bound'.length) :
    Parallel K 1 K.Twins (expressionWithin bound) (expressionWithin bound') := by
  induction bound generalizing bound' with
  | nil =>
    obtain rfl := List.length_eq_zero_iff.1 hbound.symm
    exact parallel_declines _
  | cons _ bound ih =>
    obtain _ | ⟨_, bound'⟩ := bound'
    · simp at hbound
    exact fun _ _ hs => parallel_assignment h (ih (Nat.succ.inj hbound)) hs

theorem parallel_expression : Parallel K 1 K.Twins expression expression :=
  fun _ _ hs => parallel_expressionWithin h hs.tokens.length_eq hs

/-! ## Statements -/

theorem parallel_variableDecl : Parallel K 1 K.Twins variableDecl variableDecl :=
  .located h <| (parallel_keyword _).bind fun _ _ _ =>
    (parallel_identifier.required _).bind fun _ _ hname =>
      ((parallel_annotatedType h).required _).bind fun _ _ htype =>
        (Parallel.bind (parallel_punctuator .assign)
          fun _ _ _ => (parallel_expression h).required _).optional.bind fun _ _ hvalue =>
            parallel_pure fun _ _ hplace =>
              (hplace.prod (hname.prod (htype.prod (twins_of_rel hvalue)))).map
                (fun x => VariableDecl.mk x.1 x.2.1 x.2.2.1 x.2.2.2) fun _ _ => rfl

theorem parallel_labelStmt : Parallel K 1 K.Twins labelStmt labelStmt :=
  .located h <| (parallel_keyword _).bind fun _ _ _ =>
    (parallel_identifier.required _).bind fun _ _ hname => parallel_pure fun _ _ hplace =>
      (hplace.prod hname).map (fun x => Stmt.label x.1 x.2) fun _ _ => rfl

theorem parallel_gotoStmt : Parallel K 1 K.Twins gotoStmt gotoStmt :=
  .located h <| (parallel_keyword _).bind fun _ _ _ =>
    (parallel_identifier.required _).bind fun _ _ hlabel => parallel_pure fun _ _ hplace =>
      (hplace.prod hlabel).map (fun x => Stmt.goto x.1 x.2) fun _ _ => rfl

theorem parallel_returnStmt : Parallel K 1 K.Twins returnStmt returnStmt :=
  .located h <| (parallel_keyword _).bind fun _ _ _ =>
    (parallel_expression h).optional.bind fun _ _ hvalue => parallel_pure fun _ _ hplace =>
      (hplace.prod (twins_of_rel hvalue)).map (fun x => Stmt.returns x.1 x.2) fun _ _ => rfl

theorem parallel_breakStmt : Parallel K 1 K.Twins breakStmt breakStmt :=
  .located h <| (parallel_keyword _).bind fun _ _ _ =>
    parallel_pure fun _ _ hplace => hplace.map Stmt.breakLoop fun _ _ => rfl

theorem parallel_continueStmt : Parallel K 1 K.Twins continueStmt continueStmt :=
  .located h <| (parallel_keyword _).bind fun _ _ _ =>
    parallel_pure fun _ _ hplace => hplace.map Stmt.continueLoop fun _ _ => rfl

theorem parallel_simpleStmt : Parallel K 1 K.Twins simpleStmt simpleStmt :=
  (parallel_labelStmt h).orElse <| (parallel_gotoStmt h).orElse <|
    (parallel_returnStmt h).orElse <| (parallel_breakStmt h).orElse <|
      (parallel_continueStmt h).orElse <|
        ((parallel_variableDecl h).mapTwins _ fun _ _ => rfl).orElse <|
          (parallel_expression h).mapTwins _ fun _ _ => rfl

theorem parallel_condition : Parallel K 1 K.Twins condition condition :=
  (parallel_expect _).bind fun _ _ _ => ((parallel_expression h).required _).bind
    fun _ _ he => (parallel_expect _).bind fun _ _ _ => parallel_pure he

section

variable {scope scope' : Rule Scope} {branch branch' : Rule Branch}
  (hscope : Parallel K 1 K.Twins scope scope') (hbranch : Parallel K 1 K.Twins branch branch')
include hscope

omit h in
include hbranch in
theorem parallel_otherwise :
    Parallel K 1 K.Twins (otherwise scope branch) (otherwise scope' branch') :=
  (parallel_keyword _).bind fun _ _ _ =>
    ((hbranch.mapTwins _ fun _ _ => rfl).orElse (hscope.mapTwins _ fun _ _ => rfl)).required _

include hbranch in
theorem parallel_branchOf :
    Parallel K 1 K.Twins (branchOf scope branch) (branchOf scope' branch') :=
  .located h <| (parallel_keyword _).bind fun _ _ _ =>
    (parallel_condition h).bind fun _ _ htest => (hscope.required _).bind fun _ _ hbody =>
      (parallel_otherwise hscope hbranch).optional.bind fun _ _ hrest =>
        parallel_pure fun _ _ hplace =>
          (hplace.prod (htest.prod (hbody.prod (twins_of_rel hrest)))).map
            (fun x => Branch.mk x.1 x.2.1 x.2.2.1 (x.2.2.2.getD .nothing))
            fun _ ⟨_, _, _, rest⟩ => by cases rest <;> rfl

theorem parallel_whileStmt : Parallel K 1 K.Twins (whileStmt scope) (whileStmt scope') :=
  .located h <| (parallel_keyword _).bind fun _ _ _ =>
    (parallel_condition h).bind fun _ _ htest => (hscope.required _).bind fun _ _ hbody =>
      parallel_pure fun _ _ hplace => (hplace.prod (htest.prod hbody)).map
        (fun x => Stmt.whileLoop x.1 x.2.1 x.2.2) fun _ _ => rfl

omit hscope in
theorem parallel_forInit : Parallel K 0 K.Twins forInit forInit :=
  ((parallel_variableDecl h).mapTwins _ fun _ _ => rfl).weaken.orElse <|
    ((parallel_expression h).mapTwins _ fun _ _ => rfl).weaken.orElse <|
      parallel_pure ⟨.nothing, fun _ _ _ => rfl, rfl, rfl⟩

theorem parallel_forStmt : Parallel K 1 K.Twins (forStmt scope) (forStmt scope') :=
  .located h <| (parallel_keyword _).bind fun _ _ _ => (parallel_expect _).bind
    fun _ _ _ => (parallel_forInit h).bind fun _ _ hinit => (parallel_expect _).bind
      fun _ _ _ => (parallel_expression h).optional.bind fun _ _ htest =>
        (parallel_expect _).bind fun _ _ _ => (parallel_expression h).optional.bind
          fun _ _ hstep => (parallel_expect _).bind fun _ _ _ => (hscope.required _).bind
            fun _ _ hbody => parallel_pure fun _ _ hplace =>
              (hplace.prod (hinit.prod ((twins_of_rel htest).prod
                ((twins_of_rel hstep).prod hbody)))).map
                (fun x => Stmt.forLoop x.1 x.2.1 x.2.2.1 x.2.2.2.1 x.2.2.2.2) fun _ _ => rfl

include hbranch in
theorem parallel_statementOf :
    Parallel K 1 K.Twins (statementOf scope branch) (statementOf scope' branch') :=
  (hbranch.mapTwins _ fun _ _ => rfl).orElse <| (parallel_whileStmt h hscope).orElse <|
    (parallel_forStmt h hscope).orElse <| (parallel_simpleStmt h).bind fun _ _ hs =>
      (parallel_expect _).bind fun _ _ _ => parallel_pure hs

end

theorem parallel_scopeOf {statement statement' : Rule Stmt}
    (hstatement : Parallel K 1 K.Twins statement statement') :
    Parallel K 1 K.Twins (scopeOf statement) (scopeOf statement') :=
  .located h <| (parallel_punctuator _).bind fun _ _ _ =>
    hstatement.many.bind fun _ _ hstatements => (parallel_expect _).bind fun _ _ _ =>
      parallel_pure fun _ _ hplace => (hplace.prod (twins_of_forall₂ hstatements)).map
        (fun x => Scope.mk x.1 x.2) fun _ _ =>
          congrArg (Scope.mk _) (Stmt.moveAll_eq_map _ _).symm

theorem parallel_scopeWithin_branchWithin {bound bound' : List Token}
    (hbound : bound.length = bound'.length) :
    Parallel K 1 K.Twins (scopeWithin bound) (scopeWithin bound') ∧
      Parallel K 1 K.Twins (branchWithin bound) (branchWithin bound') := by
  induction bound generalizing bound' with
  | nil =>
    obtain rfl := List.length_eq_zero_iff.1 hbound.symm
    exact ⟨parallel_declines _, parallel_declines _⟩
  | cons _ bound ih =>
    obtain _ | ⟨_, bound'⟩ := bound'
    · simp at hbound
    obtain ⟨hscope, hbranch⟩ := ih (Nat.succ.inj hbound)
    exact ⟨fun _ _ hs => parallel_scopeOf h (parallel_statementOf h hscope hbranch) hs,
      fun _ _ hs => parallel_branchOf h hscope hbranch hs⟩

theorem parallel_scope : Parallel K 1 K.Twins scope scope :=
  fun _ _ hs => (parallel_scopeWithin_branchWithin h hs.tokens.length_eq).1 hs

/-! ## Declarations -/

theorem parallel_parameter : Parallel K 1 K.Twins parameter parameter :=
  .located h <| parallel_identifier.bind fun _ _ hname =>
    ((parallel_annotatedType h).required _).bind fun _ _ htype =>
      parallel_pure fun _ _ hplace => (hplace.prod (hname.prod htype)).map
        (fun x => Parameter.mk x.1 x.2.1 x.2.2) fun _ _ => rfl

theorem parallel_functionDecl : Parallel K 1 K.Twins functionDecl functionDecl :=
  .located h <| (parallel_keyword _).bind fun _ _ _ =>
    (parallel_identifier.required _).bind fun _ _ hname => (parallel_expect _).bind fun _ _ _ =>
      ((parallel_parameter h).commaList _).bind fun _ _ hparameters =>
        (parallel_expect _).bind fun _ _ _ => (parallel_annotatedType h).optional.bind
          fun _ _ hreturns => ((parallel_scope h).required _).bind fun _ _ hbody =>
            parallel_pure fun _ _ hplace =>
              (hplace.prod (hname.prod ((twins_of_forall₂ hparameters).prod
                ((twins_of_rel hreturns).prod hbody)))).map
                (fun x => FunctionDecl.mk x.1 x.2.1 x.2.2.1 x.2.2.2.1 x.2.2.2.2) fun _ _ => rfl

theorem parallel_variableLine : Parallel K 1 K.Twins variableLine variableLine :=
  (parallel_variableDecl h).bind fun _ _ hd =>
    (parallel_expect _).bind fun _ _ _ => parallel_pure hd

theorem parallel_member : Parallel K 1 K.Twins member member :=
  ((parallel_variableLine h).mapTwins _ fun _ _ => rfl).orElse
    ((parallel_functionDecl h).mapTwins _ fun _ _ => rfl)

theorem parallel_classDecl : Parallel K 1 K.Twins classDecl classDecl :=
  .located h <| (parallel_keyword _).bind fun _ _ _ =>
    (parallel_identifier.required _).bind fun _ _ hname => (parallel_expect _).bind fun _ _ _ =>
      (parallel_member h).many.bind fun _ _ hmembers => (parallel_expect _).bind fun _ _ _ =>
        parallel_pure fun _ _ hplace =>
          (hplace.prod (hname.prod (twins_of_forall₂ hmembers))).map
            (fun x => ClassDecl.mk x.1 x.2.1 x.2.2) fun _ _ => rfl

theorem parallel_declaration : Parallel K 1 K.Twins declaration declaration :=
  ((parallel_classDecl h).mapTwins _ fun _ _ => rfl).orElse <|
    ((parallel_functionDecl h).mapTwins _ fun _ _ => rfl).orElse <|
      (parallel_variableLine h).mapTwins _ fun _ _ => rfl

theorem parallel_declarationsWithin {bound bound' : List Token}
    (hbound : bound.length = bound'.length) :
    Parallel K 0 K.Twins (declarationsWithin bound) (declarationsWithin bound') := by
  have hnil : K.Twins ([] : List Declaration) [] := twins_of_forall₂ .nil
  induction bound generalizing bound' with
  | nil =>
    obtain rfl := List.length_eq_zero_iff.1 hbound.symm
    exact parallel_pure hnil
  | cons _ bound ih =>
    obtain _ | ⟨_, bound'⟩ := bound'
    · simp at hbound
    intro s s' hs
    simp only [declarationsWithin]
    rw [hs.atEnd_eq]
    split
    · exact .accept hnil hs (.refl s)
    · have hreply := (parallel_declaration h).required .declaration hs
      generalize declaration.required .declaration s = a,
        declaration.required .declaration s' = a' at hreply
      cases hreply with
      | accept hd hrest hreaches =>
        exact ((ih (Nat.succ.inj hbound) hrest).behind hreaches.weaken).map fun _ _ hds =>
          (hd.prod hds).map (fun x => x.1 :: x.2) fun _ _ => rfl
      | decline hp => exact .decline hp
      | reject hp => exact .reject hp

theorem parallel_declarations : Parallel K 0 K.Twins declarations declarations :=
  fun _ _ hs => parallel_declarationsWithin h hs.tokens.length_eq hs

end Grammar

end Sable
