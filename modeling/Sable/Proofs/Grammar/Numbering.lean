import Sable.Proofs.Grammar.Soundness

/-!
# The numbers of nodes

A node draws its number when all of its children have theirs, and a rule that declines has drawn
none. So a parsed tree is numbered in postorder, and no number goes to a node that is not in it.

## Main definitions

* `Tree.InPostorder`: the numbers from 0 on, in postorder, and none but those of the nodes.

## Main statements

* `TokenStream.Advances.inPostorder`: what is read from the first number on.
* `parse_inPostorder`: parsed units and expressions.
-/
namespace Sable

namespace Tree

@[simp] theorem length_postorder (t : Tree) : t.postorder.length = t.size := by
  rw [← t.preorder_perm_postorder.length_eq, length_preorder]

theorem getLast?_postorder (t : Tree) : t.postorder.getLast? = some t.root := by
  cases t with
  | node n cs => rw [postorder, List.getLast?_concat, root]

/-- In postorder, the nodes have the numbers from 0 on, and `drawn` numbers were drawn for them. -/
structure InPostorder (t : Tree) (drawn : Nat) : Prop where
  ids_eq : t.postorder.map Node.id = List.range t.postorder.length
  nodup : (t.postorder.map Node.id).Nodup
  root_eq : t.id + 1 = t.postorder.length
  drawn_eq : drawn = t.postorder.length

end Tree

/-- A tree that is read with the first number at hand takes all the numbers that are drawn. -/
theorem TokenStream.Advances.inPostorder {s rest : TokenStream} {ts : List Token} {t : Tree}
    (h : s.Advances ts [t] rest) (hs : s.nextId = 0) : t.InPostorder rest.nextId := by
  have hsizes : Tree.sizes [t] = t.size := rfl
  have hids : t.postorder.map Node.id = List.range t.postorder.length := by
    have hall := h.ids_eq
    rwa [hsizes, hs, ← List.range_eq_range', Tree.postorders, Tree.postorders, List.append_nil,
      ← t.length_postorder] at hall
  refine ⟨hids, ?_, ?_, ?_⟩
  · rw [hids]
    exact List.nodup_range
  · -- The root is the last node, so its number is the last one of the range.
    have hlast := congrArg List.getLast? hids
    rw [List.getLast?_map, t.getLast?_postorder, List.getLast?_range] at hlast
    split at hlast
    · simp at hlast
    · next hpos =>
      have hroot : t.id = t.postorder.length - 1 := Option.some.inj hlast
      rw [hroot]
      exact Nat.succ_pred_eq_of_ne_zero hpos
  · rw [h.nextId_eq, hs, hsizes, Nat.zero_add, t.length_postorder]

/-- What a parse accepts is numbered in postorder. Behind the tree, `rest.nextId` numbers were drawn
on any path that was tried, and all of them are numbers of its nodes. -/
theorem parse_inPostorder (tokens : List Token) (source : String) :
    (∀ b, Block.parse tokens source = .ok b → ∃ rest,
      Grammar.block (.ofTokens (Token.significant tokens) source) = .accept b rest ∧
        b.tree.InPostorder rest.nextId) ∧
    ∀ e, Expr.parse tokens source = .ok e → ∃ rest,
      (Grammar.expression.required .expression) (.ofTokens (Token.significant tokens) source) =
        .accept e rest ∧ e.tree.InPostorder rest.nextId := by
  constructor
  · intro b h
    obtain ⟨rest, hb⟩ := Block.accept_of_parse h
    obtain ⟨⟨ts, -, hadv⟩, -⟩ := Grammar.block_phrases hb
    exact ⟨rest, hb, hadv.inPostorder rfl⟩
  · intro e h
    obtain ⟨rest, he, -⟩ := Expr.accept_of_parse h
    obtain ⟨ts, -, hadv⟩ := Grammar.yields_expression.required.advances he
    exact ⟨rest, he, hadv.inPostorder rfl⟩

/-- `fn f ( ) { a = - b ; }` and `( - a ) . c`: conditions and declarations are tried in vain before
the statement, and parentheses have no number. -/
theorem parse_inPostorder_negations :
    let name (text : String) : Token := ⟨.identifier, .dummy, some text⟩
    let sign (p : Punctuator) : Token := ⟨.punctuator p, .dummy, none⟩
    let unit : List Token := [⟨.keyword .fnWord, .dummy, none⟩, name "f", sign .openParen,
      sign .closeParen, sign .openBrace, name "a", sign .assign, sign .minus, name "b",
      sign .semicolon, sign .closeBrace, .eof 0 0]
    let expression : List Token := [sign .openParen, sign .minus, name "a", sign .closeParen,
      sign .dot, name "c", .eof 0 0]
    (∃ b rest, Block.parse unit "" = .ok b ∧ b.tree.InPostorder rest ∧ rest = 7) ∧
    ∃ e rest, Expr.parse expression "" = .ok e ∧ e.tree.InPostorder rest ∧ rest = 3 := by
  intro name sign unit expression
  have hunit : ((Block.parse unit "").map fun b => b.tree.size).toOption = some 7 := by
    decide +kernel
  have hexpression : ((Expr.parse expression "").map fun e => e.tree.size).toOption = some 3 := by
    decide +kernel
  constructor
  · cases hb : Block.parse unit "" with
    | error e => simp [hb, Except.map, Except.toOption] at hunit
    | ok b =>
      obtain ⟨rest, -, hrest⟩ := (parse_inPostorder unit "").1 b hb
      rw [hb] at hunit
      refine ⟨b, rest.nextId, rfl, hrest, ?_⟩
      rw [hrest.drawn_eq, Tree.length_postorder]
      exact Option.some.inj hunit
  · cases he : Expr.parse expression "" with
    | error e => simp [he, Except.map, Except.toOption] at hexpression
    | ok e =>
      obtain ⟨rest, -, hrest⟩ := (parse_inPostorder expression "").2 e he
      rw [he] at hexpression
      refine ⟨e, rest.nextId, rfl, hrest, ?_⟩
      rw [hrest.drawn_eq, Tree.length_postorder]
      exact Option.some.inj hexpression

end Sable
