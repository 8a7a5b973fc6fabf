import Sable.Proofs.Grammar.Soundness
import Sable.Proofs.Typing.Nodes

/-!
# Spans nest

The tokens of a text lie side by side, so a parsed tree stands on them: each span goes from the start
of a token that means something to the end of one, it covers the spans of the children, and these
come one behind another. Only a unit without declarations stands on no token; its span is empty and
is where the end of input is.

## Main statements

* `parse_fits`: the spans of parsed units and expressions.
-/
namespace Sable

open Sable.Tree

/-- The tokens in front of the end of input come one behind another. -/
theorem Token.inOrder_tokenize (lexer : Lexer) (source : String) :
    InOrder (significant (beforeEof (lexer.tokenize source))) := by
  obtain ⟨tokens, hcuts, htokens⟩ := lexer.exists_tokenize_eq source
  rw [htokens, hcuts.covers.beforeEof_eq]
  exact hcuts.covers.tiles.inOrder.1.sublist List.filter_sublist

/-- A text at whose end one is from the start has no token that means something. -/
theorem TokenStream.first?_of_atEnd {lexer : Lexer} {source : String}
    (h : (ofTokens (Token.significant (lexer.tokenize source)) source).atEnd) :
    (ofTokens (Token.significant (lexer.tokenize source)) source).first? =
      some (.eof source.utf8ByteSize lexer.file) := by
  obtain ⟨tokens, hcuts, htokens⟩ := lexer.exists_tokenize_eq source
  have hsplit : Token.significant (lexer.tokenize source) =
      Token.significant tokens ++ [.eof source.utf8ByteSize lexer.file] := by
    rw [htokens, Token.significant, List.filter_append]
    rfl
  rw [hsplit] at h ⊢
  cases hts : Token.significant tokens with
  | nil => rfl
  | cons t ts =>
    have ht : t ∈ tokens := List.mem_of_mem_filter (hts ▸ List.mem_cons_self)
    simp only [hts, atEnd, firstKind?, first?, ofTokens, List.cons_append, List.head?_cons,
      Option.map_some] at h
    split at h
    · simp_all
    · next hkind => exact absurd (Option.some.inj hkind) (hcuts.covers.kind_ne_eof t ht)
    · simp at h

/-- What is read of a text stands on the tokens in front of the end of input. -/
theorem TokenStream.Advances.nests_tokenize {lexer : Lexer} {source : String} {ts : List Token}
    {t : Tree} {rest : TokenStream} (hend : rest.atEnd)
    (h : (ofTokens (Token.significant (lexer.tokenize source)) source).Advances ts [t] rest) :
    t.Nests (Token.significant (Token.beforeEof (lexer.tokenize source))) := by
  have hts : Token.significant (Token.beforeEof (lexer.tokenize source)) = ts := by
    rw [Token.significant_beforeEof]
    exact h.beforeEof_eq hend
  have horder := Token.inOrder_tokenize lexer source
  rw [hts] at horder ⊢
  exact allNest_singleton.1 (h.nests horder)

/-- Only at the end, a unit has no declarations. -/
theorem Grammar.span_block_of_nil {s rest : TokenStream} {b : Block}
    (h : block s = .accept b rest) (hb : b.declarations = []) :
    s.atEnd ∧ b.place.span = s.spanSince s := by
  obtain ⟨build, s', hbuild, rfl, rfl⟩ := Rule.located_eq_accept.1 h
  cases hds : declarationsWithin s.tokens s with
  | accept ds s'' =>
    rw [hds] at hbuild
    obtain ⟨rfl, rfl⟩ := Reply.accept.inj hbuild
    obtain rfl : ds = [] := hb
    cases htokens : s.tokens with
    | nil =>
      rw [htokens] at hds
      obtain ⟨-, rfl⟩ := Rule.pure_eq_accept.1 hds
      exact ⟨by simp [TokenStream.atEnd, TokenStream.firstKind?, TokenStream.first?, htokens], rfl⟩
    | cons t ts =>
      simp only [htokens, declarationsWithin] at hds
      split at hds
      · next hend =>
        obtain ⟨-, rfl⟩ := Reply.accept.inj hds
        exact ⟨hend, rfl⟩
      · split at hds
        · next d s₁ _ =>
          cases hrest : declarationsWithin ts s₁ with
          | accept ds s₂ => simp [hrest, Reply.map] at hds
          | decline p e => simp [hrest, Reply.map] at hds
          | reject p e => simp [hrest, Reply.map] at hds
        · simp at hds
        · simp at hds
  | decline p e => simp [hds, Reply.map] at hbuild
  | reject p e => simp [hds, Reply.map] at hbuild

namespace Block

variable {b : Block} {lexer : Lexer} {source : String}

/-- The span of a unit without declarations is where the end of input is. -/
theorem span_of_parse (h : Block.parse (lexer.tokenize source) source = .ok b)
    (hb : b.declarations = []) : b.place.span = .empty source.utf8ByteSize lexer.file := by
  obtain ⟨rest, hblock⟩ := Block.accept_of_parse h
  obtain ⟨hend, hspan⟩ := Grammar.span_block_of_nil hblock hb
  rw [hspan, TokenStream.spanSince, TokenStream.first?_of_atEnd hend, Nat.sub_self]
  rfl

/-- In a unit with declarations, every node fits. -/
theorem fits_of_parse (h : Block.parse (lexer.tokenize source) source = .ok b)
    (hb : b.declarations ≠ []) : ∀ t ∈ b.tree.subtrees,
      t.Fits (Token.significant (Token.beforeEof (lexer.tokenize source))) := by
  obtain ⟨ts, rest, -, hend, hadv⟩ := Block.parse_advances h
  refine (hadv.nests_tokenize hend).fits _ (Token.inOrder_tokenize lexer source) (fun _ hnil => ?_)
    fun n hn => ?_
  · exact hb (List.map_eq_nil_iff.1 hnil)
  · obtain ⟨t, ht, hn⟩ := mem_preorders.1 hn
    obtain ⟨d, -, rfl⟩ := List.mem_map.1 ht
    exact d.kind_ne_block n hn

end Block

/-- In an expression, every node fits. -/
theorem Expr.fits_of_parse {e : Expr} {lexer : Lexer} {source : String}
    (h : Expr.parse (lexer.tokenize source) source = .ok e) : ∀ t ∈ e.tree.subtrees,
      t.Fits (Token.significant (Token.beforeEof (lexer.tokenize source))) := by
  obtain ⟨ts, rest, -, hend, hadv⟩ := Expr.parse_advances h
  refine (hadv.nests_tokenize hend).fits _ (Token.inOrder_tokenize lexer source)
    (fun hroot => absurd hroot e.kind_root_ne_block) fun n hn => ?_
  refine (e.isInner n ?_).2.2.1
  cases htree : e.tree
  rw [htree] at hn
  exact List.mem_cons_of_mem _ hn

/-- The span of every node starts with a token that means something and ends with one, is not empty,
and covers those of the children, which come one behind another. Only the span of a unit without
declarations is empty. -/
theorem parse_fits (lexer : Lexer) (source : String) :
    (∀ b, Block.parse (lexer.tokenize source) source = .ok b →
      (b.declarations = [] → b.place.span = .empty source.utf8ByteSize lexer.file) ∧
      (b.declarations ≠ [] → ∀ t ∈ b.tree.subtrees,
        t.Fits (Token.significant (Token.beforeEof (lexer.tokenize source))))) ∧
    ∀ e, Expr.parse (lexer.tokenize source) source = .ok e → ∀ t ∈ e.tree.subtrees,
      t.Fits (Token.significant (Token.beforeEof (lexer.tokenize source))) :=
  ⟨fun _ h => ⟨Block.span_of_parse h, Block.fits_of_parse h⟩, fun _ h => Expr.fits_of_parse h⟩

/-- A variable whose value has a pair of parentheses, nothing at all, and a product of pairs. -/
theorem parse_fits_pairs :
    let unit := "var v : T = (a + b) * c;"
    let product := "(a + b) * (c)"
    let meaningful (source : String) : List Token :=
      Token.significant (Token.beforeEof ((default : Lexer).tokenize source))
    (∃ b, Block.parse ((default : Lexer).tokenize unit) unit = .ok b ∧ b.declarations ≠ [] ∧
      ∀ t ∈ b.tree.subtrees, t.Fits (meaningful unit)) ∧
    (∃ b, Block.parse ((default : Lexer).tokenize "") "" = .ok b ∧ b.declarations = [] ∧
      b.place.span = .empty 0 0) ∧
    ∃ e, Expr.parse ((default : Lexer).tokenize product) product = .ok e ∧
      ∀ t ∈ e.tree.subtrees, t.Fits (meaningful product) := by
  intro unit product meaningful
  have hrun :
      (Block.parse ((default : Lexer).tokenize unit) unit).toOption.map
        (fun b => b.declarations.isEmpty) = some false ∧
      (Block.parse ((default : Lexer).tokenize "") "").toOption.map
        (fun b => b.declarations.isEmpty) = some true ∧
      (Expr.parse ((default : Lexer).tokenize product) product).isOk = true := by
    decide +kernel
  obtain ⟨hunit, hnothing, hproduct⟩ := hrun
  obtain ⟨b, hb, hne⟩ := exists_of_toOption_map hunit
  obtain ⟨b', hb', hnil⟩ := exists_of_toOption_map hnothing
  obtain ⟨e, he⟩ := exists_of_isOk hproduct
  rw [List.isEmpty_eq_false_iff] at hne
  rw [List.isEmpty_iff] at hnil
  exact ⟨⟨b, hb, hne, ((parse_fits default unit).1 b hb).2 hne⟩,
    ⟨b', hb', hnil, ((parse_fits default "").1 b' hb').1 hnil⟩,
    e, he, (parse_fits default product).2 e he⟩

end Sable
