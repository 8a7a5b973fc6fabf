import Sable.Proofs.Grammar.Numerals
import Sable.Proofs.Syntax.Outline
import Sable.Proofs.Typing.Parsed

/-!
# Outlines of parsed texts

Identifiers of the standard vocabulary have no line feeds, but between quotes any character may
stand for itself. So the outline of a parsed text has a line for each node, and one line more for
each line feed in a quoted literal of the text.

## Main definitions

* `TokenKind.isQuoted`: characters and strings.

## Main statements

* `Lexer.outline_lines`: the lines of an outline.
* `Lexer.outline_string`: a literal that takes two lines.
-/
namespace Sable

def TokenKind.isQuoted : TokenKind → Bool
  | .characterLiteral | .stringLiteral => true
  | _ => false

/-- The line feeds in the value of a literal. -/
def Literal.lineFeeds (l : Literal) : Nat := l.2.elim 0 Value.lineFeeds

namespace Lexer

variable {lexer : Lexer} {source : String} {tree : Tree} {n : Node} {t : Token}

/-! ## Names -/

/-- The names in a parsed tree are tokens. -/
theorem token_mem_of_parses (h : lexer.Parses source tree) (hn : n ∈ tree.preorder) {name : Ident}
    (hname : name ∈ n.head.names) : name.token ∈ lexer.tokenize source := by
  rcases h with ⟨b, h, rfl⟩ | ⟨e, h, rfl⟩
  · exact Block.token_mem_of_parse h (List.mem_flatMap.2 ⟨n, hn, hname⟩)
  · obtain ⟨rest, he, -⟩ := Expr.accept_of_parse h
    obtain ⟨ts, -, hadv⟩ := Grammar.yields_expression.required.advances he
    have htokens : Token.significant (lexer.tokenize source) = ts ++ rest.tokens := hadv.tokens_eq
    have hmem : name.token ∈ ts := by
      refine hadv.token_mem n ?_ name hname
      rw [Tree.postorders, Tree.postorders, List.append_nil]
      exact e.tree.preorder_perm_postorder.mem_iff.1 hn
    refine List.mem_of_mem_filter (p := fun t => !t.isTrivia) (show _ ∈ Token.significant _ from ?_)
    rw [htokens]
    exact List.mem_append_left _ hmem

theorem lineFeed_notMem_name (hlexer : lexer.vocabulary = .standard) {name : Ident}
    (h : name.token ∈ lexer.tokenize source) : '\n' ∉ name.name.toList := by
  obtain ⟨text, htext, hkind⟩ := exists_text_of_mem_tokenize h
  rw [hlexer, ← Automaton.standard_eq, Automaton.kindOf?_standard] at hkind
  rw [htext, String.toList_ofList]
  cases text with
  | nil => exact List.not_mem_nil
  | cons c rest =>
    obtain ⟨hc, hrest⟩ := Lexeme.cons_mem_chars_mul.1 hkind
    rw [List.mem_cons, not_or]
    refine ⟨?_, fun hmem => absurd (Lexeme.mem_kstar_chars.1 hrest _ hmem) (by decide)⟩
    rintro rfl
    exact absurd hc (by decide)

/-! ## Literals -/

/-- The line feeds in the caption of a node are those of its literal. -/
theorem lineFeeds_node (hnames : ∀ name ∈ n.head.names, '\n' ∉ name.name.toList) :
    n.lineFeeds = n.literal?.elim 0 Literal.lineFeeds := by
  rw [Node.lineFeeds, Head.count_caption hnames, Node.literal?]
  cases n.head with
  | value v => cases v <;> rfl
  | _ => rfl

theorem sum_lineFeeds {ns : List Node}
    (hnames : ∀ n ∈ ns, ∀ name ∈ n.head.names, '\n' ∉ name.name.toList) :
    (ns.map Node.lineFeeds).sum = ((ns.filterMap Node.literal?).map Literal.lineFeeds).sum := by
  induction ns with
  | nil => rfl
  | cons n ns ih =>
    rw [List.forall_mem_cons] at hnames
    rw [List.map_cons, List.sum_cons, lineFeeds_node hnames.1, ih hnames.2, List.filterMap_cons]
    cases n.literal? with
    | none => exact Nat.zero_add _
    | some l => rfl

theorem lineFeeds_number (kind : TokenKind) (text : List Char) :
    (Grammar.numberValue? kind text).elim 0 Value.lineFeeds = 0 := by
  cases kind with
  | integerLiteral =>
    rw [Grammar.numberValue?]
    cases Number.int64? text <;> rfl
  | floatLiteral =>
    simp only [Grammar.numberValue?]
    cases Binary64.read? (if text.getLast? = some 'f' then text.dropLast else text) <;> rfl
  | _ => rfl

/-- A literal token has the line feeds of its text if it is quoted, and none if it is a number. -/
theorem lineFeeds_token (ht : t ∈ lexer.tokenize source) (hliteral : t.kind.isLiteral = true) :
    Literal.lineFeeds (t.span, t.value? source.toList) =
      if t.kind.isQuoted then (t.lexeme source.toList).count '\n' else 0 := by
  obtain ⟨tokens, hcuts, htokens⟩ := lexer.exists_tokenize_eq source
  rw [htokens, List.mem_append, List.mem_singleton] at ht
  rcases ht with ht | rfl
  · have htext := hcuts.text_eq ht
    rw [Literal.lineFeeds, Token.value?, Grammar.literalValue?]
    cases hkind : t.kind with
    | integerLiteral | floatLiteral =>
      simp only [TokenKind.isQuoted, Bool.false_eq_true, if_false]
      exact lineFeeds_number _ _
    | characterLiteral | stringLiteral =>
      rw [hkind] at htext
      simp [htext, TokenKind.hasText, TokenKind.isLiteral, TokenKind.isQuoted, Value.lineFeeds]
    | _ => simp [hkind, TokenKind.isLiteral] at hliteral
  · simp [Token.eof, TokenKind.isLiteral] at hliteral

theorem sum_literals {ts : List Token} (hts : ts ⊆ lexer.tokenize source) :
    ((Token.literals source.toList ts).map Literal.lineFeeds).sum =
      ((ts.filter (·.kind.isQuoted)).map fun t => (t.lexeme source.toList).count '\n').sum := by
  induction ts with
  | nil => rfl
  | cons t ts ih =>
    rw [List.cons_subset] at hts
    have hrest := ih hts.2
    rw [Token.literals] at hrest ⊢
    rw [List.filter_cons, List.filter_cons]
    split
    · next hliteral =>
      rw [List.map_cons, List.map_cons, List.sum_cons, hrest, lineFeeds_token hts.1 hliteral]
      split
      · rw [List.map_cons, List.sum_cons]
      · exact Nat.zero_add _
    · next hliteral =>
      rw [hrest, if_neg fun hquoted => hliteral ?_]
      cases hkind : t.kind <;> simp [hkind, TokenKind.isQuoted, TokenKind.isLiteral] at hquoted ⊢

theorem sum_lineFeeds_of_parses (hlexer : lexer.vocabulary = .standard)
    (h : lexer.Parses source tree) : (tree.preorder.map Node.lineFeeds).sum =
      (((lexer.tokenize source).filter (·.kind.isQuoted)).map fun t =>
        (t.lexeme source.toList).count '\n').sum := by
  have hnames : ∀ n ∈ tree.preorder, ∀ name ∈ n.head.names, '\n' ∉ name.name.toList :=
    fun _ hn _ hname => lineFeed_notMem_name hlexer (token_mem_of_parses h hn hname)
  rw [sum_lineFeeds hnames, ← sum_literals (List.Subset.refl _), ← literals_of_parses h]
  rfl

/-- The outline of a text in the standard vocabulary has one line for each node, with its depth and
its kind, if no quoted literal of the text has a line feed, and only then: each of these line feeds
makes one line more. -/
theorem outline_lines (hlexer : lexer.vocabulary = .standard) (h : lexer.Parses source tree) :
    (tree.IsOutlinedBy (Text.lines tree.outline.toList) ↔ ∀ t ∈ lexer.tokenize source,
      t.kind.isQuoted = true → '\n' ∉ t.lexeme source.toList) ∧
    (Text.lines tree.outline.toList).length = tree.size +
      (((lexer.tokenize source).filter (·.kind.isQuoted)).map fun t =>
        (t.lexeme source.toList).count '\n').sum := by
  constructor
  · rw [Tree.isOutlinedBy_iff, sum_lineFeeds_of_parses hlexer h,
      List.sum_eq_zero_iff_forall_eq_nat, List.forall_mem_map]
    simp only [List.mem_filter, List.count_eq_zero, and_imp]
  · rw [Tree.length_lines_outline, sum_lineFeeds_of_parses hlexer h]

/-- `var p : Byte* = "a" + 1;` -/
theorem outline_lines_sum :
    let source := "var p : Byte* = \"a\" + 1;"
    ∃ tree, (default : Lexer).vocabulary = .standard ∧ (default : Lexer).Parses source tree ∧
      tree.IsOutlinedBy (Text.lines tree.outline.toList) ∧ tree.size = 6 := by
  intro source
  have hparse : (Block.parse ((default : Lexer).tokenize source) source).toOption.map
      (fun b => b.tree.size) = some 6 ∧ ∀ t ∈ (default : Lexer).tokenize source,
        t.kind.isQuoted = true → '\n' ∉ t.lexeme source.toList := by
    decide +kernel
  obtain ⟨b, hb, hsize⟩ := exists_of_toOption_map hparse.1
  have hparses : (default : Lexer).Parses source b.tree := .inl ⟨b, hb, rfl⟩
  exact ⟨b.tree, rfl, hparses, (outline_lines rfl hparses).1.2 hparse.2, hsize⟩

/-- A string may go over two lines, and so does its node: four nodes have five lines. -/
theorem outline_string :
    let source := "var s : Byte* = \"a\nb\";"
    ∃ tree, (default : Lexer).Parses source tree ∧ tree.size = 4 ∧
      (Text.lines tree.outline.toList).length = 5 ∧
      ¬tree.IsOutlinedBy (Text.lines tree.outline.toList) := by
  intro source
  have hparse : (Block.parse ((default : Lexer).tokenize source) source).toOption.map (fun b =>
      (b.tree.size, (Text.lines b.tree.outline.toList).length)) = some (4, 5) := by
    decide +kernel
  obtain ⟨b, hb, hlengths⟩ := exists_of_toOption_map hparse
  obtain ⟨hsize, hlines⟩ := Prod.mk.inj hlengths
  refine ⟨b.tree, .inl ⟨b, hb, rfl⟩, hsize, hlines, fun h => ?_⟩
  have hlength := h.length_eq
  omega

end Lexer

end Sable
