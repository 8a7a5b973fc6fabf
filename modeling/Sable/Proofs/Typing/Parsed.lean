import Sable.Proofs.Automaton.Identifiers
import Sable.Proofs.Grammar.Names
import Sable.Proofs.Grammar.Soundness
import Sable.Proofs.Token.StandardLexemes
import Sable.Proofs.Typing.Nodes

/-!
# Units that are parsed

A parse numbers all nodes one after another. The names are identifiers, so that none of them looks
like the name of a pointer type or of a function type. Only where no sign begins with a star may a
star alone be a name.

## Main statements

* `Block.numbered_of_parse`: the nodes of a parsed unit have numbers of their own.
* `Block.named_of_parse`: the names of a unit in any vocabulary.
* `Block.regular_of_parse`: the names of a unit that is written in the standard vocabulary.
-/
namespace Sable

open Automaton Lexeme
open scoped Computability

/-- Letters, digits and underscores are no signs of types. -/
theorem isPlainName_ofList {c : Char} {rest : List Char} (hrest : rest ∈ (chars isWordChar)∗)
    (hstar : c = '*' → rest ≠ []) : IsPlainName (.ofList (c :: rest)) := by
  have hword := mem_kstar_chars.1 hrest
  rw [IsPlainName, String.toList_ofList, List.tail_cons]
  refine ⟨fun hlast => ?_, fun hmem => absurd (hword _ hmem) (by decide)⟩
  rcases List.eq_nil_or_concat rest with rfl | ⟨rest, d, rfl⟩
  · exact hstar (Option.some.inj hlast) rfl
  · rw [List.concat_eq_append, ← List.cons_append, List.getLast?_concat] at hlast
    obtain rfl := Option.some.inj hlast
    exact absurd (hword '*' (by simp)) (by decide)

namespace Lexer

variable {lexer : Lexer} {source : String}

theorem reclassify_eq_identifier {kind : TokenKind} {text : String}
    (h : lexer.reclassify kind text = .identifier) : kind = .identifier := by
  unfold reclassify at h
  split at h
  · rfl
  · exact h

/-- The automaton takes the whole text of an identifier for one. -/
theorem kindOf?_of_readToken {text rest : List Char}
    (h : lexer.readToken (text ++ rest) = some ⟨.identifier, Text.byteLength text⟩) :
    (Automaton.ofVocabulary lexer.vocabulary).kindOf? text = some .identifier := by
  obtain ⟨⟨kind, length⟩, hm, heq⟩ := Option.map_eq_some_iff.1 h
  obtain ⟨hkind, rfl⟩ := Munch.mk.inj heq
  obtain rfl := reclassify_eq_identifier hkind
  rw [lexer.automaton_eq] at hm
  rcases readToken_cases hm with ⟨p, q, hpq, -, hp, hlength, -⟩ | ⟨-, hkind, -⟩
  · have htake := Text.take?_append p q
    rw [← hpq, ← hlength, Text.take?_append, Option.some.injEq] at htake
    rw [htake]
    exact hp
  · simp at hkind

/-- The text of a name. -/
theorem exists_text_of_mem_tokenize {name : Ident} (h : name.token ∈ lexer.tokenize source) :
    ∃ text, name.name = .ofList text ∧
      (Automaton.ofVocabulary lexer.vocabulary).kindOf? text = some .identifier := by
  obtain ⟨tokens, hcuts, htokens⟩ := lexer.exists_tokenize_eq source
  rw [htokens, List.mem_append, List.mem_singleton] at h
  rcases h with h | h
  · obtain ⟨before, kind, text, rest, -, -, hread, htoken⟩ := hcuts.mem h
    have hkind : kind = .identifier := (congrArg Token.kind htoken).symm
    subst hkind
    exact ⟨text, by simpa [Ident.token, tokenAt, TokenKind.hasText] using congrArg Token.text htoken,
      kindOf?_of_readToken hread⟩
  · simp [Ident.token, Token.eof] at h

theorem isPlainName_of_mem_tokenize {name : Ident} (h : name.token ∈ lexer.tokenize source)
    (hstar : name.name ≠ "*") : IsPlainName name.name := by
  obtain ⟨text, htext, hkind⟩ := exists_text_of_mem_tokenize h
  obtain ⟨c, rest, rfl, hrest⟩ := exists_of_kindOf?_eq_identifier hkind
  rw [htext] at hstar ⊢
  refine isPlainName_ofList hrest ?_
  rintro rfl rfl
  exact hstar rfl

theorem ne_empty_of_mem_tokenize {name : Ident} (h : name.token ∈ lexer.tokenize source) :
    name.name ≠ "" := by
  obtain ⟨text, htext, hkind⟩ := exists_text_of_mem_tokenize h
  obtain ⟨c, rest, rfl, -⟩ := exists_of_kindOf?_eq_identifier hkind
  rw [htext]
  exact fun hempty => List.cons_ne_nil c rest (by simpa using congrArg String.toList hempty)

/-- A star begins no identifier of the standard vocabulary. -/
theorem ne_star_of_mem_tokenize (hlexer : lexer.vocabulary = .standard) {name : Ident}
    (h : name.token ∈ lexer.tokenize source) : name.name ≠ "*" := by
  obtain ⟨text, htext, hkind⟩ := exists_text_of_mem_tokenize h
  rw [hlexer, ← standard_eq, kindOf?_standard] at hkind
  rw [htext]
  intro hstar
  have hlist : text = ['*'] := by simpa using congrArg String.toList hstar
  rw [hlist] at hkind
  exact absurd (cons_mem_chars_mul.1 hkind).1 (by decide)

end Lexer

namespace Block

variable {b : Block} {tokens : List Token} {source : String}

theorem numbered_of_parse (h : Block.parse tokens source = .ok b) : b.Numbered := by
  obtain ⟨ts, rest, -, -, hadv⟩ := Block.parse_advances h
  have hids := hadv.ids_eq
  rw [Tree.postorders, Tree.postorders, List.append_nil] at hids
  refine ⟨(b.tree.preorder_perm_postorder.map Node.id).nodup_iff.2 ?_⟩
  rw [hids]
  exact List.nodup_range'

/-- Names are tokens. -/
theorem token_mem_of_parse (h : Block.parse tokens source = .ok b) {name : Ident}
    (hname : name ∈ b.tree.names) : name.token ∈ tokens := by
  obtain ⟨n, hn, hname⟩ := List.mem_flatMap.1 hname
  obtain ⟨ts, rest, -, -, hadv⟩ := Block.parse_advances h
  have hmem : name.token ∈ ts := by
    refine hadv.token_mem n ?_ name hname
    rw [Tree.postorders, Tree.postorders, List.append_nil]
    exact b.tree.preorder_perm_postorder.mem_iff.1 hn
  have htokens : Token.significant tokens = ts ++ rest.tokens := hadv.tokens_eq
  have hsignificant : name.token ∈ Token.significant tokens := by
    rw [htokens]
    exact List.mem_append_left _ hmem
  exact List.mem_of_mem_filter hsignificant

/-- In any vocabulary. -/
theorem named_of_parse {lexer : Lexer} (h : Block.parse (lexer.tokenize source) source = .ok b) :
    b.Named := by
  have hmem : ∀ n ∈ b.tree.preorder, ∀ name ∈ n.head.names, name.token ∈ lexer.tokenize source :=
    fun n hn name hname => token_mem_of_parse h (List.mem_flatMap.2 ⟨n, hn, hname⟩)
  refine ⟨numbered_of_parse h, fun n hn name hname => ?_, fun _ n hn name hname =>
    Lexer.ne_empty_of_mem_tokenize (hmem n hn name hname)⟩
  exact (eq_or_ne name.name "*").symm.imp_left
    (Lexer.isPlainName_of_mem_tokenize (hmem n hn name hname))

theorem regular_of_parse {lexer : Lexer} (hlexer : lexer.vocabulary = .standard)
    (h : Block.parse (lexer.tokenize source) source = .ok b) : b.Regular := by
  refine ⟨numbered_of_parse h, fun n hn name hname => ?_⟩
  have hmem := token_mem_of_parse h (List.mem_flatMap.2 ⟨n, hn, hname⟩)
  exact Lexer.isPlainName_of_mem_tokenize hmem (Lexer.ne_star_of_mem_tokenize hlexer hmem)

end Block

end Sable
