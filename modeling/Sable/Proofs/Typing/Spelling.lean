import Mathlib.Data.List.Pairwise
import Sable.Proofs.Grammar.Names
import Sable.Proofs.Typing.Nodes

/-!
# Where names are written

The tokens of a text lie side by side. So no two names of a parsed unit are written at the same
place, and a literal or an operator is never just where a name is.

## Main definitions

* `Block.Spelled`: the names of a unit are at places of their own.

## Main statements

* `Block.spelled_of_parse`: so they are in a text that is parsed.
-/
namespace Sable

namespace Token

namespace InOrder

variable {ts : List Token} {t : Token}

/-- A span that encloses tokens covers each of them. -/
theorem within_of_encloses (h : InOrder ts) {span : Span} (hspan : span.Encloses ts) (ht : t ∈ ts) :
    span.start ≤ t.span.start ∧ t.span.stop ≤ span.stop := by
  obtain ⟨⟨first, hfirst, hstart⟩, last, hlast, hstop⟩ := hspan
  exact ⟨hstart.trans (h.head_le_start hfirst ht), (h.stop_le_getLast hlast ht).trans hstop⟩

end InOrder

end Token

namespace Block

/-- Each name is written at a place of its own, where there is neither a literal nor an operator. -/
structure Spelled (b : Block) : Prop where
  nodup_spans : (b.tree.names.map Ident.span).Nodup
  ne_builtin : ∀ n ∈ b.tree.preorder, n.kind.isExpression = true → n.head.isBuiltin = true →
    ∀ name ∈ b.tree.names, name.span ≠ n.span
  ne_dummy : ∀ name ∈ b.tree.names, name.span ≠ .dummy

variable {b : Block} {lexer : Lexer} {source : String}

theorem spelled_of_inOrder {s rest : TokenStream} {ts : List Token}
    (hphrase : ts ∈ b.phrases source.toList) (hadv : s.Advances ts [b.tree] rest)
    (hts : Token.InOrder ts) : b.Spelled := by
  have hperm := b.says_phrases ts hphrase
  have hmem : ∀ name ∈ b.tree.names, name.token ∈ ts := fun name hname =>
    List.mem_of_mem_filter (hperm.mem_iff.2 (List.mem_map_of_mem hname))
  refine ⟨?_, fun n hn hkind hbuiltin name hname heq => ?_, fun name hname heq => ?_⟩
  · have hnodup :=
      (hts.sublist (List.filter_sublist (p := fun t => t.kind == .identifier))).nodup_spans
    rw [(hperm.map Token.span).nodup_iff, List.map_map] at hnodup
    exact hnodup
  · have hn' : n ∈ Tree.postorders [b.tree] := by
      rw [Tree.postorders, Tree.postorders, List.append_nil]
      exact b.tree.preorder_perm_postorder.mem_iff.1 hn
    obtain ⟨us, hus, hencloses, hother⟩ := hadv.reachesOver n hn' hkind
    obtain ⟨t, ht, hidentifier⟩ := hother hbuiltin
    obtain ⟨hstart, hstop⟩ := (hts.sublist hus).within_of_encloses hencloses ht
    rw [← heq] at hstart hstop
    have htoken := hts.eq_of_within (hmem name hname) (hus.subset ht) hstart hstop
    rw [htoken] at hidentifier
    exact hidentifier rfl
  · have hlt := hts.start_lt_stop _ (hmem name hname)
    rw [Ident.token, heq] at hlt
    simp [Span.dummy] at hlt

theorem spelled_of_parse (h : Block.parse (lexer.tokenize source) source = .ok b) : b.Spelled := by
  obtain ⟨ts, rest, hphrase, hend, hadv⟩ := Block.parse_advances h
  obtain ⟨tokens, hcuts, htokens⟩ := lexer.exists_tokenize_eq source
  have hts : ts = Token.significant tokens := by
    have hall : Token.beforeEof (Token.significant (lexer.tokenize source)) = ts :=
      hadv.beforeEof_eq hend
    rw [← hall, ← Token.significant_beforeEof, htokens, hcuts.covers.beforeEof_eq]
  refine spelled_of_inOrder hphrase hadv ?_
  rw [hts]
  exact hcuts.covers.tiles.inOrder.1.sublist List.filter_sublist

end Block

end Sable
