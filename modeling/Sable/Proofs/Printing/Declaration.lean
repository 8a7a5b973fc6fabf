import Sable.Proofs.Printing.Statement

/-!
# Printed declarations are read back

A declaration begins with a word of its own and ends in a brace or a semicolon, so that nothing is
asked of what follows it.

## Main statements

* `Grammar.reads_functionDecl`, `Grammar.reads_classDecl`, `Grammar.reads_declaration`: the rules.
* `Grammar.exists_block_accept`: a unit is read back up to the end of the input.
-/
namespace Sable.Grammar

open Lexeme TokenStream Rule

variable {numeral : Value → String}

theorem reads_parameter (d : Parameter) :
    parameter.Reads Parameter.bare d.lexemes d.bare
      fun next => next ≠ some (.punctuator .star) := by
  intro s ms rest hs hms
  have hwords : d.lexemes ++ ms = .name d.name :: (sign .colon :: d.type.lexemes ++ ms) := rfl
  rw [hwords] at hs
  obtain ⟨name, s₁, hname, hnamebare, hs⟩ := exists_identifier_accept hs
  obtain ⟨type, s₂, htype, htypebare, hs⟩ := reads_annotatedType d.type hs hms
  have hdecl : parameter s = _ := located_eq_accept.2 ⟨_, s₂,
    bind_accept hname (bind_accept (required_accept htype) rfl), rfl, rfl⟩
  exact ⟨_, _, hdecl, by simp [Parameter.bare, hnamebare, htypebare], hs⟩

theorem declines_parameter {s : TokenStream} (h : s.firstKind? ≠ some .identifier) :
    parameter.Declines s :=
  .located (.bind (declines_identifier h) _)

theorem reads_functionDecl {d : FunctionDecl} (h : d.tree.Writable numeral) :
    functionDecl.Reads FunctionDecl.bare (d.lexemes numeral) d.bare fun _ => True := by
  have hbody : d.body.tree.Writable numeral := (Tree.writable_node.1 h).2 _ (by simp)
  intro s ms rest hs _
  have hwords : d.lexemes numeral ++ ms = word .fnWord :: .name d.name :: sign .openParen ::
      (commas (d.parameters.map Parameter.lexemes) ++ sign .closeParen ::
        (Option.lexemes (fun t => sign .colon :: WrittenType.lexemes t) d.returns ++
          (d.body.lexemes numeral ++ ms))) := by
    simp [FunctionDecl.lexemes]
  rw [hwords] at hs
  have hbrace : nextKind? (d.body.lexemes numeral ++ ms) rest =
      some (.punctuator .openBrace) := by
    cases d.body with
    | mk p statements => rfl
  obtain ⟨t₁, s₁, ht₁, hs⟩ := exists_keyword_accept hs
  obtain ⟨name, s₂, hname, hnamebare, hs⟩ := exists_identifier_accept hs
  obtain ⟨t₃, s₃, ht₃, hs⟩ := exists_expect_accept hs
  obtain ⟨parameters, s₄, hparameters, hparametersbare, hs⟩ :=
    reads_commaList yields_parameter (fun d _ => reads_parameter d) (by simp) hs
      ⟨by simp [nextKind?, sign], by simp [nextKind?, sign], fun s hfirst => declines_parameter
        (by simp [hfirst, nextKind?, sign])⟩
  obtain ⟨t₅, s₅, ht₅, hs⟩ := exists_expect_accept hs
  obtain ⟨returns, s₆, hreturns, hreturnsbare, hs⟩ :=
    reads_optional (fun t _ => reads_annotatedType t) hs ⟨by simp [hbrace], fun s hfirst =>
      .bind (declines_token (by simp [hfirst, hbrace])) _⟩
  obtain ⟨body, s₇, hbody', hbodybare, hs⟩ := reads_scope hbody hs trivial
  have hdecl : functionDecl s = _ := located_eq_accept.2 ⟨_, s₇, bind_accept ht₁ <|
    bind_accept (required_accept hname) <| bind_accept ht₃ <| bind_accept hparameters <|
    bind_accept ht₅ <| bind_accept hreturns <| bind_accept (required_accept hbody') rfl, rfl, rfl⟩
  exact ⟨_, _, hdecl, by simp [FunctionDecl.bare, hnamebare, hparametersbare, hreturnsbare,
    hbodybare], hs⟩

theorem reads_variableLine {d : VariableDecl} (h : d.tree.Writable numeral) :
    variableLine.Reads VariableDecl.bare (d.lexemes numeral ++ [sign .semicolon]) d.bare
      fun _ => True := by
  intro s ms rest hs _
  rw [List.append_assoc] at hs
  obtain ⟨y, s₁, hy, hybare, hs⟩ := reads_variableDecl h hs ⟨_, rfl, rfl⟩
  obtain ⟨t, s₂, ht, hs⟩ := exists_expect_accept hs
  exact ⟨y, s₂, bind_accept hy (bind_accept ht rfl), hybare, hs⟩

theorem declines_variableLine {s : TokenStream} (h : s.firstKind? ≠ some (.keyword .varWord)) :
    variableLine.Declines s :=
  .bind (declines_worded h) _

theorem reads_member {m : Member} (h : m.tree.Writable numeral) :
    member.Reads Member.bare (m.lexemes numeral) m.bare fun _ => True := by
  intro s ms rest hs _
  match m with
  | .variable d =>
    obtain ⟨y, s', hy, hybare, hs⟩ := reads_variableLine h hs trivial
    exact ⟨.variable y, s', orElse_accept_left (map_eq_accept.2 ⟨y, hy, rfl⟩),
      by simp [Member.bare, hybare], hs⟩
  | .function d =>
    have hfirst : s.firstKind? = some (.keyword .fnWord) := hs.firstKind?
    obtain ⟨y, s', hy, hybare, hs⟩ := reads_functionDecl h hs trivial
    exact ⟨.function y, s', orElse_accept (.map (declines_variableLine (by simp [hfirst])) _)
      (map_eq_accept.2 ⟨y, hy, rfl⟩), by simp [Member.bare, hybare], hs⟩

theorem declines_member {s : TokenStream}
    (h : s.firstKind? = some (.punctuator .closeBrace)) : member.Declines s :=
  .orElse (.map (declines_variableLine (by simp [h])) _)
    (.map (declines_worded (by simp [h])) _)

theorem reads_classDecl {d : ClassDecl} (h : d.tree.Writable numeral) :
    classDecl.Reads ClassDecl.bare (d.lexemes numeral) d.bare fun _ => True := by
  have hreads : ∀ m ∈ d.members, member.Reads Member.bare (m.lexemes numeral) m.bare
      fun _ => True := by
    intro m hm
    exact reads_member ((Tree.writable_node.1 h).2 _ (List.mem_map_of_mem hm))
  have hnext : ∀ m ∈ d.members, ∃ l ls, m.lexemes numeral = l :: ls ∧ True := by
    intro m _
    match m with
    | .variable d => exact ⟨_, _, rfl, trivial⟩
    | .function d => exact ⟨_, _, rfl, trivial⟩
  intro s ms rest hs _
  simp only [ClassDecl.lexemes, List.cons_append, List.append_assoc] at hs
  obtain ⟨t₁, s₁, ht₁, hs⟩ := exists_keyword_accept hs
  obtain ⟨name, s₂, hname, hnamebare, hs⟩ := exists_identifier_accept hs
  obtain ⟨t₃, s₃, ht₃, hs⟩ := exists_expect_accept hs
  obtain ⟨members, s₄, hmembers, hmembersbare, hs⟩ := reads_many yields_member hreads hnext hs
    ⟨trivial, fun s hfirst => declines_member hfirst⟩
  obtain ⟨t₅, s₅, ht₅, hs⟩ := exists_expect_accept hs
  have hdecl : classDecl s = _ := located_eq_accept.2 ⟨_, s₅, bind_accept ht₁ <|
    bind_accept (required_accept hname) <| bind_accept ht₃ <| bind_accept hmembers <|
    bind_accept ht₅ rfl, rfl, rfl⟩
  exact ⟨_, _, hdecl, by simp [ClassDecl.bare, hnamebare, hmembersbare], hs⟩

theorem reads_declaration {d : Declaration} (h : d.tree.Writable numeral) :
    declaration.Reads Declaration.bare (d.lexemes numeral) d.bare fun _ => True := by
  intro s ms rest hs _
  match d with
  | .classDecl d =>
    obtain ⟨y, s', hy, hybare, hs⟩ := reads_classDecl h hs trivial
    exact ⟨.classDecl y, s', orElse_accept_left (map_eq_accept.2 ⟨y, hy, rfl⟩),
      by simp [Declaration.bare, hybare], hs⟩
  | .function d =>
    have hfirst : s.firstKind? = some (.keyword .fnWord) := hs.firstKind?
    obtain ⟨y, s', hy, hybare, hs⟩ := reads_functionDecl h hs trivial
    exact ⟨.function y, s', orElse_accept (.map (declines_worded (by simp [hfirst])) _) <|
      orElse_accept_left (map_eq_accept.2 ⟨y, hy, rfl⟩),
      by simp [Declaration.bare, hybare], hs⟩
  | .variable d =>
    have hfirst : s.firstKind? = some (.keyword .varWord) := hs.firstKind?
    obtain ⟨y, s', hy, hybare, hs⟩ := reads_variableLine h hs trivial
    exact ⟨.variable y, s', orElse_accept (.map (declines_worded (by simp [hfirst])) _) <|
      orElse_accept (.map (declines_worded (by simp [hfirst])) _) (map_eq_accept.2 ⟨y, hy, rfl⟩),
      by simp [Declaration.bare, hybare], hs⟩

theorem exists_declarationsWithin_accept {ds : List Declaration} {eof : Token}
    (h : ∀ d ∈ ds, d.tree.Writable numeral) (heof : eof.kind = .eof) (bound : List Token)
    {s : TokenStream} (hbound : s.tokens.length ≤ bound.length)
    (hs : s.Ahead (ds.flatMap (Declaration.lexemes numeral)) [eof]) :
    ∃ ys s', declarationsWithin bound s = .accept ys s' ∧
      ys.map Declaration.bare = ds.map Declaration.bare := by
  induction ds generalizing bound s with
  | nil =>
    have hend : s.atEnd = true := by
      rw [TokenStream.atEnd, hs.firstKind?]
      simp [nextKind?, heof]
    cases bound with
    | nil => exact ⟨[], s, rfl, rfl⟩
    | cons t bound => exact ⟨[], s, by simp [declarationsWithin, hend], rfl⟩
  | cons d ds ih =>
    obtain ⟨l, ls, hl, hne⟩ : ∃ l ls, d.lexemes numeral = l :: ls ∧ l.kind ≠ .eof := by
      rcases d with d | d | d <;> exact ⟨_, _, rfl, by simp [word]⟩
    rw [List.flatMap_cons] at hs
    have hfirst := hs.firstKind?
    have hlen := hs.length_tokens
    simp only [hl, List.cons_append, nextKind?, List.length_append, List.length_cons] at hfirst hlen
    have hmore : s.atEnd = false := by
      rw [TokenStream.atEnd, hfirst]
      cases hkind : l.kind <;> simp_all
    obtain ⟨y, s₁, hy, hybare, hs⟩ := reads_declaration (h d (by simp)) hs trivial
    have hlen' := hs.length_tokens
    cases bound with
    | nil =>
      simp only [List.length_nil] at hbound
      omega
    | cons t bound =>
      simp only [List.length_cons] at hbound
      simp only [List.length_singleton] at hlen hlen'
      obtain ⟨ys, s', hys, hysbare⟩ := ih (fun d hd => h d (by simp [hd])) bound (by omega) hs
      refine ⟨y :: ys, s', ?_, by simp [hybare, hysbare]⟩
      simp [declarationsWithin, hmore, required_accept hy, hys, Reply.map]

theorem exists_block_accept {b : Block} {eof : Token} {s : TokenStream} (h : b.Writable numeral)
    (heof : eof.kind = .eof) (hs : s.Ahead (b.lexemes numeral) [eof]) :
    ∃ b' s', block s = .accept b' s' ∧ b'.bare = b.bare := by
  have hwritable : ∀ d ∈ b.declarations, d.tree.Writable numeral := by
    intro d hd
    exact (Tree.writable_node.1 h).2 _ (List.mem_map_of_mem hd)
  obtain ⟨ys, s', hys, hbare⟩ :=
    exists_declarationsWithin_accept hwritable heof s.tokens (Nat.le_refl _) hs
  have hblock : block s = _ := located_eq_accept.2
    ⟨fun place => ⟨place, ys⟩, s', by rw [hys]; rfl, rfl, rfl⟩
  exact ⟨_, _, hblock, by simp [Block.bare, hbare]⟩

end Sable.Grammar
