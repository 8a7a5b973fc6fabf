import Sable.Diagnostic
import Sable.Proofs.Analysis.Pointing
import Sable.Proofs.Grammar.Nesting
import Sable.Proofs.Layout
import Sable.Proofs.Source.Lines
import Sable.Proofs.Token.Respelling

/-!
# Diagnostics point into their file

An error of a parse or of an analysis is about a token, a node or a name. So its span lies in the
file, on boundaries of characters, and starts with a token that means something or with the end of
input. What a diagnostic tells of it is the true line and column of this token.

There is one exception. In a vocabulary without a sign that begins with a star, a star is a name. A
class of this name is taken for a pointer to a type without a name; if a library publishes such a
type, the class gets a symbol that was declared nowhere, and the error that its name is taken is said
to be at the start of the first file. `Block.CanDeclare` leaves this out.

## Main definitions

* `Lexer.Marks`: a span that diagnostics can show in a file.
* `Diagnostic.Shows`: a diagnostic of an error with such a span.

## Main statements

* `Lexer.diagnostics_point`: the diagnostics of a file.
* `Lexer.parse_class_star`: the exception.
-/
namespace Sable

open Text (IsBoundary byteLength lineColAfter)

/-! ## Spans that diagnostics show -/

/-- The span starts with a token that means something, or with the end of input, and lies in the
file, between characters. -/
structure Lexer.Marks (lexer : Lexer) (file : SourceFile) (span : Span) : Prop where
  start_eq : ∃ t ∈ lexer.significant file,
    span.start = t.span.start ∧ span.file = t.span.file
  start_le_stop : span.start ≤ span.stop
  stop_le : span.stop ≤ file.text.utf8ByteSize
  isBoundary_start : IsBoundary file.text.toList span.start
  isBoundary_stop : IsBoundary file.text.toList span.stop

/-- The diagnostic shows the span; its message ends in the line and the column where this starts. -/
structure Diagnostic.Shows (file : SourceFile) (span : Span) (message : String) (d : Diagnostic) :
    Prop where
  offset_eq : d.offset = span.start
  stop_eq : d.offset + d.length = span.stop
  message_eq : ∃ before rest, file.text.toList = before ++ rest ∧ byteLength before = span.start ∧
    d.message = s!"{message} at {(lineColAfter before).1}:{(lineColAfter before).2}"

namespace Lexer

variable {lexer : Lexer} {file : SourceFile} {span : Span} {b : Block}

theorem Marks.shows (h : lexer.Marks file span) (message label : String) (help : Option String) :
    (Diagnostic.inFile file span message label help).Shows file span message := by
  obtain ⟨before, rest, htext, hstart⟩ := h.isBoundary_start
  refine ⟨rfl, Nat.add_sub_cancel' h.start_le_stop, before, rest, htext, hstart, ?_⟩
  rw [Diagnostic.inFile, ← hstart, SourceFile.lineCol_eq htext]

/-- Tokens lie in the file. -/
theorem marks_token {t : Token} (ht : t ∈ lexer.significant file) : lexer.Marks file t.span := by
  obtain ⟨tokens, hcuts, htokens⟩ := lexer.exists_tokenize_eq file.text
  have hmem := List.mem_of_mem_filter ht
  rw [htokens, List.mem_append, List.mem_singleton] at hmem
  rcases hmem with hmem | rfl
  · have hcovers := hcuts.covers
    have hlt := hcovers.tiles.inOrder.1.start_lt_stop t hmem
    have hstop := hcovers.isBoundary_stop t hmem
    refine ⟨⟨t, ht, rfl, rfl⟩, hlt.le, ?_, hcovers.isBoundary_start t hmem, hstop⟩
    obtain ⟨before, rest, htext, hlength⟩ := hstop
    rw [← Text.byteLength_toList, htext, Text.byteLength_append]
    omega
  · have hend : IsBoundary file.text.toList file.text.utf8ByteSize :=
      ⟨file.text.toList, [], (List.append_nil _).symm, Text.byteLength_toList _⟩
    exact ⟨⟨_, ht, rfl, rfl⟩, Nat.le_refl _, Nat.le_refl _, hend, hend⟩

theorem mem_significant_of_beforeEof {t : Token}
    (ht : t ∈ Token.significant (Token.beforeEof (lexer.tokenize file.text))) :
    t ∈ lexer.significant file :=
  (((lexer.tokenize file.text).takeWhile_sublist _).filter _).subset ht

/-- So do nodes that stand on tokens. -/
theorem marks_of_fits {t : Tree}
    (h : t.Fits (Token.significant (Token.beforeEof (lexer.tokenize file.text)))) :
    lexer.Marks file t.root.span := by
  obtain ⟨first, hfirst, hstart, hfile⟩ := h.start_eq
  obtain ⟨last, hlast, hstop⟩ := h.stop_eq
  have hfirst := mem_significant_of_beforeEof hfirst
  have hlast := marks_token (mem_significant_of_beforeEof hlast)
  exact ⟨⟨first, hfirst, hstart, hfile⟩, h.start_lt_stop.le, hstop ▸ hlast.stop_le,
    hstart ▸ (marks_token hfirst).isBoundary_start, hstop ▸ hlast.isBoundary_stop⟩

/-- The span marks some text of the file, at least a character. -/
def MarksText (lexer : Lexer) (file : SourceFile) (span : Span) : Prop :=
  lexer.Marks file span ∧ span.start < span.stop

theorem marksText_name (h : lexer.parse file = .ok b) {name : Ident} (hname : name ∈ b.tree.names) :
    lexer.MarksText file name.span :=
  have hsignificant : name.token ∈ lexer.significant file :=
    List.mem_filter.2 ⟨Block.token_mem_of_parse h hname, rfl⟩
  ⟨marks_token hsignificant, start_lt_stop_name h hname⟩

/-- All nodes and names of a unit with declarations mark text. -/
theorem liesIn_marksText (h : lexer.parse file = .ok b) (hb : b.declarations ≠ []) :
    b.tree.LiesIn (lexer.MarksText file) := by
  intro n hn
  refine ⟨?_, fun name hname => marksText_name h (List.mem_flatMap.2 ⟨n, hn, hname⟩)⟩
  rw [← Tree.map_root_subtrees] at hn
  obtain ⟨t, ht, rfl⟩ := List.mem_map.1 hn
  have hfits := Block.fits_of_parse h hb t ht
  exact ⟨marks_of_fits hfits, hfits.start_lt_stop⟩

theorem marks_parseError {e : ParseError} (h : lexer.parse file = .error e) :
    lexer.Marks file e.span := by
  obtain ⟨tokens, hcuts, htokens⟩ := lexer.exists_tokenize_eq file.text
  have hend : Token.EndsOnce (lexer.tokenize file.text) :=
    ⟨tokens, _, htokens, rfl, hcuts.covers.kind_ne_eof⟩
  obtain ⟨i, t, ht, hspan, -⟩ := Block.parse_error_first hend h
  rw [hspan]
  exact marks_token (List.mem_of_getElem? ht)

theorem marksText_semanticError (h : lexer.parse file = .ok b) {deps : List Library}
    (hclasses : b.CanDeclare deps) {id : LibraryId}
    (hid : ∀ dep ∈ Library.reachAll deps, dep.id ≠ id) (name : String) :
    ∀ e ∈ (b.analyze deps (.new id name)).errors, lexer.MarksText file e.span := by
  by_cases hb : b.declarations = []
  · obtain ⟨place, declarations⟩ := b
    obtain rfl : declarations = [] := hb
    simp [Block.errors_analyze_nil]
  · exact (Block.numbered_of_parse h).forall_mem_errors hid (hclasses.canMake h id name)
      (liesIn_marksText h hb)

/-- Every error of a parse, or of an analysis into a new library, marks something in the file, and
its diagnostic shows where. An error of an analysis marks some text, so that none of them is at the
place of what is written nowhere. -/
theorem diagnostics_point (lexer : Lexer) (file : SourceFile) :
    (∀ e, lexer.parse file = .error e → lexer.Marks file e.span ∧
      (Diagnostic.ofParseError file e).Shows file e.span e.message) ∧
    ∀ b, lexer.parse file = .ok b → ∀ (deps : List Library) (id : LibraryId) (name : String),
      (∀ dep ∈ Library.reachAll deps, dep.id ≠ id) → b.CanDeclare deps →
        ∀ e ∈ (b.analyze deps (.new id name)).errors,
          lexer.Marks file e.span ∧ e.span.start < e.span.stop ∧
          (Diagnostic.ofSemanticError file e).Shows file e.span e.message := by
  refine ⟨fun e h => ?_, fun b h deps id name hid hclasses e he => ?_⟩
  · have hmarks := marks_parseError h
    exact ⟨hmarks, hmarks.shows _ _ _⟩
  · obtain ⟨hmarks, hlt⟩ := marksText_semanticError h hclasses hid name e he
    exact ⟨hmarks, hlt, hmarks.shows _ _ _⟩

/-- A file that ends too early, and one with a break outside of loops on its second line. -/
theorem diagnostics_point_second_line :
    let lexer := Lexer.ofVocabulary .standard
    let short : SourceFile := ⟨"short", "fn"⟩
    let long : SourceFile := ⟨"long", "/* é */\nfn f() \x7b break; \x7d"⟩
    (∃ e, lexer.parse short = .error e ∧ lexer.Marks short e.span ∧
      (Diagnostic.ofParseError short e).Shows short e.span e.message) ∧
    ∃ b e, lexer.parse long = .ok b ∧ e ∈ (b.analyze [.core 0] (.new 1 "long")).errors ∧
      lexer.Marks long e.span ∧
      (Diagnostic.ofSemanticError long e).Shows long e.span e.message := by
  intro lexer short long
  have hrun : (lexer.parse short).isOk = false ∧ (lexer.parse long).toOption.map (fun b =>
      ((b.analyze [.core 0] (.new 1 "long")).errors, b.classes.length)) =
      some ([.breakContinueOutsideLoop ⟨18, 23, 0⟩], 0) := by
    decide +kernel
  constructor
  · obtain ⟨e, hparse⟩ := exists_of_isOk_eq_false hrun.1
    exact ⟨e, hparse, (diagnostics_point lexer short).1 e hparse⟩
  · obtain ⟨b, hparse, herrors⟩ := exists_of_toOption_map hrun.2
    rw [Prod.mk.injEq] at herrors
    have hclasses : b.classes = [] := List.length_eq_zero_iff.1 herrors.2
    have hmem : .breakContinueOutsideLoop ⟨18, 23, 0⟩ ∈
        (b.analyze [.core 0] (.new 1 "long")).errors :=
      herrors.1 ▸ List.mem_singleton_self _
    have hid : ∀ dep ∈ Library.reachAll [.core 0], dep.id ≠ 1 := by
      simp [Library.reachAll, Library.reach_eq, Library.core_id, Library.core_dependencies]
    obtain ⟨hmarks, -, hshows⟩ := (diagnostics_point lexer long).2 b hparse [.core 0] 1 "long" hid
      (.inl (by simp [hclasses])) _ hmem
    exact ⟨b, _, hparse, hmem, hmarks, hshows⟩

/-- The standard vocabulary, but without a sign that begins with a star. -/
def starless : Vocabulary where
  keywords := Vocabulary.standard.keywords
  punctuators := Punctuator.all.map fun p =>
    if p = .star then "x" else if p = .starAssign then "x=" else p.spelling
  keywords_table := Vocabulary.standard.keywords_table
  punctuators_table := by unfold IsSpellingTable; decide

/-- A library may publish a type without a name, and a vocabulary may leave the star to names. Then
a class of the name `*` is said to be taken at the start of the file, where no token is. -/
theorem parse_class_star :
    let lexer := Lexer.ofVocabulary starless
    let file : SourceFile := ⟨"a", " class * \x7b \x7d"⟩
    let nameless := ((Library.new 1 "nameless").createType "" true .dummy).2
    Vocabulary.ofLists starless.keywords starless.punctuators = .ok starless ∧
    ∃ b e, lexer.parse file = .ok b ∧
      e ∈ (b.analyze [.core 0, nameless] (.new 2 "a")).errors ∧ ¬lexer.Marks file e.span := by
  intro lexer file nameless
  refine ⟨starless.ofLists_eq_ok, ?_⟩
  have hrun : (lexer.parse file).toOption.map (fun b =>
      (b.analyze [.core 0, nameless] (.new 2 "a")).errors) = some [.sameName "*" .dummy] ∧
      ∀ t ∈ lexer.significant file, t.span.start ≠ 0 := by
    decide +kernel
  obtain ⟨herrors, hstarts⟩ := hrun
  obtain ⟨b, hparse, herrors⟩ := exists_of_toOption_map herrors
  refine ⟨b, _, hparse, herrors ▸ List.mem_singleton_self _, fun hmarks => ?_⟩
  obtain ⟨t, ht, hstart, -⟩ := hmarks.start_eq
  exact hstarts t ht hstart.symm

end Lexer

end Sable
