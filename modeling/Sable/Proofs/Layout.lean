import Mathlib.Data.List.Flatten
import Sable.Check
import Sable.Proofs.Analysis.Moving
import Sable.Proofs.Analysis.Pointing
import Sable.Proofs.Grammar.Nesting
import Sable.Proofs.Grammar.Relocating
import Sable.Proofs.Grammar.ViablePrefix
import Sable.Proofs.Symbol.Interning

/-!
# Layout and spelling do not matter

Two files may be laid out differently and spelled by different vocabularies. If their significant
tokens agree in kind and text, then what is said of the one file is said of the other, in the same
order and with the same words. Only the spans differ, and they cover the same tokens.

All spans of a unit are ranges of tokens. In both files they come from one tree, in which a range is
written by the numbers of its first and last token.

## Main definitions

* `Token.Same`: tokens that differ in their spans only.
* `Span.Alike`: spans of the same tokens in two files.
* `Checked.Alike`: checks with the same errors and the same symbols.

## Main statements

* `SourceFile.check_alike`: files with the same tokens are checked alike.
-/
namespace Sable

/-! ## Likeness -/

/-- The text counts for identifiers and literals; other tokens have none. -/
def Token.Same (t t' : Token) : Prop := t.kind = t'.kind ∧ t.text = t'.text

namespace Span

/-- The span goes from the start of the token `i` to the end of the token `j`. -/
def IsRange (ts : List Token) (i j : Nat) (s : Span) : Prop :=
  i ≤ j ∧ ∃ t u, ts[i]? = some t ∧ ts[j]? = some u ∧ s = ⟨t.span.start, u.span.stop, t.span.file⟩

/-- Both spans cover the same tokens. -/
def Alike (ts ts' : List Token) (s s' : Span) : Prop :=
  ∃ i j, s.IsRange ts i j ∧ s'.IsRange ts' i j

end Span

def SemanticError.withSpan (e : SemanticError) (s : Span) : SemanticError :=
  e.move ⟨fun _ => s, 0, id⟩

def ParseError.withSpan : ParseError → Span → ParseError
  | .unexpectedToken expected found _, s => .unexpectedToken expected found s
  | .prematureEnd expected _, s => .prematureEnd expected s
  | .invalidLiteral _, s => .invalidLiteral s

structure SemanticError.Alike (ts ts' : List Token) (e e' : SemanticError) : Prop where
  eq_withSpan : e' = e.withSpan e'.span
  span : Span.Alike ts ts' e.span e'.span

/-- The errors say the same of the token at one index. -/
structure ParseError.Alike (ts ts' : List Token) (e e' : ParseError) : Prop where
  eq_withSpan : e' = e.withSpan e'.span
  index : ∃ i : Nat, ts[i]?.map Token.span = some e.span ∧ ts'[i]?.map Token.span = some e'.span

structure Checked.Alike (ts ts' : List Token) (c c' : Checked) : Prop where
  errors : List.Forall₂ (SemanticError.Alike ts ts') c.context.errors c'.context.errors
  symbols : c.context.library.describe = c'.context.library.describe

/-- Both files fail to parse, or both are checked. -/
inductive Checked.OutcomeAlike (ts ts' : List Token) :
    Except ParseError Checked → Except ParseError Checked → Prop
  | failed {e e' : ParseError} (h : e.Alike ts ts' e') : OutcomeAlike ts ts' (.error e) (.error e')
  | checked {c c' : Checked} (h : c.Alike ts ts' c') : OutcomeAlike ts ts' (.ok c) (.ok c')

/-! ## The edges of tokens -/

namespace Token

variable {ts : List Token}

def edgesFrom (start : Nat) (ts : List Token) : List Nat :=
  start :: ts.flatMap fun t => [t.span.start, t.span.stop]

/-- The start of the file and then the starts and ends of all tokens. -/
def edges (ts : List Token) : List Nat := edgesFrom 0 ts

/-- There are no edges behind the last. -/
def edge (ts : List Token) (n : Nat) : Nat := (edges ts)[min n (2 * ts.length)]?.getD 0

theorem length_edges (ts : List Token) : (edges ts).length = 2 * ts.length + 1 := by
  simp [edges, edgesFrom, List.length_flatMap, Nat.mul_comm]

theorem getElem?_edges (ts : List Token) (i : Nat) :
    (edges ts)[2 * i + 1]? = ts[i]?.map (·.span.start) ∧
      (edges ts)[2 * i + 2]? = ts[i]?.map (·.span.stop) := by
  simp only [edges, edgesFrom, List.getElem?_cons_succ]
  induction ts generalizing i with
  | nil => simp
  | cons t ts ih =>
    cases i with
    | zero => simp
    | succ i =>
      simp only [List.flatMap_cons, Nat.mul_succ, List.cons_append, List.nil_append,
        List.getElem?_cons_succ]
      exact ih i

theorem edge_start {i : Nat} {t : Token} (h : ts[i]? = some t) :
    edge ts (2 * i + 1) = t.span.start := by
  have hi := (List.getElem?_eq_some_iff.1 h).1
  rw [edge, Nat.min_eq_left (by omega), (getElem?_edges ts i).1, h]
  rfl

theorem edge_stop {i : Nat} {t : Token} (h : ts[i]? = some t) :
    edge ts (2 * i + 2) = t.span.stop := by
  have hi := (List.getElem?_eq_some_iff.1 h).1
  rw [edge, Nat.min_eq_left (by omega), (getElem?_edges ts i).2, h]
  rfl

theorem edge_zero (ts : List Token) : edge ts 0 = 0 := by
  simp [edge, edges, edgesFrom]

theorem monotone_edge (h : (edges ts).Pairwise (· ≤ ·)) : Monotone (edge ts) := by
  intro m n hmn
  have hlength := length_edges ts
  have hle : min m (2 * ts.length) ≤ min n (2 * ts.length) := by omega
  rw [edge, edge, List.getElem?_eq_getElem (by omega), List.getElem?_eq_getElem (by omega)]
  rcases hle.eq_or_lt with heq | hlt
  · simp only [heq, Nat.le_refl]
  · exact List.pairwise_iff_getElem.1 h _ _ _ _ hlt

theorem Tiles.pairwise_edgesFrom {start stop : Nat} (h : Tiles start ts stop) (file : Nat) :
    (edgesFrom start (ts ++ [Token.eof stop file])).Pairwise (· ≤ ·) := by
  induction ts generalizing start with
  | nil =>
    obtain rfl : start = stop := h
    simp [edgesFrom, Token.eof, Span.empty]
  | cons t ts ih =>
    obtain ⟨rfl, hlt, h⟩ := h
    have hpairwise := ih h
    simp only [edgesFrom, List.cons_append, List.flatMap_cons, List.nil_append,
      List.pairwise_cons, List.mem_cons, forall_eq_or_imp] at hpairwise ⊢
    have hle : ∀ n ∈ (ts ++ [Token.eof stop file]).flatMap
        fun t => [t.span.start, t.span.stop], t.span.start ≤ n :=
      fun n hn => hlt.le.trans (hpairwise.1 n hn)
    exact ⟨⟨le_rfl, hlt.le, hle⟩, ⟨hlt.le, hle⟩, hpairwise⟩

end Token

/-! ## One tree for two files -/

namespace Lexer

variable (lexer : Lexer) (file : SourceFile)

/-- The tokens that a file is parsed from. -/
def significant : List Token := Token.significant (lexer.tokenize file.text)

theorem pairwise_edges : (Token.edges (lexer.significant file)).Pairwise (· ≤ ·) := by
  obtain ⟨tokens, hcuts, htokens⟩ := lexer.exists_tokenize_eq file.text
  have hpairwise := hcuts.covers.tiles.pairwise_edgesFrom lexer.file
  rw [← htokens] at hpairwise
  exact hpairwise.sublist ((List.filter_sublist.flatMap _).cons_cons _)

variable {lexer file} {t : Token}

theorem file_of_mem (ht : t ∈ lexer.significant file) : t.span.file = lexer.file := by
  obtain ⟨tokens, hcuts, htokens⟩ := lexer.exists_tokenize_eq file.text
  have ht := List.mem_of_mem_filter ht
  rw [htokens, List.mem_append, List.mem_singleton] at ht
  rcases ht with ht | rfl
  · obtain ⟨before, kind, text, rest, -, -, -, rfl⟩ := hcuts.mem ht
    rfl
  · rfl

theorem text_of_mem (ht : t ∈ lexer.significant file) (hkind : t.kind.hasText) :
    t.text = some (.ofList (t.lexeme file.text.toList)) := by
  obtain ⟨tokens, hcuts, htokens⟩ := lexer.exists_tokenize_eq file.text
  have ht := List.mem_of_mem_filter ht
  rw [htokens, List.mem_append, List.mem_singleton] at ht
  rcases ht with ht | rfl
  · rw [hcuts.text_eq ht, if_pos hkind]
  · exact absurd hkind Bool.false_ne_true

variable (lexer file)

/-- Where the edges of tokens, by number, are in the file. What has the file 0 is nowhere. -/
def relocation : Relocation where
  span s := ⟨Token.edge (lexer.significant file) s.start, Token.edge (lexer.significant file) s.stop,
    if s.file = 0 then 0 else lexer.file⟩
  title name := if name = "core" then name else file.name

theorem isRelayout_relocation : (lexer.relocation file).IsRelayout :=
  ⟨rfl, by simp [relocation, Span.dummy, Token.edge_zero]⟩

theorem relocation_merge (a b : Span) : (lexer.relocation file).span (a.merge b) =
    ((lexer.relocation file).span a).merge ((lexer.relocation file).span b) := by
  have hmono := Token.monotone_edge (lexer.pairwise_edges file)
  simp only [relocation, Span.merge, hmono.map_min, hmono.map_max]

def reading : Reading := ⟨lexer.significant file, file.text.toList, lexer.relocation file, 0⟩

end Lexer

/-- The tokens from `i` to `j` by the numbers of their edges. -/
def Span.slot (i j : Nat) : Span := ⟨2 * i + 1, 2 * j + 2, 1⟩

section

variable (lexer lexer' : Lexer) (file file' : SourceFile)

def Lexer.pairing : Pairing where
  valid s := ∃ i j, i ≤ j ∧ j < (lexer.significant file).length ∧ s = .slot i j
  left := lexer.reading file
  right := lexer'.reading file'

theorem Lexer.compatible_pairing : (lexer.pairing lexer' file file').Compatible where
  merge_valid := by
    rintro _ _ ⟨i, j, hij, hj, rfl⟩ ⟨k, l, hkl, hl, rfl⟩
    refine ⟨min i k, max j l, by omega, by omega, ?_⟩
    simp only [Span.slot, Span.merge, Span.mk.injEq, and_true]
    omega
  merge_left := lexer.relocation_merge file
  merge_right := lexer'.relocation_merge file'

variable {lexer lexer' file file'}

theorem Lexer.isRange_slot {i j : Nat} (hij : i ≤ j) (hj : j < (lexer.significant file).length) :
    ((lexer.relocation file).span (.slot i j)).IsRange (lexer.significant file) i j := by
  have hi := hij.trans_lt hj
  refine ⟨hij, _, _, List.getElem?_eq_getElem hi, List.getElem?_eq_getElem hj, ?_⟩
  simp only [relocation, Span.slot, Token.edge_start (List.getElem?_eq_getElem hi),
    Token.edge_stop (List.getElem?_eq_getElem hj), file_of_mem (List.getElem_mem hi)]
  rfl

variable (h : List.Forall₂ Token.Same (lexer.significant file) (lexer'.significant file'))
include h

theorem Lexer.alike_slot {i j : Nat} (hij : i ≤ j) (hj : j < (lexer.significant file).length) :
    Span.Alike (lexer.significant file) (lexer'.significant file')
      ((lexer.relocation file).span (.slot i j)) ((lexer'.relocation file').span (.slot i j)) :=
  ⟨i, j, isRange_slot hij hj, isRange_slot hij (h.length_eq ▸ hj)⟩

theorem Lexer.parallel_tokens : List.Forall₂ (Token.Parallel (lexer.pairing lexer' file file'))
    (lexer.significant file) (lexer'.significant file') := by
  refine List.forall₂_iff_get.2 ⟨h.length_eq, fun i hi hi' => ?_⟩
  have hsame : Token.Same _ _ := h.get hi hi'
  have ht := List.getElem_mem hi
  have ht' := List.getElem_mem hi'
  have hget := List.getElem?_eq_getElem hi
  have hget' := List.getElem?_eq_getElem hi'
  simp only [List.get_eq_getElem] at hsame ⊢
  generalize (lexer.significant file)[i] = t at *
  generalize (lexer'.significant file')[i] = t' at *
  refine ⟨hsame.1.symm, hsame.2.symm, ⟨.slot i i, ?_, ?_, ?_⟩, fun hkind => ?_, i, hget, hget'⟩
  · exact Movable.within_iff.2 ⟨i, i, le_rfl, hi, rfl⟩
  · change (lexer.relocation file).span (.slot i i) = t.span
    simp only [relocation, Span.slot, Token.edge_start hget, Token.edge_stop hget,
      ← file_of_mem ht]
    rfl
  · change (lexer'.relocation file').span (.slot i i) = t'.span
    simp only [relocation, Span.slot, Token.edge_start hget', Token.edge_stop hget',
      ← file_of_mem ht']
    rfl
  · have htext : t.kind.hasText := by rcases hkind with hkind | hkind <;> rw [hkind] <;> rfl
    have htexts := hsame.2
    rw [text_of_mem ht htext, text_of_mem ht' (hsame.1 ▸ htext)] at htexts
    exact (String.ofList_injective (Option.some.inj htexts)).symm

theorem Lexer.parallel_start : (TokenStream.ofTokens (lexer.significant file) file.text).Parallel
    (lexer.pairing lexer' file file')
    (.ofTokens (lexer'.significant file') file'.text) :=
  ⟨parallel_tokens h, rfl, rfl, ⟨0, rfl, rfl⟩, 0, rfl, rfl⟩

end

/-! ## Parsing -/

section

variable {K : Pairing} {s s' p p' : TokenStream}

theorem ParseError.alike_ofPosition (hp : p.Parallel K p') (hne : p.tokens ≠ []) (e : Expected) :
    ParseError.Alike K.left.tokens K.right.tokens (.ofPosition p e) (.ofPosition p' e) := by
  rcases hp.first? with ⟨ht, -⟩ | ⟨t, t', ht, ht', htt⟩
  · exact absurd (List.head?_eq_none_iff.1 ht) hne
  obtain ⟨i, hi, hi'⟩ := htt.index
  have hspan : p.currentSpan = t.span := by rw [TokenStream.currentSpan, ht]; rfl
  have hspan' : p'.currentSpan = t'.span := by rw [TokenStream.currentSpan, ht']; rfl
  have hindex (err err' : ParseError) (herr : err.span = t.span) (herr' : err'.span = t'.span) :
      ∃ i : Nat, K.left.tokens[i]?.map Token.span = some err.span ∧
        K.right.tokens[i]?.map Token.span = some err'.span :=
    ⟨i, by rw [hi, herr, Option.map_some], by rw [hi', herr', Option.map_some]⟩
  unfold ofPosition
  rw [hp.firstKind?_eq]
  split
  · exact ⟨rfl, hindex _ _ hspan hspan'⟩
  · split
    · exact ⟨rfl, hindex _ _ hspan hspan'⟩
    · exact ⟨rfl, hindex _ _ hspan hspan'⟩
    · exact ⟨rfl, hindex _ _ hspan hspan'⟩

namespace Grammar

open Rule

/-- A unit without declarations has an empty span, which no tokens cover. -/
theorem block_of_atEnd (hs : s.atEnd) :
    block s = .accept ⟨⟨s.nextId, s.spanSince s⟩, []⟩ s.drawId := by
  simp only [block, located, declarationsWithin_of_atEnd hs, Reply.map]

theorem block_of_not_atEnd (hs : s.atEnd = false) : block s = located (do
    let d ← declaration.required .declaration
    let ds ← declarations
    return fun place => ⟨place, d :: ds⟩) s := by
  rw [block_eq]
  unfold located
  rw [map_apply, declarations_of_not_atEnd hs]
  simp only [Bind.bind, Pure.pure, Functor.map]
  cases (declaration.required .declaration) s with
  | accept d rest =>
    simp only
    cases declarations rest <;> rfl
  | decline p e => rfl
  | reject p e => rfl

theorem firm_block : block.Firm := by
  rw [block_eq]
  exact (firm_declarations.map _).located

theorem parallel_block (h : K.Compatible) (hs : s.Parallel K s') (hend : s.atEnd = false) :
    Reply.Parallel K 1 s K.Twins (block s) (block s') := by
  rw [block_of_not_atEnd hend, block_of_not_atEnd (hs.atEnd_eq.trans hend)]
  exact Parallel.located h (((parallel_declaration h).required _).bind fun _ _ hd =>
    (parallel_declarations h).bind fun _ _ hds => parallel_pure fun _ _ hplace =>
      (hplace.prod (hd.prod hds)).map (fun x => Block.mk x.1 (x.2.1 :: x.2.2))
        fun _ _ => rfl) hs

end Grammar

end

/-! ## Analyses -/

theorem SemanticError.span_move (φ : Relocation) (e : SemanticError) :
    (e.move φ).span = φ.span e.span := by
  cases e <;> rfl

theorem SemanticError.move_eq_withSpan (φ φ' : Relocation) (e : SemanticError) :
    e.move φ' = (e.move φ).withSpan (e.move φ').span := by
  cases e <;> rfl

theorem Library.new_move (φ : Relocation) (id : LibraryId) (name : String) :
    (new id name).move φ = new id (φ.title name) := by
  simp [new, move_eq]

/-- An error concerns a part of the unit, or nothing that is written. -/
theorem Block.valid_of_mem_errors {valid : Span → Prop} {b : Block} (hb : Movable.Within valid b)
    {id : LibraryId} {name : String} {e : SemanticError}
    (he : e ∈ (b.analyze [.core id] (.new (id + 1) name)).errors) :
    valid e.span ∨ e.span = .dummy := by
  classical
  -- a relocation that leaves the unit in its place leaves the errors in theirs
  let φ : Relocation :=
    { span := fun s => if valid s ∨ s = .dummy then s else ⟨s.start, s.stop + 1, s.file⟩ }
  have hφ : φ.IsRelayout := ⟨rfl, if_pos (.inr rfl)⟩
  have hmove := b.analyze_move hφ [.core id] (.new (id + 1) name)
  have hb' : b.move φ = b := hb φ rfl fun s hs => if_pos (.inl hs)
  have htitle : φ.title name = name := rfl
  rw [hb', List.map_singleton, Library.core_move hφ rfl, Library.new_move, htitle] at hmove
  have herrors := congrArg Context.errors hmove
  have hself : e.move φ = e := by
    have := List.map_inj_left.1 ((List.map_id _).trans herrors) e he
    exact this.symm
  by_contra hspan
  have hstop := congrArg (fun e : SemanticError => e.span.stop) hself
  rw [SemanticError.span_move, show φ.span e.span = _ from if_neg hspan] at hstop
  simp at hstop

section

variable (place : Place) (deps : List Library) (target : Library)

theorem Block.errors_analyze_nil : (analyze ⟨place, []⟩ deps target).errors = [] := rfl

theorem Block.library_analyze_nil :
    (analyze ⟨place, []⟩ deps target).library = (Context.start deps target).library := rfl

theorem Context.symbols_start_new (id : LibraryId) (name : String) :
    (Context.start deps (.new id name)).library.symbols = #[] :=
  Context.keeps_start (P := fun lib => lib.symbols = #[]) (fun _ => rfl) (fun _ => rfl)
    fun lib h dep _ => (lib.symbols_link dep).trans h

end

section

variable {lexer : Lexer} {file : SourceFile} {b : Block} (h : lexer.parse file = .ok b)
include h

theorem Lexer.start_lt_stop_name {name : Ident} (hname : name ∈ b.tree.names) :
    name.span.start < name.span.stop := by
  have hmem := Block.token_mem_of_parse h hname
  obtain ⟨tokens, hcuts, htokens⟩ := lexer.exists_tokenize_eq file.text
  rw [htokens, List.mem_append, List.mem_singleton] at hmem
  refine hcuts.covers.tiles.inOrder.1.start_lt_stop name.token (hmem.resolve_right fun heof => ?_)
  have hkind := congrArg Token.kind heof
  simp [Ident.token, Token.eof] at hkind

/-- The nodes and names of a unit with declarations stand on text. -/
theorem Lexer.liesIn_text (hb : b.declarations ≠ []) :
    b.tree.LiesIn fun span => span.start < span.stop := by
  intro n hn
  refine ⟨?_, fun name hname => start_lt_stop_name h (List.mem_flatMap.2 ⟨n, hn, hname⟩)⟩
  rw [← Tree.map_root_subtrees] at hn
  obtain ⟨t, ht, rfl⟩ := List.mem_map.1 hn
  exact (Block.fits_of_parse h hb t ht).start_lt_stop

/-- So do errors, if there is nothing but the built-in types. -/
theorem Lexer.start_lt_stop_of_mem_errors {id k : LibraryId} (hid : id ≠ k) (name : String) :
    ∀ e ∈ (b.analyze [.core id] (.new k name)).errors, e.span.start < e.span.stop := by
  by_cases hb : b.declarations = []
  · obtain ⟨place, declarations⟩ := b
    obtain rfl : declarations = [] := hb
    simp [Block.errors_analyze_nil]
  · have hnameless : ∀ dep ∈ Library.reachAll [.core id], dep.global? "" = none := by
      intro dep hdep
      obtain rfl : dep = .core id := by
        simpa [Library.reachAll, Library.reach_eq, Library.core_dependencies] using hdep
      rw [Library.global?, OrderedMap.get?, (Library.core_spec id).2.2.2.1]
      rfl
    have hdeclare : b.CanDeclare [.core id] := .inr hnameless
    exact (Block.numbered_of_parse h).forall_mem_errors (Block.isFresh_core hid name)
      (hdeclare.canMake h k name) (liesIn_text h hb)

end

section

variable {lexer lexer' : Lexer} {file file' : SourceFile}
  (h : List.Forall₂ Token.Same (lexer.significant file) (lexer'.significant file'))
include h

theorem Block.alike_analyze {b b' : Block} (hb : (lexer.pairing lexer' file file').Twins b b')
    (hparse : lexer.parse file = .ok b) (id : LibraryId) : Checked.Alike (lexer.significant file) (lexer'.significant file')
      ⟨b, b.analyze [.core id] (.new (id + 1) file.name)⟩
      ⟨b', b'.analyze [.core id] (.new (id + 1) file'.name)⟩ := by
  obtain ⟨y, hy, rfl, rfl⟩ := hb
  have hrun (lexer : Lexer) (file : SourceFile) :
      (y.move (lexer.relocation file)).analyze [.core id] (.new (id + 1) file.name) =
        (y.analyze [.core id] (.new (id + 1) "")).move (lexer.relocation file) := by
    have hφ := lexer.isRelayout_relocation file
    have := y.analyze_move hφ [.core id] (.new (id + 1) "")
    rw [List.map_singleton, Library.core_move hφ rfl, Library.new_move] at this
    exact this
  have hleft := hrun lexer file
  have hright := hrun lexer' file'
  refine ⟨?_, ?_⟩
  · change List.Forall₂ _ (Block.analyze (y.move (lexer.relocation file)) _ _).errors
      (Block.analyze (y.move (lexer'.relocation file')) _ _).errors
    rw [hleft, hright]
    refine List.forall₂_map_left_iff.2 (List.forall₂_map_right_iff.2
      (List.forall₂_same.2 fun e he => ⟨SemanticError.move_eq_withSpan _ _ e, ?_⟩))
    rcases Block.valid_of_mem_errors hy he with ⟨i, j, hij, hj, hspan⟩ | hspan
    · rw [SemanticError.span_move, SemanticError.span_move, hspan]
      exact Lexer.alike_slot h hij hj
    · -- an error that concerns nothing that is written would cover no text
      have herror : e.move (lexer.relocation file) ∈
          ((y.move (lexer.relocation file)).analyze [.core id] (.new (id + 1) file.name)).errors := by
        rw [hleft]
        exact List.mem_map_of_mem he
      have hlt := Lexer.start_lt_stop_of_mem_errors hparse (Nat.ne_of_lt id.lt_succ_self) _ _ herror
      rw [SemanticError.span_move, hspan, (lexer.isRelayout_relocation file).span_dummy] at hlt
      exact absurd hlt (Nat.lt_irrefl _)
  · change (Block.analyze (y.move (lexer.relocation file)) _ _).library.describe =
      (Block.analyze (y.move (lexer'.relocation file')) _ _).library.describe
    rw [hleft, hright, Context.move_library, Context.move_library, Library.describe_move,
      Library.describe_move]

end

/-! ## Checks -/

namespace SourceFile

variable {lexer lexer' : Lexer} {file file' : SourceFile}

theorem parse_of_accept {b : Block} {rest : TokenStream}
    (h : Grammar.block (.ofTokens (lexer.significant file) file.text) = .accept b rest) :
    lexer.parse file = .ok b := by
  rw [Lexer.parse, Block.parse, show Token.significant _ = lexer.significant file from rfl, h]
  rfl

theorem check_of_parse {b : Block} {id : LibraryId} (h : lexer.parse file = .ok b) :
    file.check lexer (.core id) =
      .ok ⟨b, b.analyze [.core id] (.new (id + 1) file.name)⟩ := by
  rw [check, h, Library.core_id]
  rfl

theorem check_of_reject {p : TokenStream} {e : Expected} {core : Library}
    (h : Grammar.block (.ofTokens (lexer.significant file) file.text) = .reject p e) :
    file.check lexer core = .error (.ofPosition p e) := by
  rw [check, Lexer.parse, Block.parse_of_reject h]
  rfl

/-- A rejection stands in front of some token, if only in front of the end of the input. -/
theorem ne_nil_of_reject {p : TokenStream} {e : Expected}
    (h : Grammar.block (.ofTokens (lexer.significant file) file.text) = .reject p e) :
    p.tokens ≠ [] := by
  obtain ⟨ts, htokens, -, -, c, -, hne, -⟩ := Grammar.block_of_reject h
  obtain ⟨tokens, hcuts, heof⟩ := lexer.exists_tokenize_eq file.text
  have hend : Token.EndsOnce (lexer.tokenize file.text) :=
    ⟨tokens, _, heof, rfl, hcuts.covers.kind_ne_eof⟩
  change Token.significant _ = _ at htokens
  exact (htokens ▸ hend.significant).ne_nil_of_append
    fun t ht => hne t (List.mem_append_left c ht)

end SourceFile

end Sable
