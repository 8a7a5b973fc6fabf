import Sable.Proofs.Grammar.Relocating
import Sable.Proofs.Grammar.ViablePrefix
import Sable.Proofs.Token.Following

/-!
# Units on consecutive lines

A unit is put on the line behind another one. The grammar reads the declarations of the first unit
as it did, for it looks at no token behind a declaration. Then it reads those of the second unit,
which stand further on and have greater numbers.

## Main definitions

* `Relocation.shifting`: further on, and with greater numbers.
* `TokenStream.Shifts`: the same tokens, further on.

## Main statements

* `Grammar.declarations_shift`: declarations that stand further on.
* `Grammar.declarations_append`: declarations in front of others.
* `Block.parse_append_newline`: the unit that two units make up.
-/
namespace Sable

open TokenStream Token Rule

theorem Span.shift_merge (n : Nat) (a b : Span) :
    (a.merge b).shift n = (a.shift n).merge (b.shift n) := by
  simp only [Span.shift, Span.merge, Nat.add_min_add_right, Nat.add_max_add_right]

/-- Further on by `offset`, with numbers that are greater by `shift`. -/
def Relocation.shifting (offset shift : Nat) : Relocation := ⟨Span.shift offset, shift, id⟩

/-! ## The same tokens further on -/

namespace TokenStream

/-- The same tokens are ahead, further on in another text. -/
structure Shifts (offset shift : Nat) (s s' : TokenStream) : Prop where
  tokens_eq : s'.tokens = s.tokens.map (Token.shift offset)
  lexeme_eq : ∀ t ∈ s.tokens, t.kind = .integerLiteral ∨ t.kind = .floatLiteral →
    (t.shift offset).lexeme s'.source = t.lexeme s.source
  nextId_eq : s'.nextId = s.nextId + shift

/-- One text where it is, and the other one further on. -/
def shiftedPair (offset shift : Nat) (s s' : TokenStream) : Pairing where
  valid _ := True
  left := ⟨s.tokens, s.source, .shifting 0 0, s.start⟩
  right := ⟨s'.tokens, s'.source, .shifting offset shift, s'.start⟩

variable {offset shift : Nat} {s s' : TokenStream}

theorem compatible_shiftedPair : (shiftedPair offset shift s s').Compatible where
  merge_valid _ _ _ _ := trivial
  merge_left := Span.shift_merge 0
  merge_right := Span.shift_merge offset

section

variable {α : Type} [Movable α] {x x' : α}

theorem eq_move_of_twins (h : (shiftedPair offset shift s s').Twins x x') :
    x' = Movable.move (.shifting offset shift) x := by
  obtain ⟨y, hy, rfl, rfl⟩ := h
  have hleft : Movable.move (.shifting 0 0) y = y := hy (.shifting 0 0) rfl fun _ _ => rfl
  exact congrArg _ hleft.symm

theorem eq_of_twins (h : (shiftedPair 0 0 s s').Twins x x') : x' = x := by
  obtain ⟨y, -, rfl, rfl⟩ := h
  rfl

end

theorem Shifts.parallel (h : Shifts offset shift s s') :
    s.Parallel (shiftedPair offset shift s s') s' := by
  refine ⟨?_, rfl, rfl, ⟨0, by simp [shiftedPair], by simp [shiftedPair]⟩, s.nextId, rfl,
    h.nextId_eq⟩
  rw [h.tokens_eq, List.forall₂_map_right_iff, List.forall₂_iff_get]
  refine ⟨rfl, fun i hi _ => ?_⟩
  have hget : s.tokens[i]? = some (s.tokens.get ⟨i, hi⟩) := List.getElem?_eq_getElem hi
  refine
    { kind_eq := rfl
      text_eq := rfl
      span := ⟨_, fun _ _ hφ => hφ _ trivial, rfl, rfl⟩
      lexeme_eq := h.lexeme_eq _ (List.get_mem _ _)
      index := ⟨i, hget, ?_⟩ }
  change s'.tokens[i]? = _
  rw [h.tokens_eq, List.getElem?_map, hget]
  rfl

end TokenStream

namespace Grammar

variable {s s' rest : TokenStream} {ds : List Declaration}

/-- Further on in another text, the same declarations are read. -/
theorem declarations_shift {offset shift : Nat} (h : s.Shifts offset shift s')
    (hds : declarations s = .accept ds rest) : ∃ ds' rest',
    declarations s' = .accept ds' rest' ∧ (shiftedPair offset shift s s').Twins ds ds' ∧
      rest'.nextId = rest.nextId + shift := by
  have hreply := parallel_declarations compatible_shiftedPair h.parallel
  rw [hds] at hreply
  generalize declarations s' = a at hreply ⊢
  cases hreply with
  | accept hvalue hposition _ =>
    obtain ⟨n, hn, hn'⟩ := hposition.nextId
    have hn : rest.nextId = n := hn
    exact ⟨_, _, rfl, hvalue, by rw [hn, hn']; rfl⟩

/-! ## One unit in front of another -/

/-- Declarations are read without a look at what follows them. -/
theorem declarations_append (hds : declarations s = .accept ds rest) : ∃ ts,
    s.tokens = ts ++ rest.tokens ∧ ∀ us, us ≠ [] →
      declarations (s.facing (ts ++ us)) = (declarations (rest.facing us)).map (ds ++ ·) := by
  induction ds generalizing s with
  | nil =>
    cases hend : s.atEnd with
    | true =>
      rw [declarations_of_atEnd hend] at hds
      obtain ⟨-, rfl⟩ := Reply.accept.inj hds
      refine ⟨[], rfl, fun us _ => ?_⟩
      rw [List.nil_append]
      cases declarations (s.facing us) <;> rfl
    | false =>
      rw [declarations_of_not_atEnd hend] at hds
      obtain ⟨d, s₁, -, hmore⟩ := bind_eq_accept.1 hds
      obtain ⟨ds, -, heq⟩ := map_eq_accept.1 hmore
      exact absurd heq (List.cons_ne_nil d ds)
  | cons d ds ih =>
    have hend : s.atEnd = false := by
      by_contra hend
      rw [declarations_of_atEnd (by simpa using hend)] at hds
      simp at hds
    rw [declarations_of_not_atEnd hend] at hds
    obtain ⟨d', s₁, hd, hmore⟩ := bind_eq_accept.1 hds
    obtain ⟨ds', hrest, heq⟩ := map_eq_accept.1 hmore
    obtain ⟨rfl, rfl⟩ := List.cons.inj heq
    obtain ⟨ts, htokens, htakes⟩ :=
      (completable_declaration _).predictive.accept (Nat.lt_succ_self _) hd
    obtain ⟨us, htokens', hfront⟩ := ih hrest
    refine ⟨ts ++ us, by rw [htokens, htokens', List.append_assoc], fun vs hvs => ?_⟩
    have hne : ts ≠ [] := htakes.ne_nil (progresses_declaration.required _) s₁.tokens (.inl rfl)
    have hhead : (ts ++ (us ++ vs)).head? = s.tokens.head? := by
      rw [htokens]
      exact head?_append_eq hne _ _
    have hmore : Heads (fun _ => True) (us ++ vs) := by
      obtain ⟨t, ws, hws⟩ := List.exists_cons_of_ne_nil (List.append_ne_nil_of_right_ne_nil us hvs)
      exact hws ▸ heads_cons trivial ws
    rw [List.append_assoc, declarations_of_not_atEnd ((atEnd_facing hhead).trans hend),
      bind_of_accept (htakes.accept _ (.inr hmore)), map_apply, hfront vs hvs]
    cases declarations (rest.facing vs) <;> rfl

end Grammar

/-! ## Units -/

namespace Lexer

variable (lexer : Lexer) (source : String) {text : String} {cs : List Char}

/-- The tokens of a text, where more is written behind. -/
theorem shifts_front (h : text.toList = source.toList ++ cs) :
    (ofTokens (Token.significant (lexer.tokenize source)) source).Shifts 0 0
      (ofTokens (Token.significant (lexer.tokenize source)) text) where
  tokens_eq := (List.map_id _).symm
  lexeme_eq t ht hkind := by
    have heof : t.kind ≠ .eof := by rcases hkind with hkind | hkind <;> simp [hkind]
    change t.lexeme text.toList = t.lexeme source.toList
    rw [h]
    exact lexeme_append (List.mem_of_mem_filter ht) heof cs
  nextId_eq := rfl

/-- The tokens of a text, where more is written in front. -/
theorem shifts_behind {s : TokenStream} (h : s.source = cs ++ source.toList) :
    (ofTokens (Token.significant (lexer.tokenize source)) source).Shifts (Text.byteLength cs)
      s.nextId (s.facing ((Token.significant (lexer.tokenize source)).map
        (Token.shift (Text.byteLength cs)))) where
  tokens_eq := rfl
  lexeme_eq t ht hkind := by
    have heof : t.kind ≠ .eof := by rcases hkind with hkind | hkind <;> simp [hkind]
    change (t.shift _).lexeme s.source = t.lexeme source.toList
    rw [h]
    exact lexeme_shift (List.mem_of_mem_filter ht) heof cs
  nextId_eq := (Nat.zero_add _).symm

variable {lexer source}

/-- The declarations of a text, in front of other tokens. -/
theorem declarations_facing {tokens us : List Token} (h : lexer.Cuts 0 source.toList tokens)
    {ds : List Declaration} {rest : TokenStream} (hds : Grammar.declarations
      (.ofTokens (Token.significant (lexer.tokenize source)) text) = .accept ds rest)
    (hus : us ≠ []) : Grammar.declarations (.ofTokens (Token.significant tokens ++ us) text) =
      (Grammar.declarations (rest.facing us)).map (ds ++ ·) := by
  obtain ⟨ts, hts, hfollow⟩ := Grammar.declarations_append hds
  obtain ⟨⟨us, -, hadv⟩, hend⟩ := Grammar.declarationsWithin_phrases hds le_rfl
  have hfront : ts = Token.significant tokens := by
    have hbefore : beforeEof (lexer.tokenize source) = tokens := by
      rw [tokenize_eq_iff.2 h, h.covers.beforeEof_eq]
    rw [List.append_cancel_right (hts.symm.trans hadv.tokens_eq), ← hadv.beforeEof_eq hend,
      ← hbefore, significant_beforeEof]
    rfl
  rw [← hfront]
  exact hfollow _ hus

theorem significant_tokenize_ne_nil (lexer : Lexer) (source : String) :
    Token.significant (lexer.tokenize source) ≠ [] := by
  obtain ⟨tokens, -, htokens⟩ := lexer.exists_tokenize_eq source
  rw [htokens, significant_append]
  exact List.append_ne_nil_of_right_ne_nil _ (List.cons_ne_nil _ _)

end Lexer

namespace Block

variable {tokens : List Token} {source : String} {b : Block}

theorem declarations_of_parse (h : Block.parse tokens source = .ok b) : ∃ rest,
    Grammar.declarations (.ofTokens (significant tokens) source) = .accept b.declarations rest ∧
      b.place.id = rest.nextId := by
  obtain ⟨rest, hb⟩ := accept_of_parse h
  rw [Grammar.block_eq] at hb
  obtain ⟨build, rest', hbuild, rfl, -⟩ := located_eq_accept.1 hb
  obtain ⟨ds, hds, rfl⟩ := map_eq_accept.1 hbuild
  exact ⟨rest', hds, rfl⟩

theorem parse_of_declarations {ds : List Declaration} {rest : TokenStream}
    (h : Grammar.declarations (.ofTokens (significant tokens) source) = .accept ds rest) :
    ∃ b, Block.parse tokens source = .ok b ∧ b.declarations = ds ∧ b.place.id = rest.nextId := by
  have hb : Grammar.block (.ofTokens (significant tokens) source) =
      .accept ⟨⟨rest.nextId, rest.spanSince (.ofTokens (significant tokens) source)⟩, ds⟩
        rest.drawId := by
    rw [Grammar.block_eq]
    exact located_eq_accept.2 ⟨_, rest, map_eq_accept.2 ⟨ds, h, rfl⟩, rfl, rfl⟩
  refine ⟨⟨⟨rest.nextId, rest.spanSince (.ofTokens (significant tokens) source)⟩, ds⟩, ?_, rfl, rfl⟩
  rw [Block.parse, hb]
  rfl

/-- What is parsed was recognized. -/
theorem kind_ne_unrecognized_of_parse (h : Block.parse tokens source = .ok b) {t : Token}
    (ht : t ∈ beforeEof tokens) : t.kind ≠ .unrecognized := by
  intro hkind
  obtain ⟨ts, rest, -, hend, hadv⟩ := Block.parse_advances h
  have hall : significant (beforeEof tokens) = ts := by
    rw [significant_beforeEof]
    exact hadv.beforeEof_eq hend
  have hmem : t ∈ ts := by
    rw [← hall]
    simpa [significant, isTrivia, hkind, TokenKind.isTrivia] using ht
  exact (hadv.isMeaningful t hmem).2 hkind

/-- The unit that two units make up: the declarations of the first one, and then those of the
second one in their places behind it. -/
theorem parse_append_newline {lexer : Lexer} (hlexer : lexer.vocabulary = .standard)
    {source source' : String} {b b' : Block}
    (h : Block.parse (lexer.tokenize source) source = .ok b)
    (h' : Block.parse (lexer.tokenize source') source' = .ok b')
    (hopen : lexer.LeavesOpen source → ¬ ['*', '/'] <:+: source'.toList) : ∃ joined n,
    Block.parse (lexer.tokenize (source ++ "\n" ++ source')) (source ++ "\n" ++ source') =
        .ok joined ∧
      joined.declarations = b.declarations ++
        (b'.move (.shifting (source.utf8ByteSize + 1) n)).declarations ∧
      (b'.move (.shifting (source.utf8ByteSize + 1) n)).place.id = joined.place.id := by
  obtain ⟨tokens, hcuts, htokens⟩ := lexer.exists_tokenize_eq source
  have hkind : ∀ t ∈ tokens, t.kind ≠ .unrecognized := by
    intro t ht
    apply kind_ne_unrecognized_of_parse h
    rwa [htokens, hcuts.covers.beforeEof_eq]
  have hsignificant := lexer.significant_append_newline hlexer hcuts hkind hopen
  have hlist : (source ++ "\n" ++ source').toList = source.toList ++ ['\n'] ++ source'.toList := by
    rw [String.toList_append, String.toList_append]
    rfl
  have hlength : source.utf8ByteSize + 1 = Text.byteLength (source.toList ++ ['\n']) := by
    rw [Text.byteLength_append, Text.byteLength_toList]
    rfl
  rw [hlength] at hsignificant ⊢
  generalize source ++ "\n" ++ source' = text at hsignificant hlist ⊢
  obtain ⟨first, hfirst, -⟩ := declarations_of_parse h
  obtain ⟨second, hsecond, hid⟩ := declarations_of_parse h'
  -- the first unit, in front of whatever follows
  obtain ⟨ds, rest, hds, htwins, -⟩ := Grammar.declarations_shift
    (lexer.shifts_front source (hlist.trans (List.append_assoc ..))) hfirst
  obtain rfl := eq_of_twins htwins
  have hne : (significant (lexer.tokenize source')).map
      (Token.shift (Text.byteLength (source.toList ++ ['\n']))) ≠ [] := by
    rw [Ne, List.map_eq_nil_iff]
    exact lexer.significant_tokenize_ne_nil source'
  have hfollow := Lexer.declarations_facing hcuts hds hne
  -- the second unit, behind it
  obtain ⟨⟨_, -, hadv⟩, -⟩ := Grammar.declarationsWithin_phrases hds le_rfl
  obtain ⟨ds', rest', hds', htwins', hid'⟩ := Grammar.declarations_shift
    (lexer.shifts_behind source' (hadv.source_eq.trans hlist)) hsecond
  obtain rfl := eq_move_of_twins htwins'
  rw [hds', ← hsignificant] at hfollow
  obtain ⟨joined, hparse, hjoined, hplace⟩ := parse_of_declarations hfollow
  refine ⟨joined, rest.nextId, hparse, hjoined, ?_⟩
  rw [hplace, hid', ← hid]
  rfl

end Block

end Sable
