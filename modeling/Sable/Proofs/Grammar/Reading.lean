import Sable.Proofs.Grammar.Frugal
import Sable.Proofs.Grammar.Phrases
import Sable.Proofs.Syntax.Nesting

/-!
# What rules read

A rule that accepts has read some tokens, and these are a phrase of what it accepts. On the way it
has numbered the nodes of the accepted trees, each when all of it was read. The rules of the
grammar are built by a few combinators, and so is what is known of them.

## Main definitions

* `TokenStream.Advances`: how a stream goes on when tokens are read and trees are finished.
* `Rule.Yields`: whatever the rule accepts, it has read as a phrase, and where it declines, it has
  drawn no number.
* `Rule.Extends`: a rule that goes on behind a phrase makes a longer phrase of it.

## Main statements

* `Rule.Yields.append`: reading goes on.
* `TokenStream.Advances.close`: a node is finished.
* `Rule.Yields.progresses`: what makes a repetition come to its end.
* `Rule.yields_many`, `Rule.yields_commaList`: repetition.
-/
namespace Sable

/-- Kinds that have a meaning for the grammar. The end of input has none: it is never read over. -/
def TokenKind.IsMeaningful (kind : TokenKind) : Prop := kind ≠ .eof ∧ kind ≠ .unrecognized

/-- The span begins no later than the tokens, and ends no earlier. -/
structure Span.Encloses (span : Span) (ts : List Token) : Prop where
  start_le : ∃ first, ts.head? = some first ∧ span.start ≤ first.span.start
  le_stop : ∃ last, ts.getLast? = some last ∧ last.span.stop ≤ span.stop

namespace Span.Encloses

variable {a b : Span} {ts us : List Token}

theorem merge_left (h : a.Encloses ts) (b : Span) : (a.merge b).Encloses ts := by
  obtain ⟨⟨first, hfirst, hstart⟩, last, hlast, hstop⟩ := h
  exact ⟨⟨first, hfirst, (Nat.min_le_left _ _).trans hstart⟩,
    last, hlast, hstop.trans (Nat.le_max_left _ _)⟩

/-- Two spans enclose what stands between them. -/
theorem merge (h : a.Encloses ts) (h' : b.Encloses us) (between : List Token) :
    (a.merge b).Encloses (ts ++ between ++ us) := by
  obtain ⟨⟨first, hfirst, hstart⟩, -⟩ := h
  obtain ⟨-, last, hlast, hstop⟩ := h'
  refine ⟨⟨first, ?_, (Nat.min_le_left _ _).trans hstart⟩,
    last, ?_, hstop.trans (Nat.le_max_right _ _)⟩
  · rw [List.append_assoc, List.head?_append, hfirst, Option.some_or]
  · rw [List.getLast?_append, hlast, Option.some_or]

end Span.Encloses

/-- An expression reaches over some of the tokens. If it is a literal or an operator, one of these
is no identifier. -/
def Node.ReachesOver (n : Node) (ts : List Token) : Prop :=
  n.kind.isExpression = true → ∃ us, us.Sublist ts ∧ n.span.Encloses us ∧
    (n.head.isBuiltin = true → ∃ t ∈ us, t.kind ≠ .identifier)

theorem Node.ReachesOver.mono {n : Node} {ts us : List Token} (h : n.ReachesOver ts)
    (hts : ts.Sublist us) : n.ReachesOver us := by
  intro hn
  obtain ⟨vs, hvs, hencloses, hbuiltin⟩ := h hn
  exact ⟨vs, hvs.trans hts, hencloses, hbuiltin⟩

/-- From `s` to `rest`, the tokens `ts` are read and the nodes of `trees` are finished. These nodes
take the next numbers one after another, and all names in them stand among the tokens. The trees
stand side by side if the tokens do. -/
structure TokenStream.Advances (s : TokenStream) (ts : List Token) (trees : List Tree)
    (rest : TokenStream) : Prop where
  tokens_eq : s.tokens = ts ++ rest.tokens
  source_eq : rest.source = s.source
  start_eq : rest.start = s.start + ts.length
  isMeaningful : ∀ t ∈ ts, t.kind.IsMeaningful
  nextId_eq : rest.nextId = s.nextId + Tree.sizes trees
  ids_eq : (Tree.postorders trees).map Node.id = List.range' s.nextId (Tree.sizes trees)
  token_mem : ∀ n ∈ Tree.postorders trees, ∀ name ∈ n.head.names, name.token ∈ ts
  reachesOver : ∀ n ∈ Tree.postorders trees, n.ReachesOver ts
  nests : Token.InOrder ts → Tree.AllNest trees ts

namespace TokenStream

variable {s s' rest : TokenStream} {ts us : List Token} {trees trees' : List Tree} {t : Token}

theorem advances_refl (s : TokenStream) : s.Advances [] [] s := by
  refine ⟨rfl, rfl, rfl, ?_, rfl, rfl, ?_, ?_, fun _ => trivial⟩
  · simp
  · simp [Tree.postorders]
  · simp [Tree.postorders]

theorem advances_tail (h : s.first? = some t) (ht : t.kind.IsMeaningful) :
    s.Advances [t] [] s.tail := by
  refine ⟨tokens_of_first? h, tail_source s, tail_start h, ?_, tail_nextId s, rfl, ?_, ?_,
    fun _ => trivial⟩
  · simpa using ht
  · simp [Tree.postorders]
  · simp [Tree.postorders]

theorem Advances.append (h : s.Advances ts trees s') (h' : s'.Advances us trees' rest) :
    s.Advances (ts ++ us) (trees ++ trees') rest := by
  refine ⟨?_, h'.source_eq.trans h.source_eq, ?_, ?_, ?_, ?_, ?_, ?_, fun hts => ?_⟩
  · rw [h.tokens_eq, h'.tokens_eq, List.append_assoc]
  · rw [h'.start_eq, h.start_eq, List.length_append, Nat.add_assoc]
  · intro t ht
    rcases List.mem_append.1 ht with ht | ht
    · exact h.isMeaningful t ht
    · exact h'.isMeaningful t ht
  · rw [h'.nextId_eq, h.nextId_eq, Tree.sizes_append, Nat.add_assoc]
  · rw [Tree.postorders_append, List.map_append, h.ids_eq, h'.ids_eq, h.nextId_eq,
      Tree.sizes_append, List.range'_append_1]
  · intro n hn name hname
    rw [Tree.postorders_append] at hn
    rcases List.mem_append.1 hn with hn | hn
    · exact List.mem_append_left _ (h.token_mem n hn name hname)
    · exact List.mem_append_right _ (h'.token_mem n hn name hname)
  · intro n hn
    rw [Tree.postorders_append] at hn
    rcases List.mem_append.1 hn with hn | hn
    · exact (h.reachesOver n hn).mono (List.sublist_append_left _ _)
    · exact (h'.reachesOver n hn).mono (List.sublist_append_right _ _)
  · exact Tree.allNest_append (h.nests (hts.sublist (List.sublist_append_left _ _)))
      (h'.nests (hts.sublist (List.sublist_append_right _ _)))

/-- The span since an earlier position is merged of the first and the last token. -/
theorem Advances.exists_spanSince (h : s.Advances ts trees rest) (hts : ts ≠ []) :
    ∃ first last, ts.head? = some first ∧ ts.getLast? = some last ∧
      rest.spanSince s = first.span.merge last.span := by
  obtain ⟨first, us, rfl⟩ := List.exists_cons_of_ne_nil hts
  have hfirst : s.first? = some first := by rw [first?, h.tokens_eq]; rfl
  have hstart : rest.start - s.start = us.length + 1 := by
    rw [h.start_eq, List.length_cons]
    omega
  obtain ⟨last, hlast⟩ : ∃ last, (first :: us).getLast? = some last := by simp [List.getLast?_cons]
  have htokens : s.tokens[us.length]? = some last := by
    rw [h.tokens_eq, List.getElem?_append_left (by simp), ← hlast, List.getLast?_eq_getElem?]
    rfl
  exact ⟨first, last, rfl, hlast, by simp only [spanSince, hfirst, hstart, htokens]⟩

/-- The tokens of a rule are enclosed in the span of its node. -/
theorem Advances.encloses (h : s.Advances ts trees rest) (hts : ts ≠ []) :
    (rest.spanSince s).Encloses ts := by
  obtain ⟨first, last, hfirst, hlast, hspan⟩ := h.exists_spanSince hts
  rw [hspan]
  exact ⟨⟨first, hfirst, Nat.min_le_left _ _⟩, ⟨last, hlast, Nat.le_max_right _ _⟩⟩

/-- A node that covers all the tokens of its rule stands on them. -/
theorem Advances.nests_located {head : Head} (h : s.Advances ts trees rest) (hts : ts ≠ [])
    (horder : Token.InOrder ts) :
    (Tree.node ⟨⟨rest.nextId, rest.spanSince s⟩, head⟩ trees).Nests ts := by
  obtain ⟨first, last, hfirst, hlast, hspan⟩ := h.exists_spanSince hts
  obtain ⟨us, hus⟩ := List.head?_eq_some_iff.1 hfirst
  obtain ⟨vs, hvs⟩ := List.getLast?_eq_some_iff.1 hlast
  refine .inr ⟨ts, List.infix_rfl, ?_, h.nests horder⟩
  rw [Node.span, hspan]
  exact (Span.isHull_token first).merge (Span.isHull_token last) horder ⟨us, hus.symm⟩
    ⟨vs, hvs.symm⟩

/-- What an expression reaches over. -/
theorem Advances.encloses_expr {e : Expr} (h : s.Advances ts (e.tree :: trees) rest) :
    ∃ us, us.Sublist ts ∧ e.span.Encloses us := by
  have hmem : e.tree.root ∈ Tree.postorders (e.tree :: trees) :=
    List.mem_append_left _ e.tree.root_mem_postorder
  obtain ⟨us, hus, hencloses, -⟩ := h.reachesOver _ hmem e.isExpression_root
  exact ⟨us, hus, e.span_root ▸ hencloses⟩

/-- A node is finished when its children are. -/
theorem Advances.close {head : Head} {span : Span} (h : s.Advances ts trees rest)
    (hnames : ∀ name ∈ head.names, name.token ∈ ts)
    (hreaches : (⟨⟨rest.nextId, span⟩, head⟩ : Node).ReachesOver ts)
    (hnests : Token.InOrder ts → (Tree.node ⟨⟨rest.nextId, span⟩, head⟩ trees).Nests ts) :
    s.Advances ts [.node ⟨⟨rest.nextId, span⟩, head⟩ trees] rest.drawId := by
  refine ⟨h.tokens_eq, h.source_eq, h.start_eq, h.isMeaningful, ?_, ?_, ?_, ?_,
    fun hts => Tree.allNest_singleton.2 (hnests hts)⟩
  · simp [Tree.sizes, Tree.size, h.nextId_eq, Nat.add_assoc]
  · simp [Tree.sizes, Tree.size, Tree.postorders, Tree.postorder, h.ids_eq, Node.id, h.nextId_eq,
      List.range'_concat]
  · intro n hn name hname
    simp only [Tree.postorders, Tree.postorder, List.append_nil, List.mem_append,
      List.mem_singleton] at hn
    rcases hn with hn | rfl
    · exact h.token_mem n hn name hname
    · exact hnames name hname
  · intro n hn
    simp only [Tree.postorders, Tree.postorder, List.append_nil, List.mem_append,
      List.mem_singleton] at hn
    rcases hn with hn | rfl
    · exact h.reachesOver n hn
    · exact hreaches

/-- Of a node that is no expression, only the names matter. -/
theorem Advances.close_plain {head : Head} (h : s.Advances ts trees rest)
    (hplain : head.kind.isExpression = false) (hnames : ∀ name ∈ head.names, name.token ∈ ts)
    (hts : ts ≠ []) :
    s.Advances ts [.node ⟨⟨rest.nextId, rest.spanSince s⟩, head⟩ trees] rest.drawId :=
  h.close hnames (fun hn => absurd hn (by simp [Node.kind, hplain])) (h.nests_located hts)

end TokenStream

open TokenStream Phrases

namespace Rule

variable {α β : Type} {s s' rest : TokenStream} {ts : List Token} {trees : List Tree}

/-- What the rule accepts has the trees `trees`, and its tokens are of the language `L`, which may
depend on the source text. Where it declines, no node was finished in vain. -/
structure Yields (r : Rule α) (trees : α → List Tree) (L : List Char → α → Phrases) : Prop where
  advances : ∀ ⦃s x rest⦄, r s = .accept x rest → ∃ ts ∈ L s.source x, s.Advances ts (trees x) rest
  frugal : r.Frugal

/-- Behind what was read already, the rule reads on. -/
theorem Yields.append {r : Rule α} {T : α → List Tree} {L : List Char → α → Phrases} {x : α}
    (hr : r.Yields T L) (h : s.Advances ts trees s') (hx : r s' = .accept x rest) :
    ∃ us ∈ L s.source x, s.Advances (ts ++ us) (trees ++ T x) rest := by
  obtain ⟨us, hus, h'⟩ := hr.advances hx
  rw [h.source_eq] at hus
  exact ⟨us, hus, h.append h'⟩

theorem Yields.mono {r : Rule α} {T : α → List Tree} {L M : List Char → α → Phrases}
    (hr : r.Yields T L) (h : ∀ source x, ∀ ts ∈ L source x, ts ∈ M source x) : r.Yields T M := by
  refine ⟨fun s x rest hx => ?_, hr.frugal⟩
  obtain ⟨ts, hts, hadv⟩ := hr.advances hx
  exact ⟨ts, h _ _ ts hts, hadv⟩

theorem yields_declines {T : α → List Tree} {L : List Char → α → Phrases} (e : Expected) :
    (declines e : Rule α).Yields T L :=
  ⟨fun s x rest h => by simp [declines] at h, frugal_declines e⟩

theorem Yields.orElse {r q : Rule α} {T : α → List Tree} {L : List Char → α → Phrases}
    (hr : r.Yields T L) (hq : q.Yields T L) : (r <|> q).Yields T L := by
  refine ⟨fun s x rest h => ?_, hr.frugal.orElse hq.frugal⟩
  rcases (orElse_eq_accept hr.frugal).1 h with h | ⟨-, h⟩
  · exact hr.advances h
  · exact hq.advances h

theorem Yields.map {r : Rule α} {f : α → β} {T : β → List Tree} {L : List Char → β → Phrases}
    (hr : r.Yields (fun x => T (f x)) fun source x => L source (f x)) : (f <$> r).Yields T L := by
  refine ⟨fun s y rest h => ?_, hr.frugal.map f⟩
  obtain ⟨x, hx, rfl⟩ := map_eq_accept.1 h
  exact hr.advances hx

theorem Yields.required {r : Rule α} {e : Expected} {T : α → List Tree}
    {L : List Char → α → Phrases} (hr : r.Yields T L) : (r.required e).Yields T L :=
  ⟨fun _ _ _ h => hr.advances (required_eq_accept.1 h), (firm_required r e).frugal⟩

theorem Yields.optional {r : Rule α} {T : α → List Tree} {L : List Char → α → Phrases}
    (hr : r.Yields T L) :
    (optional r).Yields (fun x => x.toList.flatMap T)
      fun source => Option.phrases (L source) := by
  refine ⟨fun s x rest h => ?_, (firm_optional r).frugal⟩
  rcases (optional_eq_accept hr.frugal).1 h with ⟨y, rfl, hy⟩ | ⟨-, rfl, rfl⟩
  · simpa [Option.phrases] using hr.advances hy
  · exact ⟨[], Language.nil_mem_one, advances_refl rest⟩

/-- A rule whose phrases are not empty reads a token each time. -/
theorem Yields.progresses {r : Rule α} {T : α → List Tree} {L : List Char → α → Phrases}
    (hr : r.Yields T L) (hne : ∀ source x, [] ∉ L source x) : r.Progresses := by
  intro s x rest h
  obtain ⟨ts, hts, hadv⟩ := hr.advances h
  have hpos : 0 < ts.length := by
    refine List.length_pos_of_ne_nil ?_
    rintro rfl
    exact hne _ _ hts
  have hlen := congrArg List.length hadv.tokens_eq
  have hstart := hadv.start_eq
  rw [List.length_append] at hlen
  omega

/-- Behind a phrase of `x`, which may have been read in any way, what `step x` accepts makes the
phrase longer. Where it declines, no node was finished in vain. -/
structure Extends (step : α → Rule α) (trees : α → List Tree) (L : List Char → α → Phrases) :
    Prop where
  advances : ∀ ⦃s : TokenStream⦄ ⦃ts x s' y rest⦄, ts ∈ L s.source x → s.Advances ts (trees x) s' →
    step x s' = .accept y rest → ∃ us ∈ L s.source y, s.Advances us (trees y) rest
  frugal : ∀ x, (step x).Frugal

section

variable {step step' : α → Rule α} {T : α → List Tree} {L : List Char → α → Phrases}

theorem Extends.orElse (h : Extends step T L) (h' : Extends step' T L) :
    Extends (fun x => step x <|> step' x) T L := by
  refine ⟨fun s ts x s' y rest hts hadv hy => ?_, fun x => (h.frugal x).orElse (h'.frugal x)⟩
  rcases (orElse_eq_accept (h.frugal x)).1 hy with hy | ⟨-, hy⟩
  · exact h.advances hts hadv hy
  · exact h'.advances hts hadv hy

theorem extends_pure : Extends (fun x => (pure x : Rule α)) T L := by
  refine ⟨fun s ts x s' y rest hts hadv h => ?_, fun x => (firm_pure x).frugal⟩
  obtain ⟨rfl, rfl⟩ := pure_eq_accept.1 h
  exact ⟨ts, hts, hadv⟩

theorem Extends.iterate (h : Extends step T L) : Extends (iterate step) T L := by
  refine ⟨fun s ts x s' y rest hts hadv hy => ?_, fun x => (firm_iterate step x).frugal⟩
  refine iterate_induction (motive := fun x s' => ∃ ts ∈ L s.source x, s.Advances ts (T x) s')
    h.frugal hy ⟨ts, hts, hadv⟩ ?_
  rintro x s₁ y s₂ ⟨us, hus, hadv⟩ hy
  exact h.advances hus hadv hy

theorem Yields.bind_extends {r : Rule α} (hr : r.Yields T L) (h : Extends step T L)
    (hfirm : ∀ x, (step x).Firm) : (r >>= step).Yields T L := by
  refine ⟨fun s y rest hy => ?_, hr.frugal.bind hfirm⟩
  obtain ⟨x, s', hx, hy⟩ := bind_eq_accept.1 hy
  obtain ⟨ts, hts, hadv⟩ := hr.advances hx
  exact h.advances hts hadv hy

end

/-! ## Tokens -/

theorem yields_token {kind : TokenKind} (hkind : kind.IsMeaningful) :
    (token kind).Yields (fun _ => []) fun _ _ => one fun t => t.kind = kind := by
  refine ⟨fun s t rest h => ?_, frugal_token kind⟩
  obtain ⟨hfirst, rfl, rfl⟩ := token_eq_accept.1 h
  exact ⟨[t], mem_one rfl, advances_tail hfirst hkind⟩

theorem yields_keyword (k : Keyword) : (keyword k).Yields (fun _ => []) fun _ _ => word k :=
  yields_token ⟨by simp, by simp⟩

theorem yields_punctuator (p : Punctuator) :
    (punctuator p).Yields (fun _ => []) fun _ _ => sign p :=
  yields_token ⟨by simp, by simp⟩

theorem yields_expect (p : Punctuator) : (expect p).Yields (fun _ => []) fun _ _ => sign p :=
  (yields_punctuator p).required

theorem yields_identifier : identifier.Yields (fun _ => []) fun _ => Ident.phrase := by
  refine ⟨fun s name rest h => ?_, frugal_identifier⟩
  obtain ⟨hfirst, rfl⟩ := identifier_eq_accept.1 h
  exact ⟨[name.token], mem_one rfl,
    advances_tail hfirst ⟨by simp [Ident.token], by simp [Ident.token]⟩⟩

theorem yields_operator {Op : Type} {ofToken? : TokenKind → Option Op} {sign : Op → Punctuator}
    (hop : ∀ kind op, ofToken? kind = some op → kind = .punctuator (sign op)) :
    (operator ofToken?).Yields (fun _ => []) fun _ op => Phrases.sign (sign op) := by
  refine ⟨fun s op rest h => ?_, frugal_operator ofToken?⟩
  obtain ⟨t, hfirst, ht, rfl⟩ := operator_eq_accept.1 h
  have hkind := hop _ _ ht
  exact ⟨[t], mem_one hkind, advances_tail hfirst (by rw [hkind]; exact ⟨by simp, by simp⟩)⟩

/-! ## Repetition -/

theorem Yields.firm_many {r : Rule α} {T : α → List Tree} {L : List Char → α → Phrases}
    (hr : r.Yields T L) (hne : ∀ source x, [] ∉ L source x) : (many r).Firm :=
  Rule.firm_many (hr.progresses hne)

theorem yields_many {r : Rule α} {T : α → List Tree} {L : List Char → α → Phrases}
    (hr : r.Yields T L) (hne : ∀ source x, [] ∉ L source x) :
    (many r).Yields (fun xs => xs.flatMap T) fun source xs => (xs.map (L source)).prod := by
  refine ⟨fun s xs rest h => ?_, (hr.firm_many hne).frugal⟩
  unfold many at h
  generalize hn : s.tokens = bound at h
  clear hn
  induction hlen : bound.length using Nat.strongRecOn generalizing s xs bound with
  | ind n ih =>
    rcases manyWithin_eq_accept hr.frugal h with
      ⟨rfl, rfl⟩ | ⟨x, xs', bound', s', rfl, hx, hxs, hlt⟩
    · exact ⟨[], Language.nil_mem_one, advances_refl rest⟩
    · obtain ⟨ts, hts, hadv⟩ := hr.advances hx
      obtain ⟨us, hus, hadv'⟩ := ih _ (hlen ▸ hlt) _ _ bound' hxs rfl
      rw [hadv.source_eq] at hus
      refine ⟨ts ++ us, ?_, by simpa using hadv.append hadv'⟩
      simp only [List.map_cons, List.prod_cons]
      exact mem_mul hts hus

/-- Behind a sign, a rule is required. -/
theorem yields_behindSign {r : Rule α} {e : Expected} {T : α → List Tree}
    {L : List Char → α → Phrases} (p : Punctuator) (hr : r.Yields T L) :
    (do let _ ← punctuator p; r.required e : Rule α).Yields T fun source x => sign p * L source x := by
  refine ⟨fun s x rest h => ?_, (frugal_token _).bind fun _ => firm_required r e⟩
  simp only [bind_eq_accept, required_eq_accept] at h
  obtain ⟨t, s', ht, hx⟩ := h
  obtain ⟨ts, hts, hadv⟩ := (yields_punctuator _).advances ht
  obtain ⟨us, hus, hadv⟩ := hr.append hadv hx
  exact ⟨_, mem_mul hts hus, hadv⟩

theorem nil_notMem_behindSign (p : Punctuator) (A : Phrases) : [] ∉ sign p * A :=
  fun h => nil_notMem_sign p (nil_mem_mul.1 h).1

theorem Yields.firm_commaList {element : Rule α} {T : α → List Tree}
    {L : List Char → α → Phrases} (hr : element.Yields T L) (e : Expected) :
    (commaList element e).Firm :=
  Rule.firm_commaList ((yields_behindSign .comma hr).progresses fun _ _ =>
    nil_notMem_behindSign _ _)

theorem yields_commaList {element : Rule α} {e : Expected} {T : α → List Tree}
    {L : List Char → α → Phrases} (hr : element.Yields T L) :
    (commaList element e).Yields (fun xs => xs.flatMap T)
      fun source xs => commas (xs.map (L source)) := by
  refine ⟨fun s xs rest h => ?_, (hr.firm_commaList e).frugal⟩
  rcases (commaList_eq_accept hr.frugal).1 h with ⟨-, rfl, rfl⟩ | ⟨x, xs', s', rfl, hx, hxs⟩
  · exact ⟨[], Language.nil_mem_one, advances_refl rest⟩
  · obtain ⟨ts, hts, hadv⟩ := hr.advances hx
    obtain ⟨us, hus, hadv⟩ := (yields_many (yields_behindSign .comma hr)
      fun _ _ => nil_notMem_behindSign _ _).append hadv hxs
    refine ⟨ts ++ us, ?_, by simpa using hadv⟩
    simpa only [commas, List.map_cons, List.map_map, Function.comp_def] using mem_mul hts hus

end Rule

end Sable
