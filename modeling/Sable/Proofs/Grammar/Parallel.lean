import Mathlib.Data.List.Forall2
import Sable.Proofs.Grammar.Unbounded
import Sable.Proofs.Syntax.Moving
import Sable.Proofs.Token.Tokenization

/-!
# Two texts with the same tokens

Let the tokens of two texts agree but for their spans. Then each rule answers alike in both texts:
it stops in front of tokens of one index, and what it accepts is one tree, written in two places.

## Main definitions

* `Reading`: a text with its tokens, and where the spans and numbers of a common tree go in it.
* `Pairing.Twins`: one tree in two places.
* `Rule.Parallel`: two rules answer alike in two texts.

## Main statements

* `Rule.Parallel.bind`, `Rule.Parallel.orElse`, `Rule.Parallel.located`, `Rule.Parallel.many`: rules
  that are put together.
-/
namespace Sable

class Movable (α : Type) where
  move : Relocation → α → α

instance : Movable Span := ⟨Relocation.span⟩

instance : Movable Place := ⟨Place.move⟩

instance : Movable Ident := ⟨Ident.move⟩

instance : Movable WrittenType := ⟨WrittenType.move⟩

instance : Movable Expr := ⟨Expr.move⟩

instance : Movable VariableDecl := ⟨VariableDecl.move⟩

instance : Movable Parameter := ⟨Parameter.move⟩

instance : Movable ForInit := ⟨ForInit.move⟩

instance : Movable Stmt := ⟨Stmt.move⟩

instance : Movable Branch := ⟨Branch.move⟩

instance : Movable Otherwise := ⟨Otherwise.move⟩

instance : Movable Scope := ⟨Scope.move⟩

instance : Movable FunctionDecl := ⟨FunctionDecl.move⟩

instance : Movable Member := ⟨Member.move⟩

instance : Movable ClassDecl := ⟨ClassDecl.move⟩

instance : Movable Declaration := ⟨Declaration.move⟩

instance : Movable Block := ⟨Block.move⟩

instance {α β : Type} [Movable α] [Movable β] : Movable (α × β) :=
  ⟨fun φ x => (Movable.move φ x.1, Movable.move φ x.2)⟩

instance {α : Type} [Movable α] : Movable (Option α) := ⟨fun φ => Option.map (Movable.move φ)⟩

instance {α : Type} [Movable α] : Movable (List α) := ⟨fun φ => List.map (Movable.move φ)⟩

/-- Nothing has a span but those that satisfy `P`, so nothing moves if they do not. -/
def Movable.Within {α : Type} [Movable α] (P : Span → Prop) (x : α) : Prop :=
  ∀ φ : Relocation, φ.shift = 0 → (∀ s, P s → φ.span s = s) → Movable.move φ x = x

open Movable

theorem Movable.within_iff {P : Span → Prop} {s : Span} : Within P s ↔ P s := by
  classical
  refine ⟨fun h => ?_, fun h φ _ hφ => hφ s h⟩
  by_contra hs
  have hmove := h ⟨fun s => if P s then s else ⟨s.start, s.stop + 1, s.file⟩, 0, id⟩ rfl
    fun _ hs => if_pos hs
  have hstop := congrArg Span.stop ((if_neg hs).symm.trans hmove)
  simp at hstop

structure Reading where
  tokens : List Token
  source : List Char
  place : Relocation
  /-- How many tokens lie behind where the first one is ahead. -/
  start : Nat := 0

/-- Two texts, and which spans a tree may have that is to be written in both. -/
structure Pairing where
  valid : Span → Prop
  left : Reading
  right : Reading

namespace Pairing

variable {α β : Type} {K : Pairing}

/-- The spans of a common tree may be covered before or after they go to their places. -/
structure Compatible (K : Pairing) : Prop where
  merge_valid : ∀ a b, K.valid a → K.valid b → K.valid (a.merge b)
  merge_left : ∀ a b,
    K.left.place.span (a.merge b) = (K.left.place.span a).merge (K.left.place.span b)
  merge_right : ∀ a b,
    K.right.place.span (a.merge b) = (K.right.place.span a).merge (K.right.place.span b)

/-- One thing in its place in either text. -/
def Twins (K : Pairing) [Movable α] (x x' : α) : Prop :=
  ∃ y, Within K.valid y ∧ move K.left.place y = x ∧ move K.right.place y = x'

section

variable [Movable α] [Movable β]

/-- What is made of one thing alike in both texts is one thing again. -/
theorem Twins.map {x x' : α} (h : K.Twins x x') (f : α → β)
    (hf : ∀ φ y, f (move φ y) = move φ (f y)) : K.Twins (f x) (f x') := by
  obtain ⟨y, hy, rfl, rfl⟩ := h
  refine ⟨f y, fun φ hshift hφ => ?_, (hf _ y).symm, (hf _ y).symm⟩
  rw [← hf, hy φ hshift hφ]

theorem Twins.prod {x x' : α} {y y' : β} (hx : K.Twins x x') (hy : K.Twins y y') :
    K.Twins (x, y) (x', y') := by
  obtain ⟨x, hx, rfl, rfl⟩ := hx
  obtain ⟨y, hy, rfl, rfl⟩ := hy
  exact ⟨(x, y), fun φ hshift hφ => congrArg₂ Prod.mk (hx φ hshift hφ) (hy φ hshift hφ), rfl, rfl⟩

theorem twins_of_rel {x x' : Option α} (h : Option.Rel K.Twins x x') : K.Twins x x' := by
  cases h with
  | none => exact ⟨none, fun _ _ _ => rfl, rfl, rfl⟩
  | some h => exact h.map some fun _ _ => rfl

theorem twins_of_forall₂ {xs xs' : List α} (h : List.Forall₂ K.Twins xs xs') :
    K.Twins xs xs' := by
  induction h with
  | nil => exact ⟨[], fun _ _ _ => rfl, rfl, rfl⟩
  | cons hx _ ih => exact (hx.prod ih).map (fun x => x.1 :: x.2) fun _ _ => rfl

end

theorem Twins.merge (h : K.Compatible) {a a' b b' : Span} (ha : K.Twins a a')
    (hb : K.Twins b b') : K.Twins (a.merge b) (a'.merge b') := by
  obtain ⟨x, hx, rfl, rfl⟩ := ha
  obtain ⟨y, hy, rfl, rfl⟩ := hb
  exact ⟨x.merge y, within_iff.2 (h.merge_valid x y (within_iff.1 hx) (within_iff.1 hy)),
    h.merge_left x y, h.merge_right x y⟩

end Pairing

variable {K : Pairing}

/-- The same token at the same index. The text of a number tells its value. -/
structure Token.Parallel (K : Pairing) (t t' : Token) : Prop where
  kind_eq : t'.kind = t.kind
  text_eq : t'.text = t.text
  span : K.Twins t.span t'.span
  lexeme_eq : t.kind = .integerLiteral ∨ t.kind = .floatLiteral →
    t'.lexeme K.right.source = t.lexeme K.left.source
  index : ∃ i : Nat, K.left.tokens[i]? = some t ∧ K.right.tokens[i]? = some t'

namespace TokenStream

structure Parallel (K : Pairing) (s s' : TokenStream) : Prop where
  tokens : List.Forall₂ (Token.Parallel K) s.tokens s'.tokens
  source_left : s.source = K.left.source
  source_right : s'.source = K.right.source
  start : ∃ n, s.start = n + K.left.start ∧ s'.start = n + K.right.start
  nextId : ∃ n, s.nextId = n + K.left.place.shift ∧ s'.nextId = n + K.right.place.shift

/-- At least `n` tokens lie between the positions. -/
structure Reaches (n : Nat) (s rest : TokenStream) : Prop where
  length_le : rest.tokens.length + n ≤ s.tokens.length
  start_add : rest.start + rest.tokens.length = s.start + s.tokens.length

namespace Reaches

variable {n k : Nat} {s s' rest : TokenStream}

theorem refl (s : TokenStream) : Reaches 0 s s := ⟨Nat.le_refl _, rfl⟩

theorem trans (h : Reaches n s s') (h' : Reaches k s' rest) : Reaches n s rest := by
  have := h.length_le
  have := h'.length_le
  exact ⟨by omega, h'.start_add.trans h.start_add⟩

theorem weaken (h : Reaches n s rest) : Reaches 0 s rest := by
  have := h.length_le
  exact ⟨by omega, h.start_add⟩

theorem tail {t : Token} (h : s.first? = some t) : Reaches 1 s s.tail := by
  have hlength := congrArg List.length (tokens_of_first? h)
  have hstart := tail_start h
  rw [List.length_cons] at hlength
  exact ⟨by omega, by omega⟩

end Reaches

namespace Parallel

variable {s s' p p' : TokenStream}

/-- Nothing is left at an index in either text, or the same token. -/
theorem getElem? (h : s.Parallel K s') (n : Nat) :
    (s.tokens[n]? = none ∧ s'.tokens[n]? = none) ∨
      ∃ t t', s.tokens[n]? = some t ∧ s'.tokens[n]? = some t' ∧ t.Parallel K t' := by
  have := h.tokens
  generalize s.tokens = ts, s'.tokens = ts' at this
  induction this generalizing n with
  | nil => simp
  | cons hx _ ih =>
    cases n with
    | zero => exact .inr ⟨_, _, rfl, rfl, hx⟩
    | succ n => exact ih n

theorem first? (h : s.Parallel K s') :
    (s.first? = none ∧ s'.first? = none) ∨
      ∃ t t', s.first? = some t ∧ s'.first? = some t' ∧ t.Parallel K t' := by
  rw [TokenStream.first?, TokenStream.first?, List.head?_eq_getElem?, List.head?_eq_getElem?]
  exact h.getElem? 0

theorem firstKind?_eq (h : s.Parallel K s') : s'.firstKind? = s.firstKind? := by
  rw [firstKind?, firstKind?]
  rcases h.first? with ⟨ht, ht'⟩ | ⟨t, t', ht, ht', htt⟩
  · rw [ht, ht']
  · rw [ht, ht', Option.map_some, Option.map_some, htt.kind_eq]

theorem atEnd_eq (h : s.Parallel K s') : s'.atEnd = s.atEnd := by
  rw [atEnd, atEnd, h.firstKind?_eq]

theorem tail (h : s.Parallel K s') : s.tail.Parallel K s'.tail := by
  obtain ⟨tokens, source, start, nextId⟩ := s
  obtain ⟨tokens', source', start', nextId'⟩ := s'
  obtain ⟨htokens, hsource, hsource', hstart, hnext⟩ := h
  cases htokens with
  | nil => exact ⟨.nil, hsource, hsource', hstart, hnext⟩
  | cons _ hrest =>
    obtain ⟨n, rfl, rfl⟩ := hstart
    exact ⟨hrest, hsource, hsource', ⟨n + 1, Nat.add_right_comm .., Nat.add_right_comm ..⟩, hnext⟩

theorem drawId (h : s.Parallel K s') : s.drawId.Parallel K s'.drawId := by
  obtain ⟨n, hn, hn'⟩ := h.nextId
  refine ⟨h.tokens, h.source_left, h.source_right, h.start, n + 1, ?_, ?_⟩
  · rw [drawId_nextId, hn, Nat.add_right_comm]
  · rw [drawId_nextId, hn', Nat.add_right_comm]

theorem backTo (hp : p.Parallel K p') (h : s.Parallel K s') :
    (p.backTo s).Parallel K (p'.backTo s') :=
  ⟨h.tokens, h.source_left, h.source_right, h.start, hp.nextId⟩

/-- As many tokens lie between two positions in either text. -/
theorem start_sub_start (h : s.Parallel K s') (hp : p.Parallel K p') :
    p'.start - s'.start = p.start - s.start := by
  obtain ⟨n, hn, hn'⟩ := h.start
  obtain ⟨k, hk, hk'⟩ := hp.start
  omega

theorem start_eq_iff (h : s.Parallel K s') (hp : p.Parallel K p') :
    p'.start = s'.start ↔ p.start = s.start := by
  obtain ⟨n, hn, hn'⟩ := h.start
  obtain ⟨k, hk, hk'⟩ := hp.start
  omega

/-- The place that a node gets next. -/
theorem place (h : s.Parallel K s') {span span' : Span} (hspan : K.Twins span span') :
    K.Twins (⟨s.nextId, span⟩ : Place) ⟨s'.nextId, span'⟩ := by
  obtain ⟨n, hn, hn'⟩ := h.nextId
  obtain ⟨x, hx, rfl, rfl⟩ := hspan
  refine ⟨⟨n, x⟩, fun φ hshift hφ => ?_, by rw [hn]; rfl, by rw [hn']; rfl⟩
  change (⟨n + φ.shift, φ.span x⟩ : Place) = ⟨n, x⟩
  rw [hshift, Nat.add_zero, show φ.span x = x from hx φ hshift hφ]

/-- A node that has read a token covers the same tokens in both texts. -/
theorem spanSince (h : K.Compatible) (hs : s.Parallel K s') (hp : p.Parallel K p')
    (hreaches : s.Reaches 1 p) : K.Twins (p.spanSince s) (p'.spanSince s') := by
  obtain ⟨hlength, hstart⟩ := hreaches
  rw [TokenStream.spanSince, TokenStream.spanSince, hs.start_sub_start hp]
  obtain ⟨n, hn⟩ : ∃ n, p.start - s.start = n + 1 := ⟨p.start - s.start - 1, by omega⟩
  rcases hs.getElem? n with ⟨hu, -⟩ | ⟨u, u', hu, hu', huu⟩
  · rw [List.getElem?_eq_none_iff] at hu
    omega
  · rcases hs.first? with ⟨ht, -⟩ | ⟨t, t', ht, ht', htt⟩
    · rw [TokenStream.first?, List.head?_eq_none_iff] at ht
      simp [ht] at hlength
    · simp only [ht, ht', hn, hu, hu']
      exact htt.span.merge h huu.span

end Parallel

end TokenStream

/-! ## Rules -/

variable {α α' β β' : Type} {ρ : α → α' → Prop} {σ : β → β' → Prop} {n k : Nat}

/-- Two answers to what begins at `s`. Where they accept, at least `n` tokens were read. -/
inductive Reply.Parallel (K : Pairing) (n : Nat) (s : TokenStream) (ρ : α → α' → Prop) :
    Reply α → Reply α' → Prop
  | accept {x : α} {x' : α'} {rest rest' : TokenStream} (value : ρ x x')
      (position : rest.Parallel K rest') (reaches : s.Reaches n rest) :
      Reply.Parallel K n s ρ (.accept x rest) (.accept x' rest')
  | decline {p p' : TokenStream} {e : Expected} (position : p.Parallel K p') :
      Reply.Parallel K n s ρ (.decline p e) (.decline p' e)
  | reject {p p' : TokenStream} {e : Expected} (position : p.Parallel K p') :
      Reply.Parallel K n s ρ (.reject p e) (.reject p' e)

namespace Reply.Parallel

variable {s s' : TokenStream} {a : Reply α} {a' : Reply α'}

theorem map {f : α → β} {f' : α' → β'} (h : Reply.Parallel K n s ρ a a')
    (hf : ∀ x x', ρ x x' → σ (f x) (f' x')) :
    Reply.Parallel K n s σ (a.map f) (a'.map f') :=
  match h with
  | .accept hx hrest hreaches => .accept (hf _ _ hx) hrest hreaches
  | .decline hp => .decline hp
  | .reject hp => .reject hp

/-- What begins behind some tokens. -/
theorem behind (h : Reply.Parallel K k s' ρ a a') (hs : s.Reaches n s') :
    Reply.Parallel K n s ρ a a' :=
  match h with
  | .accept hx hrest hreaches => .accept hx hrest (hs.trans hreaches)
  | .decline hp => .decline hp
  | .reject hp => .reject hp

/-- What begins at `s` again, but for the number. -/
theorem of_backTo {p : TokenStream} (h : Reply.Parallel K n (p.backTo s) ρ a a') :
    Reply.Parallel K n s ρ a a' :=
  match h with
  | .accept hx hrest hreaches => .accept hx hrest ⟨hreaches.length_le, hreaches.start_add⟩
  | .decline hp => .decline hp
  | .reject hp => .reject hp

end Reply.Parallel

namespace Rule

/-- The rules answer alike, what they accept is related, and they read at least `n` tokens. -/
def Parallel (K : Pairing) (n : Nat) (ρ : α → α' → Prop) (r : Rule α) (r' : Rule α') : Prop :=
  ∀ ⦃s s'⦄, TokenStream.Parallel K s s' → Reply.Parallel K n s ρ (r s) (r' s')

variable {r : Rule α} {r' : Rule α'} {s s' : TokenStream}

theorem Parallel.weaken (h : Parallel K n ρ r r') : Parallel K 0 ρ r r' := fun s s' hs =>
  match r s, r' s', h hs with
  | _, _, .accept hx hrest hreaches => .accept hx hrest hreaches.weaken
  | _, _, .decline hp => .decline hp
  | _, _, .reject hp => .reject hp

theorem parallel_pure {x : α} {x' : α'} (h : ρ x x') :
    Parallel K 0 ρ (pure x) (pure x') := fun s _ hs => .accept h hs (.refl s)

theorem Parallel.bind {f : α → Rule β} {f' : α' → Rule β'} (hr : Parallel K n ρ r r')
    (hf : ∀ x x', ρ x x' → Parallel K k σ (f x) (f' x')) :
    Parallel K n σ (r >>= f) (r' >>= f') := by
  intro s s' hs
  rw [bind_apply, bind_apply]
  have hreply := hr hs
  generalize r s = a, r' s' = a' at hreply
  cases hreply with
  | accept hx hrest hreaches => exact (hf _ _ hx hrest).behind hreaches
  | decline hp => exact .decline hp
  | reject hp => exact .reject hp

theorem Parallel.map {f : α → β} {f' : α' → β'} (hr : Parallel K n ρ r r')
    (hf : ∀ x x', ρ x x' → σ (f x) (f' x')) : Parallel K n σ (f <$> r) (f' <$> r') :=
  hr.bind fun x x' hx => parallel_pure (hf x x' hx)

theorem Parallel.mapTwins [Movable α] [Movable β] {q q' : Rule α}
    (hq : Parallel K n K.Twins q q') (f : α → β)
    (hf : ∀ φ x, f (Movable.move φ x) = Movable.move φ (f x)) :
    Parallel K n K.Twins (f <$> q) (f <$> q') :=
  hq.map fun _ _ hx => hx.map f hf

theorem parallel_declines (e : Expected) : Parallel K n ρ (declines e) (declines e) :=
  fun _ _ hs => .decline hs

theorem Parallel.orElse {q : Rule α} {q' : Rule α'} (hr : Parallel K n ρ r r')
    (hq : Parallel K n ρ q q') : Parallel K n ρ (r <|> q) (r' <|> q') := by
  intro s s' hs
  change Reply.Parallel K n s ρ (Rule.orElse r (fun _ => q) s) (Rule.orElse r' (fun _ => q') s')
  unfold Rule.orElse
  have hreply := hr hs
  generalize r s = a, r' s' = a' at hreply
  cases hreply with
  | accept hx hrest hreaches => exact .accept hx hrest hreaches
  | decline hp => exact (hq (hp.backTo hs)).of_backTo
  | reject hp => exact .reject hp

theorem Parallel.optional (hr : Parallel K n ρ r r') :
    Parallel K 0 (Option.Rel ρ) (optional r) (optional r') := by
  intro s s' hs
  unfold Rule.optional
  have hreply := hr hs
  generalize r s = a, r' s' = a' at hreply
  cases hreply with
  | accept hx hrest hreaches => exact .accept (.some hx) hrest hreaches.weaken
  | decline hp => exact .accept .none (hp.backTo hs) ⟨Nat.le_refl _, rfl⟩
  | reject hp => exact .reject hp

theorem Parallel.required (hr : Parallel K n ρ r r') (e : Expected) :
    Parallel K n ρ (r.required e) (r'.required e) := by
  intro s s' hs
  unfold Rule.required
  have hreply := hr hs
  generalize r s = a, r' s' = a' at hreply
  cases hreply with
  | accept hx hrest hreaches => exact .accept hx hrest hreaches
  | decline _ => exact .reject hs
  | reject hp => exact .reject hp

/-! ### Tokens and nodes -/

theorem parallel_token (kind : TokenKind) :
    Parallel K 1 (Token.Parallel K) (token kind) (token kind) := by
  intro s s' hs
  unfold token
  rcases hs.first? with ⟨ht, ht'⟩ | ⟨t, t', ht, ht', htt⟩
  · rw [ht, ht']
    exact .decline hs
  · rw [ht, ht']
    dsimp only
    rw [htt.kind_eq]
    split
    · exact .accept htt hs.tail (.tail ht)
    · exact .decline hs

theorem parallel_keyword (word : Keyword) :
    Parallel K 1 (Token.Parallel K) (keyword word) (keyword word) := parallel_token _

theorem parallel_punctuator (p : Punctuator) :
    Parallel K 1 (Token.Parallel K) (punctuator p) (punctuator p) := parallel_token _

theorem parallel_expect (p : Punctuator) :
    Parallel K 1 (Token.Parallel K) (expect p) (expect p) := (parallel_punctuator p).required _

theorem parallel_identifier : Parallel K 1 K.Twins identifier identifier := by
  intro s s' hs
  unfold identifier
  rcases hs.first? with ⟨ht, ht'⟩ | ⟨⟨kind, span, text⟩, ⟨kind', span', text'⟩, ht, ht', htt⟩
  · rw [ht, ht']
    exact .decline hs
  · obtain rfl : kind' = kind := htt.kind_eq
    obtain rfl : text' = text := htt.text_eq
    rw [ht, ht']
    cases kind' <;> try exact .decline hs
    cases text' with
    | none => exact .decline hs
    | some name =>
      exact .accept (htt.span.map (fun span => Ident.mk name span) fun _ _ => rfl) hs.tail
        (.tail ht)

theorem parallel_operator {Op : Type} (ofToken? : TokenKind → Option Op) :
    Parallel K 1 Eq (operator ofToken?) (operator ofToken?) := by
  intro s s' hs
  unfold operator
  rw [hs.firstKind?_eq]
  cases hop : s.firstKind?.bind ofToken? with
  | none => exact .decline hs
  | some op =>
    rcases hs.first? with ⟨ht, -⟩ | ⟨t, t', ht, -, -⟩
    · simp [TokenStream.firstKind?, ht] at hop
    · exact .accept rfl hs.tail (.tail ht)

theorem parallel_numbered {span span' : Span} (h : K.Twins span span') :
    Parallel K 0 K.Twins (numbered span) (numbered span') :=
  fun _ _ hs => .accept (hs.place h) hs.drawId ⟨Nat.le_refl _, rfl⟩

theorem Parallel.located {r : Rule (Place → α)} {r' : Rule (Place → α')} (h : K.Compatible)
    (hr : Parallel K 1 (fun f f' => ∀ p p', K.Twins p p' → ρ (f p) (f' p')) r r') :
    Parallel K 1 ρ (located r) (located r') := by
  intro s s' hs
  unfold Rule.located
  have hreply := hr hs
  generalize r s = a, r' s' = a' at hreply
  cases hreply with
  | accept hx hrest hreaches =>
    exact .accept (hx _ _ (hrest.place (hs.spanSince h hrest hreaches))) hrest.drawId
      ⟨hreaches.length_le, hreaches.start_add⟩
  | decline hp => exact .decline hp
  | reject hp => exact .reject hp

/-! ### Repetition -/

theorem Parallel.manyWithin (hr : Parallel K n ρ r r') {bound bound' : List Token}
    (hbound : bound.length = bound'.length) :
    Parallel K 0 (List.Forall₂ ρ) (manyWithin r bound) (manyWithin r' bound') := by
  induction bound generalizing bound' with
  | nil =>
    obtain rfl := List.length_eq_zero_iff.1 hbound.symm
    intro s s' hs
    simp only [Rule.manyWithin]
    have hreply := hr hs
    generalize r s = a, r' s' = a' at hreply
    cases hreply with
    | accept _ hrest _ => exact .decline (hrest.backTo hs)
    | decline hp => exact .accept .nil (hp.backTo hs) ⟨Nat.le_refl _, rfl⟩
    | reject hp => exact .reject hp
  | cons _ bound ih =>
    obtain _ | ⟨_, bound'⟩ := bound'
    · simp at hbound
    intro s s' hs
    simp only [Rule.manyWithin]
    have hreply := hr hs
    generalize r s = a, r' s' = a' at hreply
    cases hreply with
    | accept hx hrest hreaches =>
      dsimp only
      simp only [hs.start_eq_iff hrest]
      split
      · exact .decline (hrest.backTo hs)
      · exact ((ih (Nat.succ.inj hbound) hrest).behind hreaches.weaken).map
          fun _ _ hxs => .cons hx hxs
    | decline hp => exact .accept .nil (hp.backTo hs) ⟨Nat.le_refl _, rfl⟩
    | reject hp => exact .reject hp

theorem Parallel.many (hr : Parallel K n ρ r r') :
    Parallel K 0 (List.Forall₂ ρ) (many r) (many r') :=
  fun _ _ hs => hr.manyWithin hs.tokens.length_eq hs

theorem parallel_iterateWithin {step : α → Rule α} {step' : α' → Rule α'}
    (hstep : ∀ x x', ρ x x' → Parallel K n ρ (step x) (step' x')) {bound bound' : List Token}
    (hbound : bound.length = bound'.length) {x : α} {x' : α'} (hx : ρ x x') :
    Parallel K 0 ρ (iterateWithin step bound x) (iterateWithin step' bound' x') := by
  induction bound generalizing bound' x x' with
  | nil =>
    obtain rfl := List.length_eq_zero_iff.1 hbound.symm
    exact parallel_pure hx
  | cons _ bound ih =>
    obtain _ | ⟨_, bound'⟩ := bound'
    · simp at hbound
    intro s s' hs
    simp only [Rule.iterateWithin]
    have hreply := hstep x x' hx hs
    generalize step x s = a, step' x' s' = a' at hreply
    cases hreply with
    | accept hy hrest hreaches => exact (ih (Nat.succ.inj hbound) hy hrest).behind hreaches.weaken
    | decline hp => exact .accept hx (hp.backTo hs) ⟨Nat.le_refl _, rfl⟩
    | reject hp => exact .reject hp

theorem parallel_iterate {step : α → Rule α} {step' : α' → Rule α'}
    (hstep : ∀ x x', ρ x x' → Parallel K n ρ (step x) (step' x')) {x : α} {x' : α'}
    (hx : ρ x x') : Parallel K 0 ρ (iterate step x) (iterate step' x') :=
  fun _ _ hs => parallel_iterateWithin hstep hs.tokens.length_eq hx hs

theorem Parallel.commaList (hr : Parallel K n ρ r r') (e : Expected) :
    Parallel K 0 (List.Forall₂ ρ) (commaList r e) (commaList r' e) := by
  intro s s' hs
  unfold Rule.commaList
  have hreply := hr hs
  generalize r s = a, r' s' = a' at hreply
  cases hreply with
  | accept hx hrest hreaches =>
    have hmany := (Parallel.bind (parallel_punctuator .comma) fun _ _ _ => hr.required e).many
    exact ((hmany hrest).behind hreaches.weaken).map fun _ _ hxs => .cons hx hxs
  | decline hp => exact .accept .nil (hp.backTo hs) ⟨Nat.le_refl _, rfl⟩
  | reject hp => exact .reject hp

end Rule

end Sable
