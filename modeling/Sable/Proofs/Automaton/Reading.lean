import Mathlib.Data.List.Basic
import Sable.Automaton.Basic
import Sable.Text.Offset

/-!
# What an automaton reads

A reading is told by its walk: it cuts off the longest prefix of the input that leads to an
accepting state. Where no prefix does, it cuts off all that can be walked over, and at least one
character.

## Main definitions

* `Automaton.walkFrom`: the state to which a text leads from another state.
* `Automaton.kindOf?`: the kind of token that a whole text makes.
* `Automaton.Longest`: the longest accepted prefix of an input.

## Main statements

* `Automaton.readToken_cases`: the two ways in which a reading ends.
* `Automaton.readToken_isPrefix`: a reading cuts off a nonempty prefix.
* `Automaton.readToken_of_stuck`: a text that cannot be walked on from is read as a whole.
-/
namespace Sable.Automaton

open Text

variable {a : Automaton}

/-- The state to which a text leads from `s`. -/
def walkFrom (a : Automaton) (s : StateId) (cs : List Char) : Option StateId :=
  cs.foldlM a.transition s

def kindFrom? (a : Automaton) (s : StateId) (cs : List Char) : Option TokenKind :=
  (a.walkFrom s cs).bind a.accepting?

/-- The kind of token that the whole text makes. -/
def kindOf? (a : Automaton) (cs : List Char) : Option TokenKind := a.kindFrom? root cs

@[simp] theorem walkFrom_nil (s : StateId) : a.walkFrom s [] = some s := rfl

@[simp] theorem walkFrom_cons (s : StateId) (c : Char) (cs : List Char) :
    a.walkFrom s (c :: cs) = (a.transition s c).bind fun next => a.walkFrom next cs := by
  simp [walkFrom, List.foldlM_cons, bind]

theorem walkFrom_append (s : StateId) (cs ds : List Char) :
    a.walkFrom s (cs ++ ds) = (a.walkFrom s cs).bind fun next => a.walkFrom next ds := by
  induction cs generalizing s with
  | nil => rfl
  | cons c cs ih =>
    rw [List.cons_append, walkFrom_cons, walkFrom_cons]
    cases a.transition s c with
    | none => rfl
    | some next => exact ih next

theorem walkFrom_isSome_of_prefix {s : StateId} {cs ds : List Char}
    (h : (a.walkFrom s (cs ++ ds)).isSome) : (a.walkFrom s cs).isSome := by
  rw [walkFrom_append] at h
  cases hw : a.walkFrom s cs with
  | none => simp [hw] at h
  | some next => rfl

/-! ## The longest accepted prefix -/

/-- `m` cuts the longest nonempty accepted prefix off `cs`, for a walk that begins at `s`. -/
def LongestFrom (a : Automaton) (s : StateId) (cs : List Char) (m : Munch) : Prop :=
  ∃ p q, cs = p ++ q ∧ p ≠ [] ∧ a.kindFrom? s p = some m.kind ∧ m.length = byteLength p ∧
    ∀ p' q', cs = p' ++ q' → p.length < p'.length → a.kindFrom? s p' = none

def Longest (a : Automaton) (cs : List Char) (m : Munch) : Prop := a.LongestFrom root cs m

/-- No nonempty prefix of `cs` is accepted. -/
def NoneFrom (a : Automaton) (s : StateId) (cs : List Char) : Prop :=
  ∀ p q, cs = p ++ q → p ≠ [] → a.kindFrom? s p = none

/-- The walk goes over the prefix `p` of `cs`, and no further. -/
def Reaches (a : Automaton) (s : StateId) (cs p : List Char) : Prop :=
  (∃ q, cs = p ++ q) ∧ (a.walkFrom s p).isSome ∧
    ∀ p' q', cs = p' ++ q' → p.length < p'.length → a.walkFrom s p' = none

/-- A nonempty prefix begins with the first character. -/
theorem exists_cons_of_append {c : Char} {cs p q : List Char} (h : c :: cs = p ++ q)
    (hp : p ≠ []) : ∃ p', p = c :: p' ∧ cs = p' ++ q := by
  rcases List.cons_eq_append_iff.1 h with ⟨rfl, -⟩ | h
  · exact absurd rfl hp
  · exact h

theorem kindFrom?_cons {s next : StateId} {c : Char} (h : a.transition s c = some next)
    (cs : List Char) : a.kindFrom? s (c :: cs) = a.kindFrom? next cs := by
  simp [kindFrom?, h]

theorem kindFrom?_nil (s : StateId) : a.kindFrom? s [] = a.accepting? s := rfl

theorem reaches_nil (s : StateId) : a.Reaches s [] [] := by
  refine ⟨⟨[], rfl⟩, rfl, ?_⟩
  intro p q h hlt
  simp_all

theorem reaches_of_transition_eq_none {s : StateId} {c : Char} (h : a.transition s c = none)
    (cs : List Char) : a.Reaches s (c :: cs) [] := by
  refine ⟨⟨c :: cs, rfl⟩, rfl, ?_⟩
  intro p q hp hlt
  obtain ⟨p, rfl, -⟩ := exists_cons_of_append hp (by rintro rfl; simp at hlt)
  simp [h]

theorem Reaches.cons {s next : StateId} {c : Char} {cs p : List Char}
    (h : a.transition s c = some next) (hp : a.Reaches next cs p) :
    a.Reaches s (c :: cs) (c :: p) := by
  obtain ⟨⟨q, rfl⟩, hw, hmax⟩ := hp
  refine ⟨⟨q, rfl⟩, by simpa [h] using hw, ?_⟩
  intro p' q' hp' hlt
  obtain ⟨p', rfl, htail⟩ := exists_cons_of_append hp' (by rintro rfl; simp at hlt)
  simpa [h] using hmax p' q' htail (by simpa using hlt)

/-- A walk goes to one place. -/
theorem Reaches.unique {s : StateId} {cs p p' : List Char} (h : a.Reaches s cs p)
    (h' : a.Reaches s cs p') : p = p' := by
  obtain ⟨⟨q, hq⟩, hw, hmax⟩ := h
  obtain ⟨⟨q', hq'⟩, hw', hmax'⟩ := h'
  refine (List.append_inj (hq.symm.trans hq') ?_).1
  rcases Nat.lt_trichotomy p.length p'.length with hlt | heq | hlt
  · simp [hmax p' q' hq' hlt] at hw'
  · exact heq
  · simp [hmax' p q hq hlt] at hw

theorem LongestFrom.cons {s next : StateId} {c : Char} {cs : List Char} {m : Munch}
    (h : a.transition s c = some next) (hm : a.LongestFrom next cs m) :
    a.LongestFrom s (c :: cs) ⟨m.kind, c.utf8Size + m.length⟩ := by
  obtain ⟨p, q, rfl, hp, hkind, hlen, hmax⟩ := hm
  refine ⟨c :: p, q, rfl, by simp, by rw [kindFrom?_cons h, hkind], by simp [hlen], ?_⟩
  intro p' q' hpq hlt
  obtain ⟨p', rfl, htail⟩ := exists_cons_of_append hpq (by rintro rfl; simp at hlt)
  rw [kindFrom?_cons h]
  exact hmax p' q' htail (by simpa using hlt)

/-- If nothing is accepted behind the first state, that state alone counts. -/
theorem NoneFrom.longest {s next : StateId} {c : Char} {cs : List Char} {kind : TokenKind}
    (h : a.transition s c = some next) (hn : a.NoneFrom next cs)
    (hk : a.accepting? next = some kind) : a.LongestFrom s (c :: cs) ⟨kind, c.utf8Size⟩ := by
  refine ⟨[c], cs, rfl, by simp, by rw [kindFrom?_cons h, kindFrom?_nil, hk], by simp, ?_⟩
  intro p q hpq hlt
  obtain ⟨p, rfl, htail⟩ := exists_cons_of_append hpq (by rintro rfl; simp at hlt)
  rw [kindFrom?_cons h]
  exact hn p q htail (by rintro rfl; simp at hlt)

theorem NoneFrom.cons {s next : StateId} {c : Char} {cs : List Char}
    (h : a.transition s c = some next) (hn : a.NoneFrom next cs)
    (hk : a.accepting? next = none) : a.NoneFrom s (c :: cs) := by
  intro p q hpq hp
  obtain ⟨p, rfl, htail⟩ := exists_cons_of_append hpq hp
  rw [kindFrom?_cons h]
  by_cases hp' : p = []
  · rw [hp', kindFrom?_nil, hk]
  · exact hn p q htail hp'

theorem noneFrom_of_transition_eq_none {s : StateId} {c : Char} (h : a.transition s c = none)
    (cs : List Char) : a.NoneFrom s (c :: cs) := by
  intro p q hpq hp
  obtain ⟨p, rfl, -⟩ := exists_cons_of_append hpq hp
  simp [kindFrom?, h]

/-- How `munch` ends: how far the walk goes, and what is the last accepted prefix on it. -/
theorem munch_spec (s : StateId) (consumed : Nat) (best : Option Munch) (cs : List Char) :
    (∃ p, a.Reaches s cs p ∧ (a.munch s consumed best cs).2 = consumed + byteLength p) ∧
      (a.NoneFrom s cs ∧ (a.munch s consumed best cs).1 = best ∨
        ∃ m, a.LongestFrom s cs m ∧
          (a.munch s consumed best cs).1 = some ⟨m.kind, consumed + m.length⟩) := by
  induction cs generalizing s consumed best with
  | nil =>
    refine ⟨⟨[], reaches_nil s, rfl⟩, .inl ⟨?_, rfl⟩⟩
    intro p q h hp
    simp_all
  | cons c cs ih =>
    cases h : a.transition s c with
    | none =>
      have hnone := noneFrom_of_transition_eq_none h cs
      exact ⟨⟨[], reaches_of_transition_eq_none h cs, by simp [munch, h]⟩,
        .inl ⟨hnone, by simp [munch, h]⟩⟩
    | some next =>
      cases hk : a.accepting? next with
      | some kind =>
        obtain ⟨⟨p, hp, hlen⟩, hbest⟩ :=
          ih next (consumed + c.utf8Size) (some ⟨kind, consumed + c.utf8Size⟩)
        simp only [munch, h, hk]
        refine ⟨⟨c :: p, hp.cons h, by simp [hlen, Nat.add_assoc]⟩, .inr ?_⟩
        rcases hbest with ⟨hnone, hbest⟩ | ⟨m, hm, hbest⟩
        · exact ⟨_, hnone.longest h hk, hbest⟩
        · exact ⟨_, hm.cons h, by simp [hbest, Nat.add_assoc]⟩
      | none =>
        obtain ⟨⟨p, hp, hlen⟩, hbest⟩ := ih next (consumed + c.utf8Size) best
        simp only [munch, h, hk]
        refine ⟨⟨c :: p, hp.cons h, by simp [hlen, Nat.add_assoc]⟩, ?_⟩
        rcases hbest with ⟨hnone, hbest⟩ | ⟨m, hm, hbest⟩
        · exact .inl ⟨hnone.cons h hk, hbest⟩
        · exact .inr ⟨_, hm.cons h, by simp [hbest, Nat.add_assoc]⟩

/-- A reading cuts off the longest accepted prefix. If there is none, all that the walk goes over
is unrecognized, and at least the first character. -/
theorem readToken_cases {cs : List Char} {m : Munch} (h : a.readToken cs = some m) :
    a.Longest cs m ∨
      a.NoneFrom root cs ∧ m.kind = .unrecognized ∧
        ∃ p, a.Reaches root cs p ∧ m.length = byteLength (if p = [] then cs.take 1 else p) := by
  cases cs with
  | nil => simp [readToken] at h
  | cons c cs =>
    obtain ⟨⟨p, hp, hlen⟩, hbest⟩ := munch_spec (a := a) root 0 none (c :: cs)
    generalize hr : a.munch root 0 none (c :: cs) = r at hlen hbest
    obtain ⟨best, consumed⟩ := r
    simp only [readToken, hr] at h
    rcases hbest with ⟨hnone, rfl⟩ | ⟨n, hn, rfl⟩
    · right
      simp only [Option.some.injEq] at h
      subst h
      refine ⟨hnone, rfl, p, hp, ?_⟩
      simp only [Nat.zero_add] at hlen
      obtain ⟨⟨q, hq⟩, -, -⟩ := hp
      cases p with
      | nil => simp [hlen]
      | cons d p =>
        obtain ⟨rfl, -⟩ := List.cons.inj hq
        simp [hlen]
    · left
      simp only [Nat.zero_add, Option.some.injEq] at h
      exact h ▸ hn

theorem readToken_ne_none {cs : List Char} (h : cs ≠ []) : a.readToken cs ≠ none := by
  cases cs with
  | nil => exact absurd rfl h
  | cons c cs =>
    simp only [readToken]
    split <;> simp

/-- Where some prefix is accepted, the longest one is cut off. -/
theorem exists_longest {cs p : List Char} (hp : p <+: cs) (hkind : (a.kindOf? p).isSome)
    (hne : p ≠ []) : ∃ m, a.readToken cs = some m ∧ a.Longest cs m := by
  obtain ⟨q, rfl⟩ := hp
  obtain ⟨m, hm⟩ := Option.ne_none_iff_exists'.1
    (readToken_ne_none (a := a) (show p ++ q ≠ [] by simp [hne]))
  rcases readToken_cases hm with hlongest | ⟨hnone, -, -⟩
  · exact ⟨m, hm, hlongest⟩
  · rw [kindOf?, hnone p q rfl hne] at hkind
    simp at hkind

/-- A reading cuts off some characters, but not a part of one. -/
theorem readToken_isPrefix {cs : List Char} {m : Munch} (h : a.readToken cs = some m) :
    ∃ p q, cs = p ++ q ∧ p ≠ [] ∧ m.length = byteLength p := by
  rcases readToken_cases h with ⟨p, q, hpq, hp, -, hlen, -⟩ | ⟨-, -, p, ⟨⟨q, hpq⟩, -, -⟩, hlen⟩
  · exact ⟨p, q, hpq, hp, hlen⟩
  · by_cases hp : p = []
    · refine ⟨cs.take 1, cs.drop 1, (List.take_append_drop 1 cs).symm, ?_, by simpa [hp] using hlen⟩
      cases cs with
      | nil => simp [readToken] at h
      | cons c cs => simp
    · exact ⟨p, q, hpq, hp, by simpa [hp] using hlen⟩

/-- The walk ends where there is no edge for what follows. -/
theorem reaches_of_stuck {p q : List Char} {s t : StateId} (hw : a.walkFrom s p = some t)
    (hq : ∀ c ∈ q.head?, a.transition t c = none) : a.Reaches s (p ++ q) p := by
  refine ⟨⟨q, rfl⟩, by rw [hw]; rfl, ?_⟩
  intro p' q' h hlt
  obtain ⟨d, rfl⟩ : ∃ d, p' = p ++ d :=
    (List.prefix_of_prefix_length_le ⟨q, rfl⟩ ⟨q', h.symm⟩ (by omega)).imp fun _ h => h.symm
  cases d with
  | nil => simp at hlt
  | cons c d =>
    obtain ⟨-, rfl⟩ : p = p ∧ q = c :: (d ++ q') := by simpa using h
    simp [walkFrom_append, hw, hq c (by simp)]

/-- A text that is accepted and cannot be walked on from is read as a whole. -/
theorem readToken_of_stuck {p q : List Char} {s : StateId} {kind : TokenKind} (hp : p ≠ [])
    (hw : a.walkFrom root p = some s) (hk : a.accepting? s = some kind)
    (hq : ∀ c ∈ q.head?, a.transition s c = none) :
    a.readToken (p ++ q) = some ⟨kind, byteLength p⟩ := by
  have hkind : a.kindFrom? root p = some kind := by simp [kindFrom?, hw, hk]
  have hstuck := (reaches_of_stuck hw hq).2.2
  obtain ⟨m, hm, p', q', hpq, hp', hkind', hlen, hmax⟩ :=
    exists_longest (List.prefix_append p q) (by rw [kindOf?, hkind]; rfl) hp
  have hle : p'.length ≤ p.length := by
    by_contra hlt
    simp [kindFrom?, hstuck p' q' hpq (by omega)] at hkind'
  have hge : p.length ≤ p'.length := by
    by_contra hlt
    simp [hmax p q rfl (by omega)] at hkind
  obtain ⟨rfl, -⟩ := List.append_inj hpq (by omega)
  obtain ⟨kind', length⟩ := m
  simp_all

/-- A text that cannot be walked on from, and of which nothing is accepted, is unrecognized. -/
theorem readToken_of_rejected {p q : List Char} {s : StateId} (hp : p ≠ [])
    (hw : a.walkFrom root p = some s)
    (hnone : ∀ p', p' <+: p → p' ≠ [] → a.kindFrom? root p' = none)
    (hq : ∀ c ∈ q.head?, a.transition s c = none) :
    a.readToken (p ++ q) = some ⟨.unrecognized, byteLength p⟩ := by
  have hreaches := reaches_of_stuck hw hq
  obtain ⟨m, hm⟩ := Option.ne_none_iff_exists'.1
    (readToken_ne_none (a := a) (show p ++ q ≠ [] by simp [hp]))
  rcases readToken_cases hm with ⟨p', q', hpq, hp', hkind, -, -⟩ | ⟨-, hkind, p', hp', hlen⟩
  · by_cases hle : p'.length ≤ p.length
    · have hprefix := List.prefix_of_prefix_length_le ⟨q', hpq.symm⟩ (List.prefix_append p q) hle
      simp [hnone p' hprefix hp'] at hkind
    · simp [kindFrom?, hreaches.2.2 p' q' hpq (by omega)] at hkind
  · obtain rfl := hp'.unique hreaches
    obtain ⟨kind, length⟩ := m
    simp_all

/-- A text that is read as a whole leads to an accepting state. -/
theorem exists_walkFrom_of_readToken {cs : List Char} {kind : TokenKind}
    (h : a.readToken cs = some ⟨kind, byteLength cs⟩) (hkind : kind ≠ .unrecognized) :
    ∃ s, a.walkFrom root cs = some s ∧ a.accepting? s = some kind := by
  rcases readToken_cases h with ⟨p, q, rfl, -, hp, hlen, -⟩ | ⟨-, hunrecognized, -⟩
  · obtain rfl : q = [] := by
      cases q with
      | nil => rfl
      | cons c q =>
        have := c.utf8Size_pos
        simp only [byteLength_append, byteLength_cons] at hlen
        omega
    rw [List.append_nil]
    exact Option.bind_eq_some_iff.1 hp
  · exact absurd hunrecognized hkind

end Sable.Automaton
