import Sable.Proofs.Automaton.Trie

/-!
# Signs and words of any vocabulary

Digits, quotes and comments are laid over the trie of the signs. A text that begins none of these is
read along the trie, if the trie has an edge for its first character. A text whose first character
has no edge at all is a word.

## Main definitions

* `Automaton.IsBare`: the text begins no literal and no comment.
* `Vocabulary.IsWord`: the text is a word.

## Main statements

* `Automaton.kindOf?_of_isBare`: what is read along the trie.
* `Automaton.kindOf?_spelling_iff`: the signs that are read from their spellings.
* `Automaton.kindOf?_eq_identifier_iff`: the texts that are words.
-/
namespace Sable

open Automaton Lexeme

/-- No literal and no comment begins so. -/
def Automaton.IsBare (cs : List Char) : Prop :=
  (∀ c ∈ cs.head?, ¬c.isDigit ∧ ¬isQuote c) ∧ ¬['/', '/'] <+: cs ∧ ¬['/', '*'] <+: cs

namespace Vocabulary

/-- A word begins with a character that begins nothing else. -/
def BeginsWord (v : Vocabulary) (c : Char) : Prop :=
  ¬isBlank c ∧ ¬c.isDigit ∧ ¬isQuote c ∧ c ≠ '/' ∧
    ∀ p, (v.punctuatorSpelling p).toList.head? ≠ some c

/-- It goes on with letters, digits and underscores. -/
def IsWord (v : Vocabulary) : List Char → Prop
  | [] => False
  | c :: cs => v.BeginsWord c ∧ ∀ d ∈ cs, isWordChar d

theorem punctuatorSpelling_ne_empty (v : Vocabulary) (p : Punctuator) :
    v.punctuatorSpelling p ≠ "" := by
  intro h
  refine v.punctuators_table.2.1 ?_
  rw [← h]
  exact List.get_mem ..

end Vocabulary

namespace Automaton

variable {v : Vocabulary} {a : Automaton} {c : Char} {cs : List Char}

theorem IsBare.of_append {ds : List Char} (h : IsBare (c :: cs ++ ds)) : IsBare (c :: cs) :=
  ⟨h.1, fun hp => h.2.1 (hp.trans (List.prefix_append ..)),
    fun hp => h.2.2 (hp.trans (List.prefix_append ..))⟩

/-! ## The trie below the other parts -/

namespace Layers

variable (l : Layers v a) {s : StateId}

include l

theorem accepting?_base (hs : s < (base v).size) : a.accepting? s = (base v).accepting? s := by
  by_cases hroot : s = root
  · rw [accepting?, accepting?, hroot, l.state?_root]
    cases (base v).state? root <;> rfl
  · by_cases hslash : s = slash v
    · rw [accepting?, accepting?, hslash, l.state?_slash]
      cases (base v).state? (slash v) <;> rfl
    · rw [accepting?, accepting?, l.state?_base s hs hroot hslash]

/-- Behind the first character, only comments are laid over the trie. -/
theorem transition_base (hs : s < (base v).size) (hroot : s ≠ root)
    (hslash : s = slash v → c ≠ '/' ∧ c ≠ '*') : a.transition s c = (base v).transition s c := by
  by_cases h : s = slash v
  · obtain ⟨hne, hne'⟩ := hslash h
    rw [transition, transition, h, l.state?_slash]
    cases (base v).state? (slash v) with
    | none => rfl
    | some state =>
      simp only [Option.map_some, Option.bind_some, AutomatonState.edge?, lookup_edgesTo_append,
        List.mem_singleton, hne, hne', if_false]
  · rw [transition, transition, l.state?_base s hs hroot h]

theorem transition_root_base (hdigit : ¬c.isDigit) (hquote : ¬isQuote c)
    (hedge : ((base v).transition root c).isSome) :
    a.transition root c = (base v).transition root c := by
  obtain ⟨r, state, hstate, -, hr, -, hedges⟩ := l.exists_root
  have hapostrophe : c ≠ '"' ∧ c ≠ '\'' := by
    constructor <;> rintro rfl <;> simp [isQuote] at hquote
  have hbase : (base v).transition root c = state.edge? c := by
    rw [transition, hstate, Option.bind_some, (mute_base v root state hstate).1,
      Option.orElse_eq_orElse, Option.orElse_eq_or, Option.or_none]
  rw [hbase] at hedge ⊢
  rw [transition, hr, Option.bind_some, hedges, if_neg hapostrophe.1, if_neg hapostrophe.2,
    if_neg (by rwa [mem_digits])]
  cases hlookup : state.edge? c with
  | none => simp [hlookup] at hedge
  | some t => rfl

/-- A text that begins no literal and no comment is read along the trie. -/
theorem walkFrom_of_isBare (h : IsBare (c :: cs)) (hedge : ((base v).transition root c).isSome) :
    a.walkFrom root (c :: cs) = (base v).walkFrom root (c :: cs) := by
  obtain ⟨text, hspells, hslash⟩ := exists_spells v
  induction cs using List.reverseRecOn with
  | nil =>
    obtain ⟨hdigit, hquote⟩ := h.1 c rfl
    rw [walkFrom_cons, walkFrom_cons, l.transition_root_base hdigit hquote hedge]
    simp only [walkFrom_nil]
  | append_singleton cs d ih =>
    rw [← List.cons_append] at h ⊢
    rw [walkFrom_append, walkFrom_append, ih h.of_append]
    refine Option.bind_congr fun s hs => ?_
    obtain ⟨hlt, htext⟩ := (hspells.walkFrom_eq_some (tidy_base v) (mute_base v)).1 hs
    have hroot : s ≠ root := by
      rintro rfl
      rw [hspells.text_root] at htext
      by_cases hc : isBlank c <;> simp [squeeze, hc] at htext
    have hnext := l.transition_base (c := d) hlt hroot fun hslash' => by
      -- only the text of one slash leads to the state of it
      rw [hslash', hslash] at htext
      have htext : c :: cs = ['/'] := by
        by_cases hc : isBlank c
        · simp [squeeze, hc] at htext
        · rw [htext, squeeze_of_not_isBlank hc]
      refine ⟨?_, ?_⟩ <;> rintro rfl
      · exact h.2.1 (by rw [htext]; exact List.prefix_rfl)
      · exact h.2.2 (by rw [htext]; exact List.prefix_rfl)
    rw [walkFrom_cons, walkFrom_cons, hnext]
    simp only [walkFrom_nil]

end Layers

/-- The sign that is spelled so makes a token of the text, or whitespace. -/
theorem kindOf?_of_isBare (h : IsBare (c :: cs)) (hedge : ((base v).transition root c).isSome) :
    (ofVocabulary v).kindOf? (c :: cs) = signKind? v Punctuator.all (squeeze (c :: cs)) := by
  obtain ⟨l⟩ := exists_layers v
  obtain ⟨text, hspells, -⟩ := exists_spells v
  have hwalks : ∀ s, (base v).walkFrom root (c :: cs) = some s ↔
      s < (base v).size ∧ text s = squeeze (c :: cs) :=
    fun _ => hspells.walkFrom_eq_some (tidy_base v) (mute_base v)
  rw [kindOf?, kindFrom?, l.walkFrom_of_isBare h hedge]
  cases hwalk : (base v).walkFrom root (c :: cs) with
  | some s =>
    obtain ⟨hs, htext⟩ := (hwalks s).1 hwalk
    rw [Option.bind_some, l.accepting?_base hs, hspells.accepting hs, htext]
  | none =>
    rw [Option.bind_none]
    symm
    rw [← Option.not_isSome_iff_eq_none]
    intro hkind
    obtain ⟨s, hs, htext⟩ := hspells.exists_of_kind hkind
    simp [(hwalks s).2 ⟨hs, htext⟩] at hwalk

/-! ## The first character -/

theorem signOfText?_isSome (v : Vocabulary) (p : Punctuator) :
    (signOfText? v Punctuator.all (squeeze (v.punctuatorSpelling p).toList)).isSome := by
  rw [signOfText?, List.find?_isSome]
  exact ⟨p, List.mem_reverse.2 p.mem_all, by simp⟩

/-- The trie has edges for blanks, for a slash, and for the first characters of the signs. -/
theorem isSome_transition_base_iff : ((base v).transition root c).isSome ↔
    isBlank c ∨ c = '/' ∨ ∃ p, (v.punctuatorSpelling p).toList.head? = some c := by
  obtain ⟨text, hspells, hslash⟩ := exists_spells v
  have hlt : slash v < (base v).size := (base_spec v).2.1
  have hwalks : ∀ {w s}, (base v).walkFrom root w = some s ↔
      s < (base v).size ∧ text s = squeeze w :=
    hspells.walkFrom_eq_some (tidy_base v) (mute_base v)
  have hone : ∀ c, (base v).walkFrom root [c] = (base v).transition root c := by
    intro c
    simp
  rw [← hone]
  constructor
  · intro hsome
    obtain ⟨s, hs⟩ := Option.isSome_iff_exists.1 hsome
    obtain ⟨hs, htext⟩ := hwalks.1 hs
    by_cases hc : isBlank c
    · exact .inl hc
    refine .inr ?_
    rw [squeeze_of_not_isBlank hc] at htext
    have hbegun := hspells.known hs
    rw [htext] at hbegun
    rcases hbegun with h | h | h | ⟨p, ds, hds, h⟩
    · simp at h
    · exact absurd (List.singleton_inj.1 h ▸ (by decide)) hc
    · exact .inl (List.singleton_inj.1 h)
    · refine .inr ⟨p, ?_⟩
      cases ds with
      | nil => simp at h
      | cons d ds =>
        by_cases hd : isBlank d
        · rw [squeeze, List.head?_cons, Option.any_some, if_pos hd, List.cons.injEq] at h
          exact absurd (h.1 ▸ (by decide)) hc
        · rw [squeeze_of_not_isBlank hd, List.cons.injEq] at h
          obtain ⟨rest, hrest⟩ := hds
          rw [← hrest, h.1]
          rfl
  · rintro (hc | rfl | ⟨p, hp⟩)
    · obtain ⟨s, hs, htext⟩ := hspells.exists_of_kind (isSome_signKind?_blank v Punctuator.all)
      rw [hwalks.2 ⟨hs, by rw [htext]; simp [squeeze, hc]⟩]
      rfl
    · rw [hwalks.2 ⟨hlt, by rw [hslash, squeeze_of_not_isBlank (by decide)]⟩]
      rfl
    · obtain ⟨rest, hrest⟩ := List.head?_eq_some_iff.1 hp
      obtain ⟨s, hs, htext⟩ := hspells.exists_of_kind
        (w := squeeze (v.punctuatorSpelling p).toList) (by
          obtain ⟨q, hq⟩ := Option.isSome_iff_exists.1 (signOfText?_isSome v p)
          simp [signKind?, hq])
      have hwalk := hwalks.2 ⟨hs, htext⟩
      rw [hrest, ← List.singleton_append] at hwalk
      exact walkFrom_isSome_of_prefix (by rw [hwalk]; rfl)

/-- A text that makes a sign begins no literal and no comment. -/
theorem isBare_of_kindOf? {p : Punctuator}
    (h : (ofVocabulary v).kindOf? cs = some (.punctuator p)) : IsBare cs := by
  obtain ⟨l⟩ := exists_layers v
  have hcomment : ∀ d t, (d = '/' ∨ d = '*') → cs ≠ '/' :: d :: t := by
    rintro d t hd rfl
    have hnext : ∃ place, (ofVocabulary v).transition (slash v) d = some (l.comment place) := by
      rcases hd with rfl | rfl
      · exact ⟨_, l.transition_slash_slash⟩
      · exact ⟨_, l.transition_slash_star⟩
    obtain ⟨place, hnext⟩ := hnext
    rw [kindOf?, kindFrom?_cons l.transition_slash, kindFrom?_cons hnext] at h
    obtain ⟨place, hkind⟩ := l.comment_within.exists_accepting h
    cases place <;> simp [Comment.part] at hkind
  refine ⟨?_, ?_, ?_⟩
  · intro c hc
    obtain ⟨rest, rfl⟩ := List.head?_eq_some_iff.1 hc
    refine ⟨fun hdigit => ?_, fun hquote => ?_⟩
    · rw [kindOf?, kindFrom?_cons (l.transition_digit ((mem_digits c).2 hdigit))] at h
      obtain ⟨place, hkind⟩ := l.numeric_within.exists_accepting h
      cases place <;> simp [Numeric.part] at hkind
    · obtain rfl | rfl : c = '\'' ∨ c = '"' := by simpa [isQuote] using hquote
      · rw [kindOf?, kindFrom?_cons l.transition_apostrophe] at h
        obtain ⟨place, hkind⟩ := l.character_within.exists_accepting h
        cases place <;> simp [Quoted.part] at hkind
      · rw [kindOf?, kindFrom?_cons l.transition_quote] at h
        obtain ⟨place, hkind⟩ := l.string_within.exists_accepting h
        cases place <;> simp [Quoted.part] at hkind
  · rintro ⟨t, rfl⟩
    exact hcomment '/' t (.inl rfl) rfl
  · rintro ⟨t, rfl⟩
    exact hcomment '*' t (.inr rfl) rfl

/-! ## Signs -/

/-- Of a list in ascending order, the last one that satisfies `P`. -/
theorem find?_reverse_eq_some_iff {α : Type} {l : List α} {f : α → Nat} {P : α → Bool}
    (hl : l.Pairwise fun x y => f x < f y) {x : α} :
    l.reverse.find? P = some x ↔ x ∈ l ∧ P x ∧ ∀ y ∈ l, P y → f y ≤ f x := by
  induction l using List.reverseRecOn with
  | nil => simp
  | append_singleton l z ih =>
    obtain ⟨hl, -, hz⟩ := List.pairwise_append.1 hl
    have hlt : ∀ y ∈ l, f y < f z := fun y hy => hz y hy z (List.mem_singleton.2 rfl)
    rw [List.reverse_append, List.reverse_singleton, List.singleton_append, List.find?_cons]
    cases hPz : P z with
    | true =>
      simp only [Option.some.injEq, List.mem_append, List.mem_singleton]
      constructor
      · rintro rfl
        refine ⟨.inr rfl, hPz, ?_⟩
        rintro y (hy | rfl) -
        · exact Nat.le_of_lt (hlt y hy)
        · exact Nat.le_refl _
      · rintro ⟨hx | rfl, -, hmax⟩
        · exact absurd (hmax z (.inr rfl) hPz) (Nat.not_le_of_lt (hlt x hx))
        · rfl
    | false =>
      rw [ih hl]
      simp only [List.mem_append, List.mem_singleton]
      constructor
      · rintro ⟨hx, hPx, hmax⟩
        refine ⟨.inl hx, hPx, ?_⟩
        rintro y (hy | rfl) hPy
        · exact hmax y hy hPy
        · simp [hPz] at hPy
      · rintro ⟨hx | rfl, hPx, hmax⟩
        · exact ⟨hx, hPx, fun y hy => hmax y (.inl hy)⟩
        · simp [hPz] at hPx

theorem signOfText?_eq_some_iff {p : Punctuator} {w : List Char} :
    signOfText? v Punctuator.all w = some p ↔ squeeze (v.punctuatorSpelling p).toList = w ∧
      ∀ q, squeeze (v.punctuatorSpelling q).toList = w → q.index ≤ p.index := by
  have hall : Punctuator.all.Pairwise fun p q => p.index < q.index := by decide
  rw [signOfText?, find?_reverse_eq_some_iff hall]
  simp [Punctuator.mem_all]

/-- The spelling of a sign is read as that sign just if it begins no literal and no comment, and no
later sign is spelled the same but for blanks in front. -/
theorem kindOf?_spelling_iff {p : Punctuator} :
    (ofVocabulary v).kindOf? (v.punctuatorSpelling p).toList = some (.punctuator p) ↔
      IsBare (v.punctuatorSpelling p).toList ∧ ∀ q, squeeze (v.punctuatorSpelling q).toList =
        squeeze (v.punctuatorSpelling p).toList → q.index ≤ p.index := by
  have hkind : IsBare (v.punctuatorSpelling p).toList →
      (ofVocabulary v).kindOf? (v.punctuatorSpelling p).toList =
        (signOfText? v Punctuator.all (squeeze (v.punctuatorSpelling p).toList)).map
          TokenKind.punctuator := by
    intro hbare
    obtain ⟨q, hq⟩ := Option.isSome_iff_exists.1 (signOfText?_isSome v p)
    cases hcs : (v.punctuatorSpelling p).toList with
    | nil => exact absurd (String.toList_inj.1 hcs) (v.punctuatorSpelling_ne_empty p)
    | cons c cs =>
      rw [hcs] at hbare hq
      have hedge : ((base v).transition root c).isSome :=
        isSome_transition_base_iff.2 (.inr (.inr ⟨p, by rw [hcs]; rfl⟩))
      rw [kindOf?_of_isBare hbare hedge, signKind?, hq]
      rfl
  constructor
  · intro h
    have hbare := isBare_of_kindOf? h
    rw [hkind hbare, Option.map_eq_some_iff] at h
    obtain ⟨q, hq, heq⟩ := h
    obtain rfl := TokenKind.punctuator.inj heq
    exact ⟨hbare, (signOfText?_eq_some_iff.1 hq).2⟩
  · rintro ⟨hbare, hlast⟩
    rw [hkind hbare, signOfText?_eq_some_iff.2 ⟨rfl, hlast⟩]
    rfl

/-! ## Words -/

/-- A text makes an identifier just if it is a word. -/
theorem kindOf?_eq_identifier_iff :
    (ofVocabulary v).kindOf? cs = some .identifier ↔ v.IsWord cs := by
  obtain ⟨l⟩ := exists_layers v
  cases cs with
  | nil =>
    refine iff_of_false (fun h => ?_) id
    obtain ⟨c, rest, h, -⟩ := exists_of_kindOf?_eq_identifier h
    simp at h
  | cons c cs =>
    have hword : (ofVocabulary v).kindFrom? (l.word .word) cs = some .identifier ↔
        ∀ d ∈ cs, isWordChar d :=
      (Word.solves.kindFrom? l.word_within .word cs).trans mem_kstar_chars
    obtain ⟨r, state, hstate, -, hr, hotherwise, hedges⟩ := l.exists_root
    have hbase : (base v).transition root c = state.edge? c := by
      rw [transition, hstate, Option.bind_some, (mute_base v root state hstate).1,
        Option.orElse_eq_orElse, Option.orElse_eq_or, Option.or_none]
    constructor
    · intro h
      -- an edge of the root leads elsewhere, where no identifier ends
      have hnone : r.edge? c = none := by
        by_contra hsome
        obtain ⟨t, ht⟩ := Option.ne_none_iff_exists'.1 hsome
        have hnext : (ofVocabulary v).transition root c = some t := by
          rw [transition, hr, Option.bind_some, ht]
          rfl
        rw [kindOf?, kindFrom?_cons hnext] at h
        exact absurd h ((l.elsewhere_of_edge?_root hr ht).kindFrom? cs)
      rw [kindOf?, kindFrom?_cons (l.transition_of_edge?_eq_none hr hnone)] at h
      refine ⟨?_, hword.1 h⟩
      rw [hedges] at hnone
      split at hnone
      · simp at hnone
      · next hquote =>
        split at hnone
        · simp at hnone
        · next hapostrophe =>
          split at hnone
          · simp at hnone
          · next hdigit =>
            have hbegins : ¬(isBlank c ∨ c = '/' ∨
                ∃ p, (v.punctuatorSpelling p).toList.head? = some c) := by
              rw [← isSome_transition_base_iff, hbase, hnone]
              simp
            simp only [not_or, not_exists] at hbegins
            exact ⟨hbegins.1, by rwa [mem_digits] at hdigit, by simp [isQuote, hquote, hapostrophe],
              hbegins.2.1, hbegins.2.2⟩
    · rintro ⟨⟨hblank, hdigit, hquote, hslash, hsigns⟩, hrest⟩
      have hquotes : c ≠ '"' ∧ c ≠ '\'' := by
        constructor <;> rintro rfl <;> simp [isQuote] at hquote
      have hedge : state.edge? c = none := by
        rw [← hbase, ← Option.not_isSome_iff_eq_none, isSome_transition_base_iff]
        simp [hblank, hslash, hsigns]
      have hnone : r.edge? c = none := by
        rw [hedges, if_neg hquotes.1, if_neg hquotes.2, if_neg (by rwa [mem_digits]), hedge]
      rw [kindOf?, kindFrom?_cons (l.transition_of_edge?_eq_none hr hnone)]
      exact hword.2 hrest

end Automaton

end Sable
