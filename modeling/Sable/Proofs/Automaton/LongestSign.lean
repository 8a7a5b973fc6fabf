import Sable.Proofs.Automaton.Respelling
import Sable.Proofs.Token.Tokenization

/-!
# The longest sign

A vocabulary whose signs begin neither with a blank nor as a literal or a comment does is read along
its trie without a detour: a state of the trie accepts exactly the spelling that leads to it. So of
the signs at the beginning of an input the longest one is read, also where the walk goes on beyond it
and has to come back.

## Main definitions

* `Vocabulary.IsPlain`: no sign begins with a blank, or as a literal or a comment does.
* `Vocabulary.LongestSign`: the longest sign at the beginning of a text.

## Main statements

* `Automaton.kindOf?_of_isPlain`: what a text makes that begins with the first character of a sign.
* `Automaton.readToken_longestSign`: the longest sign is read.
-/
namespace Sable

open Automaton Lexeme Text

namespace Vocabulary

variable {v : Vocabulary} {p q : Punctuator} {cs : List Char}

/-- No sign begins with a blank, a digit or a quote, nor as a comment does. -/
def IsPlain (v : Vocabulary) : Prop :=
  ∀ p, IsBare (v.punctuatorSpelling p).toList ∧
    ∀ c ∈ (v.punctuatorSpelling p).toList.head?, ¬isBlank c

/-- The sign is at the beginning of the text, and no longer sign is. -/
structure LongestSign (v : Vocabulary) (cs : List Char) (p : Punctuator) : Prop where
  isPrefix : (v.punctuatorSpelling p).toList <+: cs
  length_le : ∀ q, (v.punctuatorSpelling q).toList <+: cs →
    (v.punctuatorSpelling q).length ≤ (v.punctuatorSpelling p).length

/-- Two signs are spelled differently. -/
theorem punctuatorSpelling_injective (h : v.punctuatorSpelling p = v.punctuatorSpelling q) :
    p = q := by
  have hindex : p.index = q.index := v.punctuators_table.2.2.getElem_inj_iff.1 h
  exact Option.some.inj (p.ofIndex?_index.symm.trans (hindex ▸ q.ofIndex?_index))

theorem LongestSign.unique (hp : v.LongestSign cs p) (hq : v.LongestSign cs q) : p = q := by
  have hlength : (v.punctuatorSpelling p).length = (v.punctuatorSpelling q).length :=
    Nat.le_antisymm (hq.length_le p hp.isPrefix) (hp.length_le q hq.isPrefix)
  apply v.punctuatorSpelling_injective
  apply String.toList_inj.1
  exact (List.prefix_of_prefix_length_le hp.isPrefix hq.isPrefix
    (Nat.le_of_eq hlength)).eq_of_length hlength

/-- A sign begins with some character, which is no blank. -/
theorem IsPlain.exists_cons (h : v.IsPlain) (p : Punctuator) :
    ∃ c rest, (v.punctuatorSpelling p).toList = c :: rest ∧ ¬isBlank c := by
  cases hcs : (v.punctuatorSpelling p).toList with
  | nil => exact absurd (String.toList_inj.1 hcs) (v.punctuatorSpelling_ne_empty p)
  | cons c rest => exact ⟨c, rest, rfl, (h p).2 c (by simp [hcs])⟩

theorem IsPlain.squeeze_spelling (h : v.IsPlain) (p : Punctuator) :
    squeeze (v.punctuatorSpelling p).toList = (v.punctuatorSpelling p).toList := by
  obtain ⟨c, rest, hcs, hc⟩ := h.exists_cons p
  rw [hcs, squeeze_of_not_isBlank hc]

end Vocabulary

namespace Automaton

variable {v : Vocabulary} {c : Char} {cs u : List Char} {kind : TokenKind}

/-- A text that begins like a sign, but as no comment, makes a sign just if it spells one. -/
theorem kindOf?_of_isPlain (hv : v.IsPlain) (hbare : IsBare (c :: u)) {p : Punctuator}
    (hp : (v.punctuatorSpelling p).toList.head? = some c) :
    (ofVocabulary v).kindOf? (c :: u) = some kind ↔
      ∃ q, kind = .punctuator q ∧ (v.punctuatorSpelling q).toList = c :: u := by
  have hblank : ¬isBlank c := (hv p).2 c hp
  have hne : c :: u ≠ [' '] := by
    rintro h
    obtain ⟨rfl, -⟩ := List.cons.inj h
    exact hblank (by decide)
  have hsign : ∀ q, signOfText? v Punctuator.all (c :: u) = some q ↔
      (v.punctuatorSpelling q).toList = c :: u := by
    intro q
    simp only [signOfText?_eq_some_iff, hv.squeeze_spelling]
    refine ⟨And.left, fun hq => ⟨hq, fun r hr => Nat.le_of_eq ?_⟩⟩
    rw [v.punctuatorSpelling_injective (String.toList_inj.1 (hr.trans hq.symm))]
  rw [kindOf?_of_isBare hbare (isSome_transition_base_iff.2 (.inr (.inr ⟨p, hp⟩))),
    squeeze_of_not_isBlank hblank, signKind?, if_neg hne, Option.or_none, Option.map_eq_some_iff]
  simp only [hsign]
  grind

/-- At the beginning of an input that begins with a sign, but as no comment, nothing but signs is
made. -/
theorem kindOf?_prefix_iff (hv : v.IsPlain) (hcomment : ¬['/', '/'] <+: cs ∧ ¬['/', '*'] <+: cs)
    {p : Punctuator} (hp : (v.punctuatorSpelling p).toList <+: cs) {w : List Char} (hw : w <+: cs)
    (hne : w ≠ []) : (ofVocabulary v).kindOf? w = some kind ↔
      ∃ q, kind = .punctuator q ∧ (v.punctuatorSpelling q).toList = w := by
  obtain ⟨c, rest, hspelling, -⟩ := hv.exists_cons p
  have hhead : (v.punctuatorSpelling p).toList.head? = some c := by rw [hspelling]; rfl
  obtain ⟨u, rfl⟩ : ∃ u, w = c :: u := by
    obtain ⟨tail, rfl⟩ := hp
    rw [hspelling, List.cons_append] at hw
    exact ((List.prefix_cons_iff.1 hw).resolve_left hne).imp fun _ h => h.1
  refine kindOf?_of_isPlain hv ⟨?_, ?_, ?_⟩ hhead
  · intro d hd
    obtain rfl : c = d := Option.some.inj hd
    exact (hv p).1.1 c hhead
  · exact fun h => hcomment.1 (h.trans hw)
  · exact fun h => hcomment.2 (h.trans hw)

/-- Of the signs at the beginning of an input that begins no comment, the longest one is read. -/
theorem readToken_longestSign (hv : v.IsPlain)
    (hcomment : ¬['/', '/'] <+: cs ∧ ¬['/', '*'] <+: cs)
    (hsign : ∃ p, (v.punctuatorSpelling p).toList <+: cs) :
    ∃ p, v.LongestSign cs p ∧ (∀ q, v.LongestSign cs q → q = p) ∧
      (ofVocabulary v).readToken cs = some ⟨.punctuator p, (v.punctuatorSpelling p).utf8ByteSize⟩ := by
  obtain ⟨p₀, hp₀⟩ := hsign
  have haccepted : ∀ q, (v.punctuatorSpelling q).toList <+: cs →
      (ofVocabulary v).kindOf? (v.punctuatorSpelling q).toList = some (.punctuator q) := by
    intro q hq
    have hne : (v.punctuatorSpelling q).toList ≠ [] := fun h =>
      v.punctuatorSpelling_ne_empty q (String.toList_inj.1 h)
    exact (kindOf?_prefix_iff hv hcomment hp₀ hq hne).2 ⟨q, rfl, rfl⟩
  obtain ⟨m, hm, w, z, rfl, hne, hw, hlength, hmax⟩ := exists_longest hp₀ (by rw [haccepted p₀ hp₀]; rfl)
    (fun h => v.punctuatorSpelling_ne_empty p₀ (String.toList_inj.1 h))
  obtain ⟨p, hkind, hp⟩ := (kindOf?_prefix_iff hv hcomment hp₀ (List.prefix_append w z) hne).1 hw
  have hlongest : v.LongestSign (w ++ z) p := by
    refine ⟨⟨z, by rw [hp]⟩, fun q hq => ?_⟩
    by_contra hlt
    obtain ⟨z', hz'⟩ := hq
    have hnone := hmax _ z' hz'.symm (by rw [← hp]; exact Nat.lt_of_not_le hlt)
    exact absurd (hnone.symm.trans (haccepted q ⟨z', hz'⟩)) (by simp)
  refine ⟨p, hlongest, fun q hq => hq.unique hlongest, ?_⟩
  rw [hm, ← byteLength_toList, hp, ← hkind, ← hlength]

/-- The standard vocabulary, but for the sign of an increment, which has a third plus. -/
def tripled : Vocabulary where
  keywords := Vocabulary.standard.keywords
  punctuators := Punctuator.all.map fun p => if p = .increment then "+++" else p.spelling
  keywords_table := Vocabulary.standard.keywords_table
  punctuators_table := by unfold IsSpellingTable; decide

/-- Two of its pluses are walked over, and one is read. -/
theorem readToken_longestSign_plus : tripled.IsPlain ∧
    (¬['/', '/'] <+: "++x".toList ∧ ¬['/', '*'] <+: "++x".toList) ∧
    (∃ p, (tripled.punctuatorSpelling p).toList <+: "++x".toList) ∧
    ∃ p, tripled.LongestSign "++x".toList p ∧ (∀ q, tripled.LongestSign "++x".toList q → q = p) ∧
      (ofVocabulary tripled).readToken "++x".toList =
        some ⟨.punctuator p, (tripled.punctuatorSpelling p).utf8ByteSize⟩ := by
  have hhead : ∀ p, ∃ c, (tripled.punctuatorSpelling p).toList.head? = some c ∧
      (¬c.isDigit ∧ ¬isQuote c) ∧ ¬isBlank c := by
    rintro ⟨⟩ <;> exact ⟨_, rfl, by decide⟩
  have hplain : tripled.IsPlain := by
    intro p
    obtain ⟨c, hc, hbegins, hblank⟩ := hhead p
    rw [IsBare, hc]
    refine ⟨⟨?_, by cases p <;> decide⟩, ?_⟩
    · rintro _ ⟨⟩
      exact hbegins
    · rintro _ ⟨⟩
      exact hblank
  have hcomment : ¬['/', '/'] <+: "++x".toList ∧ ¬['/', '*'] <+: "++x".toList := by decide
  have hsign : ∃ p, (tripled.punctuatorSpelling p).toList <+: "++x".toList := ⟨.plus, by decide⟩
  exact ⟨hplain, hcomment, hsign, readToken_longestSign hplain hcomment hsign⟩

end Automaton

end Sable
