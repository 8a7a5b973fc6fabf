import Sable.Proofs.Automaton.Identifiers

/-!
# The trie of the signs

Whitespace and the signs of a vocabulary are laid out as a trie: each state stands for the text that
leads to it, and no two states for the same one. Whitespace has a single state, so a run of blanks in
front of a text counts as one blank.

Where two signs are spelled alike but for the blanks in front, the later one in the table counts.

## Main definitions

* `Automaton.squeeze`: a text with the blanks in front as one.
* `Automaton.Spells`: the states of an automaton stand for texts.
* `Automaton.baseKind?`: the kind of token that the trie makes of a text.

## Main statements

* `Automaton.exists_spells`: whitespace and the signs of any vocabulary are a trie.
* `Automaton.Spells.walkFrom_eq_some`: a text leads to the state that stands for it.
-/
namespace Sable.Automaton

open Builder Lexeme

variable {a : Automaton}

/-! ## Texts -/

/-- The text goes on with a character. Blanks in front are one blank. -/
def extend (w : List Char) (c : Char) : List Char :=
  if isBlank c ∧ (w = [] ∨ w = [' ']) then [' '] else w ++ [c]

/-- The text with the blanks in front as one. -/
def squeeze (cs : List Char) : List Char :=
  if cs.head?.any isBlank then ' ' :: cs.dropWhile isBlank else cs

@[simp] theorem squeeze_nil : squeeze [] = [] := rfl

theorem squeeze_of_not_isBlank {c : Char} (hc : ¬isBlank c) (cs : List Char) :
    squeeze (c :: cs) = c :: cs := by
  simp [squeeze, hc]

theorem squeeze_concat (cs : List Char) (c : Char) :
    squeeze (cs ++ [c]) = extend (squeeze cs) c := by
  have hdrop : ∀ ds : List Char, (ds ++ [c]).dropWhile isBlank =
      if isBlank c ∧ ds.dropWhile isBlank = [] then [] else ds.dropWhile isBlank ++ [c] := by
    intro ds
    induction ds with
    | nil => by_cases hc : isBlank c <;> simp [hc]
    | cons d ds ih => by_cases hd : isBlank d <;> simp [hd, ih]
  cases cs with
  | nil => by_cases hc : isBlank c <;> simp [squeeze, extend, hc]
  | cons d ds =>
    by_cases hd : isBlank d
    · have hdrop := hdrop (d :: ds)
      rw [List.cons_append] at hdrop
      simp only [squeeze, List.cons_append, List.head?_cons, Option.any_some, hd, if_true, hdrop,
        extend]
      by_cases hc : isBlank c ∧ (d :: ds).dropWhile isBlank = []
      · simp [hc]
      · have hblank : ¬(isBlank c ∧ (' ' :: (d :: ds).dropWhile isBlank = [] ∨
            ' ' :: (d :: ds).dropWhile isBlank = [' '])) := by simpa using hc
        rw [if_neg hc, if_neg hblank]
    · have hne : ¬(d = ' ' ∧ ds = []) := fun h => hd (h.1 ▸ by decide)
      simp [squeeze, extend, hd, hne]

theorem squeeze_eq_foldl (cs : List Char) : squeeze cs = cs.foldl extend [] := by
  induction cs using List.reverseRecOn with
  | nil => rfl
  | append_singleton cs c ih => rw [squeeze_concat, List.foldl_concat, ih]

theorem extend_ne_nil (w : List Char) (c : Char) : extend w c ≠ [] := by
  unfold extend
  split <;> simp

/-- Only a blank in front can go on with another one. -/
theorem extend_injective {w w' : List Char} {c c' : Char} (h : extend w c = extend w' c')
    (hne : extend w c ≠ [' ']) : w = w' ∧ c = c' := by
  have happend : ∀ {w : List Char} {c : Char}, extend w c ≠ [' '] → extend w c = w ++ [c] := by
    intro w c hne
    unfold extend at hne ⊢
    split at hne
    · exact absurd rfl hne
    · next hblank => rw [if_neg hblank]
  have hw := happend hne
  have hw' := happend (h ▸ hne)
  rw [hw, hw'] at h
  obtain ⟨hw, hc⟩ := List.append_inj' h rfl
  exact ⟨hw, List.singleton_inj.1 hc⟩

/-! ## States that stand for texts -/

/-- The states stand for texts, each for one that no other stands for. Where a text goes on, there is
an edge, if a state stands for the longer text. Of each text, `known` says whether a state may stand
for it, and `kind` what token it makes. -/
structure Spells (a : Automaton) (known : List Char → Prop) (kind : List Char → Option TokenKind)
    (text : StateId → List Char) : Prop where
  text_root : text root = []
  edge_iff : ∀ {s t : StateId} {c : Char} {state : AutomatonState}, a.state? s = some state →
    t < a.size → (state.edge? c = some t ↔ text t = extend (text s) c)
  injective : ∀ {s t : StateId}, s < a.size → t < a.size → text s = text t → s = t
  closed : ∀ {t : StateId} {w : List Char} {c : Char}, t < a.size → text t = extend w c →
    ∃ s < a.size, text s = w
  known : ∀ {s : StateId}, s < a.size → known (text s)
  accepting : ∀ {s : StateId}, s < a.size → a.accepting? s = kind (text s)
  exists_of_kind : ∀ {w : List Char}, (kind w).isSome → ∃ s < a.size, text s = w

/-- The state `s` gets an edge for `c`, to a new state. -/
def sprout (a : Automaton) (s : StateId) (c : Char) : Automaton :=
  (a.addState none).addEdges s [c] a.size

section Sprout

variable {s t u : StateId} {c d : Char} {state : AutomatonState}

@[simp] theorem size_sprout (a : Automaton) (s : StateId) (c : Char) :
    (a.sprout s c).size = a.size + 1 := by
  simp [sprout]

theorem state?_sprout (hs : s < a.size) (c : Char) (t : StateId) : (a.sprout s c).state? t =
    if t = a.size then some {} else if s = t then
      (a.state? t).map fun u => { u with edges := (c, a.size) :: u.edges } else a.state? t := by
  rw [sprout, state?_addEdges, state?_addState]
  by_cases ht : t = a.size
  · simp [ht, Nat.ne_of_lt hs]
  · simp [ht, edgesTo]

theorem accepting?_sprout (hs : s < a.size) (c : Char) (ht : t < a.size) :
    (a.sprout s c).accepting? t = a.accepting? t := by
  rw [accepting?, accepting?, state?_sprout hs, if_neg (Nat.ne_of_lt ht)]
  split
  · cases a.state? t <;> rfl
  · rfl

theorem accepting?_sprout_size (hs : s < a.size) (c : Char) :
    (a.sprout s c).accepting? a.size = none := by
  rw [accepting?, state?_sprout hs, if_pos rfl]
  rfl

theorem edge_lt (htidy : Tidy a) (hstate : a.state? u = some state)
    (hedge : state.edge? c = some t) : t < a.size := by
  obtain ⟨l, r, hmem, -⟩ := List.lookup_eq_some_iff.1 hedge
  exact (htidy u state hstate (c, t) (by simp [hmem])).2

/-- The edges of the states that were there, and none from the new one. -/
theorem edge?_sprout (htidy : Tidy a) (hs : s < a.size) (hnone : ∀ state, a.state? s = some state →
    state.edge? c = none) (hstate : (a.sprout s c).state? u = some state) :
    state.edge? d = some t ↔ (u = s ∧ d = c ∧ t = a.size) ∨
      t < a.size ∧ ∃ old, a.state? u = some old ∧ old.edge? d = some t := by
  rw [state?_sprout hs] at hstate
  by_cases hu : u = a.size
  · subst hu
    rw [if_pos rfl] at hstate
    obtain rfl := Option.some.inj hstate
    have hgone : a.state? a.size = none := by
      rw [← Option.not_isSome_iff_eq_none, state?_isSome_iff]
      exact Nat.lt_irrefl _
    simp [AutomatonState.edge?, hgone, Ne.symm (Nat.ne_of_lt hs)]
  · rw [if_neg hu] at hstate
    by_cases hus : s = u
    · subst hus
      rw [if_pos rfl] at hstate
      obtain ⟨old, hold, rfl⟩ := Option.map_eq_some_iff.1 hstate
      have hnone := hnone old hold
      have hlt := fun h => edge_lt htidy hold (c := d) (t := t) h
      rw [AutomatonState.edge?, List.lookup_cons]
      by_cases hd : d = c
      · subst hd
        simp only [BEq.rfl, Option.some.injEq, true_and, hold, exists_eq_left', hnone, reduceCtorEq,
          and_false, or_false]
        exact eq_comm
      · rw [beq_eq_false_iff_ne.2 hd]
        simp only [hd, false_and, and_false, false_or, hold, Option.some.injEq, exists_eq_left']
        exact ⟨fun h => ⟨hlt h, h⟩, fun h => h.2⟩
    · rw [if_neg hus] at hstate
      simp only [Ne.symm hus, false_and, false_or, hstate, Option.some.injEq, exists_eq_left']
      exact ⟨fun h => ⟨edge_lt htidy hstate h, h⟩, fun h => h.2⟩

end Sprout

namespace Spells

variable {known : List Char → Prop} {kind : List Char → Option TokenKind} {text : StateId → List Char}
  {s : StateId} {c : Char}

/-- Where there is no edge, no state stands for the longer text, which is no blank alone. -/
theorem text_ne_extend (h : Spells a known kind text) (hs : s < a.size)
    (hblank : (kind [' ']).isSome)
    (hnone : ∀ state, a.state? s = some state → state.edge? c = none) :
    (∀ t < a.size, text t ≠ extend (text s) c) ∧ extend (text s) c ≠ [' '] := by
  obtain ⟨state, hstate⟩ := Option.isSome_iff_exists.1 (state?_isSome_iff.2 hs)
  have hfresh : ∀ t < a.size, text t ≠ extend (text s) c := by
    intro t ht heq
    have hedge := (h.edge_iff hstate ht).2 heq
    simp [hnone state hstate] at hedge
  refine ⟨hfresh, fun heq => ?_⟩
  obtain ⟨t, ht, htext⟩ := h.exists_of_kind hblank
  exact hfresh t ht (htext.trans heq.symm)

/-- A new state stands for a text that goes on by one character. -/
theorem sprout (h : Spells a known kind text) (htidy : Tidy a) (hs : s < a.size)
    (hblank : (kind [' ']).isSome) (hknown : known (extend (text s) c))
    (hnone : ∀ state, a.state? s = some state → state.edge? c = none) :
    Spells (a.sprout s c) known kind
      fun t => if t = a.size then extend (text s) c else text t := by
  obtain ⟨hfresh, hne⟩ := h.text_ne_extend hs hblank hnone
  have hcases : ∀ {t}, t < (a.sprout s c).size → t < a.size ∨ t = a.size := fun ht =>
    Nat.lt_succ_iff_lt_or_eq.1 (by rwa [size_sprout] at ht)
  have hlt : ∀ {t}, t < a.size → t < (a.sprout s c).size := fun ht => by
    rw [size_sprout]
    exact Nat.lt_succ_of_lt ht
  have hold : ∀ {t}, t < a.size → (if t = a.size then extend (text s) c else text t) = text t :=
    fun ht => if_neg (Nat.ne_of_lt ht)
  have hnew : (if a.size = a.size then extend (text s) c else text a.size) = extend (text s) c :=
    if_pos rfl
  refine ⟨?_, fun {u t d state} hstate ht => ?_, fun {u t} hu ht heq => ?_,
    fun {t w d} ht heq => ?_, fun {t} ht => ?_, fun {t} ht => ?_, fun {w} hw => ?_⟩
  · rw [hold a.root_lt_size, h.text_root]
  · rw [edge?_sprout htidy hs hnone hstate]
    have hu : u < (a.sprout s c).size := state?_isSome_iff.1 (by rw [hstate]; rfl)
    rcases hcases hu with hu | rfl <;> rcases hcases ht with ht | rfl
    · obtain ⟨old, hu'⟩ := Option.isSome_iff_exists.1 (state?_isSome_iff.2 hu)
      rw [hold hu, hold ht, ← h.edge_iff hu' ht]
      simp [hu', ht, Nat.ne_of_lt ht]
    · rw [hold hu, hnew]
      refine ⟨fun hedge => ?_, fun heq => ?_⟩
      · rcases hedge with ⟨rfl, rfl, -⟩ | ⟨hlt, -⟩
        · rfl
        · exact absurd hlt (Nat.lt_irrefl _)
      · obtain ⟨htext, hc⟩ := extend_injective heq hne
        exact .inl ⟨(h.injective hs hu htext).symm, hc.symm, rfl⟩
    · -- no state stands for a text that goes on from that of the new one
      rw [hnew, hold ht]
      refine ⟨fun hedge => ?_, fun heq => ?_⟩
      · rcases hedge with ⟨rfl, -⟩ | ⟨-, old, hgone, -⟩
        · exact absurd hs (Nat.lt_irrefl _)
        · exact absurd (state?_isSome_iff.1 (by rw [hgone]; rfl)) (Nat.lt_irrefl _)
      · obtain ⟨v, hv, heq⟩ := h.closed ht heq
        exact absurd heq (hfresh v hv)
    · rw [hnew]
      refine ⟨fun hedge => ?_, fun heq => ?_⟩
      · rcases hedge with ⟨rfl, -⟩ | ⟨hlt, -⟩ <;> exact absurd ‹_› (Nat.lt_irrefl _)
      · exact absurd (extend_injective heq hne).1 (hfresh s hs)
  · rcases hcases hu with hu | rfl <;> rcases hcases ht with ht | rfl
    · rw [hold hu, hold ht] at heq
      exact h.injective hu ht heq
    · rw [hold hu, hnew] at heq
      exact absurd heq (hfresh u hu)
    · rw [hnew, hold ht] at heq
      exact absurd heq.symm (hfresh t ht)
    · rfl
  · rcases hcases ht with ht | rfl
    · rw [hold ht] at heq
      obtain ⟨u, hu, hw⟩ := h.closed ht heq
      exact ⟨u, hlt hu, (hold hu).trans hw⟩
    · rw [hnew] at heq
      exact ⟨s, hlt hs, (hold hs).trans (extend_injective heq hne).1⟩
  · rcases hcases ht with ht | rfl
    · rw [hold ht]
      exact h.known ht
    · rwa [hnew]
  · rcases hcases ht with ht | rfl
    · rw [hold ht, accepting?_sprout hs c ht, h.accepting ht]
    · rw [hnew, accepting?_sprout_size hs]
      cases hkind : kind (extend (text s) c) with
      | none => rfl
      | some k =>
        obtain ⟨t, ht, htext⟩ := h.exists_of_kind (w := extend (text s) c) (by simp [hkind])
        exact absurd htext (hfresh t ht)
  · obtain ⟨t, ht, htext⟩ := h.exists_of_kind hw
    exact ⟨t, hlt ht, (hold ht).trans htext⟩

/-- What is followed is the state of the longer text. -/
theorem follow (h : Spells a known kind text) (htidy : Tidy a) (hs : s < a.size) (c : Char)
    (hblank : (kind [' ']).isSome) (hknown : known (extend (text s) c)) :
    ∃ text', Spells ((follow s c).run a).2 known kind text' ∧
      ((follow s c).run a).1 < ((follow s c).run a).2.size ∧
      text' ((follow s c).run a).1 = extend (text s) c := by
  obtain ⟨state, hstate⟩ := Option.isSome_iff_exists.1 (state?_isSome_iff.2 hs)
  rw [run_follow, hstate, Option.bind_some]
  cases hedge : state.edge? c with
  | some next =>
    have hlt := edge_lt htidy hstate hedge
    exact ⟨text, h, hlt, (h.edge_iff hstate hlt).1 hedge⟩
  | none =>
    have hnone : ∀ st, a.state? s = some st → st.edge? c = none := fun st hst => by
      rw [← Option.some.inj (hstate.symm.trans hst), hedge]
    exact ⟨_, h.sprout htidy hs hblank hknown hnone, by simp, if_pos rfl⟩

/-- A text is followed to the state that stands for it. -/
theorem follow_all (h : Spells a known kind text) (htidy : Tidy a) (hs : s < a.size)
    (hblank : (kind [' ']).isSome) (cs : List Char)
    (hknown : ∀ ds, ds <+: cs → known (ds.foldl extend (text s))) :
    ∃ text', Tidy ((cs.foldlM Builder.follow s).run a).2 ∧
      Spells ((cs.foldlM Builder.follow s).run a).2 known kind text' ∧
      ((cs.foldlM Builder.follow s).run a).1 < ((cs.foldlM Builder.follow s).run a).2.size ∧
      text' ((cs.foldlM Builder.follow s).run a).1 = cs.foldl extend (text s) := by
  induction cs generalizing a s text with
  | nil => exact ⟨text, htidy, h, hs, rfl⟩
  | cons c cs ih =>
    obtain ⟨text₁, h₁, hs₁, htext₁⟩ := h.follow htidy hs c hblank (hknown [c] ⟨cs, rfl⟩)
    have htidy₁ := Tidy.follow s c a htidy
    obtain ⟨text₂, htidy₂, h₂, hs₂, htext₂⟩ := ih h₁ htidy₁ hs₁ fun ds hds => by
      rw [htext₁]
      exact hknown (c :: ds) (List.cons_prefix_cons.2 ⟨rfl, hds⟩)
    exact ⟨text₂, htidy₂, h₂, hs₂, htext₂.trans (by rw [htext₁]; rfl)⟩

theorem setAccepting (h : Spells a known kind text) (hs : s < a.size) (k : TokenKind) :
    Spells (a.setAccepting s k) known (fun w => if w = text s then some k else kind w) text := by
  have hsize : (a.setAccepting s k).size = a.size := size_update ..
  have hstates : ∀ t, (a.setAccepting s k).state? t =
      if s = t then (a.state? t).map fun u => { u with accepting := some k } else a.state? t :=
    fun t => state?_update ..
  refine ⟨h.text_root, fun {u t d state} hstate ht => ?_, fun hu ht => ?_, fun ht heq => ?_,
    fun ht => ?_, fun {t} ht => ?_, fun {w} hw => ?_⟩
  · rw [hsize] at ht
    rw [hstates] at hstate
    split at hstate
    · obtain ⟨old, hold, rfl⟩ := Option.map_eq_some_iff.1 hstate
      change old.edge? d = some t ↔ _
      exact h.edge_iff hold ht
    · exact h.edge_iff hstate ht
  · rw [hsize] at hu ht
    exact h.injective hu ht
  · rw [hsize] at ht ⊢
    exact h.closed ht heq
  · rw [hsize] at ht
    exact h.known ht
  · rw [hsize] at ht
    rw [accepting?, hstates]
    by_cases hst : s = t
    · subst hst
      obtain ⟨state, hstate⟩ := Option.isSome_iff_exists.1 (state?_isSome_iff.2 hs)
      simp [hstate]
    · have hne : text t ≠ text s := fun heq => hst (h.injective ht hs heq).symm
      rw [if_neg hst, if_neg hne]
      exact h.accepting ht
  · rw [hsize]
    by_cases hws : w = text s
    · exact ⟨s, hs, hws.symm⟩
    · rw [if_neg hws] at hw
      exact h.exists_of_kind hw

/-- A text leads to the state that stands for it, and to no other. -/
theorem walkFrom_eq_some (h : Spells a known kind text) (htidy : Tidy a) (hmute : Mute a)
    {w : List Char} : a.walkFrom root w = some s ↔ s < a.size ∧ text s = squeeze w := by
  induction w using List.reverseRecOn generalizing s with
  | nil =>
    rw [walkFrom_nil, squeeze_nil, Option.some.injEq]
    constructor
    · rintro rfl
      exact ⟨a.root_lt_size, h.text_root⟩
    · rintro ⟨hs, htext⟩
      exact h.injective a.root_lt_size hs (h.text_root.trans htext.symm)
  | append_singleton w c ih =>
    have hstep : ∀ {u}, u < a.size → text u = squeeze w →
        (a.transition u c = some s ↔ s < a.size ∧ text s = squeeze (w ++ [c])) := by
      intro u hu htext
      obtain ⟨state, hstate⟩ := Option.isSome_iff_exists.1 (state?_isSome_iff.2 hu)
      have hedge : a.transition u c = state.edge? c := by
        rw [transition, hstate, Option.bind_some, (hmute u state hstate).1,
          Option.orElse_eq_orElse, Option.orElse_eq_or, Option.or_none]
      rw [hedge, squeeze_concat, ← htext]
      refine ⟨fun hsome => ?_, fun hs => (h.edge_iff hstate hs.1).2 hs.2⟩
      have hs := edge_lt htidy hstate hsome
      exact ⟨hs, (h.edge_iff hstate hs).1 hsome⟩
    rw [walkFrom_append, Option.bind_eq_some_iff]
    constructor
    · rintro ⟨u, hu, hlast⟩
      obtain ⟨hu, htext⟩ := ih.1 hu
      exact (hstep hu htext).1 (by simpa using hlast)
    · rintro ⟨hs, htext⟩
      obtain ⟨u, hu, hw⟩ := h.closed hs (htext.trans (squeeze_concat w c))
      exact ⟨u, ih.2 ⟨hu, hw⟩, by simpa using (hstep hu hw).2 ⟨hs, htext⟩⟩

end Spells

/-! ## The signs of a vocabulary -/

/-- The sign of `ps` that is spelled so, but for blanks in front. The last one counts. -/
def signOfText? (v : Vocabulary) (ps : List Punctuator) (w : List Char) : Option Punctuator :=
  ps.reverse.find? fun p => squeeze (v.punctuatorSpelling p).toList = w

/-- The kind of token that a text makes, if only whitespace and the signs `ps` are known. -/
def signKind? (v : Vocabulary) (ps : List Punctuator) (w : List Char) : Option TokenKind :=
  ((signOfText? v ps w).map .punctuator).or (if w = [' '] then some .whitespace else none)

/-- Whitespace, a comment or some sign begins so. -/
def IsBegun (v : Vocabulary) (w : List Char) : Prop :=
  w = [] ∨ w = [' '] ∨ w = ['/'] ∨
    ∃ p cs, cs <+: (v.punctuatorSpelling p).toList ∧ w = squeeze cs

theorem signKind?_concat (v : Vocabulary) (ps : List Punctuator) (p : Punctuator) (w : List Char) :
    signKind? v (ps ++ [p]) w =
      if w = squeeze (v.punctuatorSpelling p).toList then some (.punctuator p)
      else signKind? v ps w := by
  rw [signKind?, signOfText?, List.reverse_append, List.reverse_singleton, List.singleton_append,
    List.find?_cons]
  by_cases hw : w = squeeze (v.punctuatorSpelling p).toList
  · simp [hw]
  · simp [hw, Ne.symm hw, signKind?, signOfText?]

theorem isSome_signKind?_blank (v : Vocabulary) (ps : List Punctuator) :
    (signKind? v ps [' ']).isSome := by
  simp [signKind?]

/-- Whitespace alone: the root, and one state for all runs of blanks. -/
theorem spells_whitespace (v : Vocabulary) : Spells (Builder.whitespace.run initial).2 (IsBegun v)
    (signKind? v []) fun s => if s = root then [] else [' '] := by
  have hsize : (Builder.whitespace.run initial).2.size = 2 := rfl
  have hroot : (Builder.whitespace.run initial).2.state? 0 = some ⟨edgesTo blanks 1, none, none⟩ := rfl
  have hrun : (Builder.whitespace.run initial).2.state? 1 =
      some ⟨edgesTo blanks 1, none, some .whitespace⟩ := rfl
  have hcases : ∀ {s}, s < (Builder.whitespace.run initial).2.size → s = 0 ∨ s = 1 := by
    intro s hs
    rw [hsize] at hs
    omega
  have hlookup : ∀ c, (edgesTo blanks 1).lookup c = if isBlank c then some 1 else none := by
    intro c
    have h := lookup_edgesTo_append blanks 1 c []
    rw [List.append_nil] at h
    simp only [h, mem_blanks]
    rfl
  refine ⟨rfl, fun {s t c state} hstate ht => ?_, fun {s t} hs ht heq => ?_, fun {t w c} ht heq => ?_,
    fun {s} hs => ?_, fun {s} hs => ?_, fun {w} hw => ?_⟩
  · have hs : s < (Builder.whitespace.run initial).2.size := state?_isSome_iff.1 (by rw [hstate]; rfl)
    have hedges : state.edge? c = if isBlank c then some 1 else none := by
      rw [← hlookup]
      rcases hcases hs with rfl | rfl
      · rw [← Option.some.inj (hroot.symm.trans hstate)]
        rfl
      · rw [← Option.some.inj (hrun.symm.trans hstate)]
        rfl
    rw [hedges]
    rcases hcases hs with rfl | rfl <;> rcases hcases ht with rfl | rfl <;>
      by_cases hc : isBlank c <;> simp [hc, extend, root]
    rintro rfl
    simp [isBlank] at hc
  · rcases hcases hs with rfl | rfl <;> rcases hcases ht with rfl | rfl <;> simp_all [root]
  · rcases hcases ht with rfl | rfl
    · exact absurd heq.symm (extend_ne_nil w c)
    · have heq : [' '] = extend w c := heq
      have hw : w = [] ∨ w = [' '] := by
        unfold extend at heq
        split at heq
        · next h => exact h.2
        · exact .inl (by simpa using congrArg List.length heq.symm)
      rcases hw with rfl | rfl
      · exact ⟨0, by rw [hsize]; decide, rfl⟩
      · exact ⟨1, by rw [hsize]; decide, rfl⟩
  · rcases hcases hs with rfl | rfl <;> simp [IsBegun, root]
  · rcases hcases hs with rfl | rfl
    · rfl
    · rfl
  · refine ⟨1, by rw [hsize]; decide, ?_⟩
    by_contra hne
    simp [signKind?, signOfText?, root] at hw hne
    exact hne hw.symm

theorem punctuator_spells {v : Vocabulary} {ps : List Punctuator} {text : StateId → List Char}
    (h : Spells a (IsBegun v) (signKind? v ps) text) (htidy : Tidy a) (p : Punctuator) :
    ∃ text', Tidy ((punctuator (v.punctuatorSpelling p).toList p).run a).2 ∧
      Spells ((punctuator (v.punctuatorSpelling p).toList p).run a).2 (IsBegun v)
        (signKind? v (ps ++ [p])) text' := by
  obtain ⟨text', htidy', h', hs, htext⟩ := h.follow_all htidy a.root_lt_size
    (isSome_signKind?_blank v ps) (v.punctuatorSpelling p).toList fun ds hds => by
      rw [h.text_root, ← squeeze_eq_foldl]
      exact .inr (.inr (.inr ⟨p, ds, hds, rfl⟩))
  rw [h.text_root, ← squeeze_eq_foldl] at htext
  refine ⟨text', htidy'.update _ fun _ _ he => .inl he, ?_⟩
  have hkind : signKind? v (ps ++ [p]) = fun w =>
      if w = text' (((v.punctuatorSpelling p).toList.foldlM Builder.follow root).run a).1 then
        some (.punctuator p) else signKind? v ps w := by
    funext w
    rw [signKind?_concat, htext]
  rw [hkind]
  exact h'.setAccepting hs (.punctuator p)

theorem punctuators_spell {v : Vocabulary} (qs : List Punctuator) {ps : List Punctuator}
    {text : StateId → List Char} (h : Spells a (IsBegun v) (signKind? v ps) text) (htidy : Tidy a) :
    ∃ text', Tidy ((qs.forM fun p => punctuator (v.punctuatorSpelling p).toList p).run a).2 ∧
      Spells ((qs.forM fun p => punctuator (v.punctuatorSpelling p).toList p).run a).2 (IsBegun v)
        (signKind? v (ps ++ qs)) text' := by
  induction qs generalizing a ps text with
  | nil => exact ⟨text, htidy, (List.append_nil ps).symm ▸ h⟩
  | cons q qs ih =>
    obtain ⟨text₁, htidy₁, h₁⟩ := punctuator_spells h htidy q
    obtain ⟨text₂, htidy₂, h₂⟩ := ih h₁ htidy₁
    rw [List.append_assoc] at h₂
    exact ⟨text₂, htidy₂, h₂⟩

/-- Whitespace and the signs of any vocabulary are a trie, and so they are with the state of `/`. -/
theorem exists_spells (v : Vocabulary) : ∃ text,
    Spells (base v) (IsBegun v) (signKind? v Punctuator.all) text ∧ text (slash v) = ['/'] := by
  have htidy := Tidy.whitespace _ .initial
  obtain ⟨text, htidy, h⟩ := punctuators_spell Punctuator.all (spells_whitespace v) htidy
  obtain ⟨text', h', -, htext⟩ := h.follow htidy (root_lt_size _) '/' (isSome_signKind?_blank v _)
    (by rw [h.text_root]; exact .inr (.inr (.inl rfl)))
  rw [h.text_root] at htext
  simp only [base, slash, foundation, punctuators, run_bind]
  exact ⟨text', h', htext⟩

end Sable.Automaton
