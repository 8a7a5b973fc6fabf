import Mathlib.Tactic.Common
import Sable.Proofs.Automaton.Building
import Sable.Proofs.Automaton.Parts

/-!
# The layers of a vocabulary's automaton

Whatever the vocabulary, comments, identifiers, numbers and quoted literals are parts of their own.
They are entered from the root, comments from the state of `/`, and nothing that is built later
changes their states.

## Main definitions

* `Automaton.Comment.part`, `Word.part`, `Numeric.part`, `Quoted.part`: the transition tables.
* `Automaton.Builder.Lays`: a step of a construction adds a part behind one state.
* `Automaton.Layers`: the parts in the automaton of a vocabulary, and the ways into them.

## Main statements

* `Automaton.exists_layers`: the automaton of each vocabulary has these layers.
-/
namespace Sable.Automaton

open Builder (blanks digits letters escapes)

/-! ## The tables -/

inductive Comment
  | line | lineEnd | block | star | close

namespace Comment

/-- A line comment ends in a state that is not accepted, in front of the end of the line. -/
def part : Part Comment
  | .line =>
    { edges := [(['\r', '\n'], .lineEnd)], otherwise := some .line,
      accepting := some .singleLineComment }
  | .lineEnd => {}
  | .block => { edges := [(['*'], .star)], otherwise := some .block }
  | .star => { edges := [(['/'], .close), (['*'], .star)], otherwise := some .block }
  | .close => { accepting := some .multiLineComment }

/-- States are numbered in the order of their creation. -/
def index : Comment → Nat
  | .line => 0 | .lineEnd => 1 | .block => 2 | .star => 3 | .close => 4

end Comment

inductive Word
  | word

namespace Word

def part : Part Word
  | .word =>
    { edges := [(digits ++ ['_'], .word), (letters, .word)], accepting := some .identifier }

def index : Word → Nat
  | .word => 0

end Word

/-- The places within a number: behind its integer digits, its point, the digits of its fraction,
the mark of its exponent, the sign of that, its digits, and the letter at the end. -/
inductive Numeric
  | integer | point | fraction | mark | sign | exponent | suffix

namespace Numeric

def part : Part Numeric
  | .integer =>
    { edges := [(['.'], .point), (digits, .integer)], accepting := some .integerLiteral }
  | .point => { edges := [(digits, .fraction)] }
  | .fraction =>
    { edges := [(['f'], .suffix), (['e', 'E'], .mark), (digits, .fraction)],
      accepting := some .floatLiteral }
  | .mark => { edges := [(digits, .exponent), (['+', '-'], .sign)] }
  | .sign => { edges := [(digits, .exponent)] }
  | .exponent =>
    { edges := [(['f'], .suffix), (digits, .exponent)], accepting := some .floatLiteral }
  | .suffix => { accepting := some .floatLiteral }

def index : Numeric → Nat
  | .integer => 0 | .point => 1 | .fraction => 2 | .mark => 3 | .sign => 4 | .exponent => 5
  | .suffix => 6

end Numeric

inductive Quoted
  | body | close | escape

namespace Quoted

def part (quote : Char) (kind : TokenKind) : Part Quoted
  | .body =>
    { edges := [(['\\'], .escape), ([quote], .close)], otherwise := some .body }
  | .close => { accepting := some kind }
  | .escape => { edges := [(escapes, .body)] }

def index : Quoted → Nat
  | .body => 0 | .close => 1 | .escape => 2

end Quoted

/-! ## What each step lays -/

/-- The states of a part are numbered one by one, behind those that an automaton has. -/
@[simp] def behind (a : Automaton) (index : σ → Nat) (s : σ) : StateId := a.size + index s

namespace Builder

variable {a : Automaton}

theorem run_bind {α β : Type} (step : Builder α) (next : α → Builder β) :
    (step >>= next).run a = (next (step.run a).1).run (step.run a).2 := rfl

theorem run_newState (accepting : Option TokenKind) :
    (newState accepting).run a = (a.size, a.addState accepting) := rfl

theorem run_edges (source target : StateId) (cs : List Char) :
    (edges source cs target).run a = ((), a.addEdges source cs target) := rfl

theorem run_otherwise (source target : StateId) :
    (otherwise source target).run a = ((), a.setOtherwise source target) := rfl

/-- The step puts `part` behind the states that are there. Of these it changes the one in front of
the part, and no other. -/
structure Lays {σ : Type} (step : Builder Unit) (part : Part σ) (index : σ → Nat) (door : StateId)
    (enter : (σ → StateId) → AutomatonState → AutomatonState) (a : Automaton) : Prop where
  within : part.Within (step.run a).2 (behind a index)
  old : ∀ s < a.size, (step.run a).2.state? s =
    if door = s then (a.state? s).map (enter (behind a index)) else a.state? s

namespace Lays

variable {step : Builder Unit} {part : Part σ} {index : σ → Nat} {door : StateId}
  {enter : (σ → StateId) → AutomatonState → AutomatonState}

theorem state?_door (h : Lays step part index door enter a) (hdoor : door < a.size) :
    (step.run a).2.state? door = (a.state? door).map (enter (behind a index)) := by
  rw [h.old door hdoor, if_pos rfl]

theorem state?_of_ne (h : Lays step part index door enter a) {s : StateId} (hs : s < a.size)
    (hne : s ≠ door) : (step.run a).2.state? s = a.state? s := by
  rw [h.old s hs, if_neg (Ne.symm hne)]

theorem lt_size (h : Lays step part index door enter a) {s : StateId} (hs : s < a.size) :
    s < (step.run a).2.size := by
  rw [← state?_isSome_iff, h.old s hs]
  split <;> simpa using state?_isSome_iff.2 hs

/-- A step leaves the parts alone that are there. -/
theorem within_of_ne {τ : Type} {there : Part τ} {place : τ → StateId}
    (h : Lays step part index door enter a) (hthere : there.Within a place)
    (hne : ∀ s, place s ≠ door) : there.Within (step.run a).2 place :=
  hthere.of_state?_eq fun s => h.state?_of_ne (hthere.lt_size s) (hne s)

end Lays

theorem ne_size {s : StateId} (h : s < a.size) : s ≠ a.size := Nat.ne_of_lt h

theorem ne_size_add {s : StateId} (h : s < a.size) (k : Nat) : s ≠ a.size + k :=
  Nat.ne_of_lt (Nat.lt_add_right k h)

/-- Comments behind the state of `/`. -/
def commentsFrom (slash : StateId) : Builder Unit := do
  let line ← newState (some .singleLineComment)
  edges slash ['/'] line
  otherwise line line
  let lineEnd ← newState none
  edges line ['\r', '\n'] lineEnd
  let block ← newState none
  edges slash ['*'] block
  otherwise block block
  let star ← newState none
  edges block ['*'] star
  edges star ['*'] star
  otherwise star block
  let close ← newState (some .multiLineComment)
  edges star ['/'] close

theorem comments_eq : comments = follow root '/' >>= commentsFrom := rfl

theorem lays_comments {slash : StateId} (hslash : slash < a.size) :
    Lays (commentsFrom slash) Comment.part Comment.index slash
      (fun place s =>
        { s with edges := edgesTo ['*'] (place .block) ++ (edgesTo ['/'] (place .line) ++ s.edges) }) a where
  within s := by
    simp only [commentsFrom, run_bind, run_newState, run_edges, run_otherwise]
    cases s <;>
      simp [ne_size hslash, ne_size_add hslash, Comment.part, PartState.at, Comment.index, Nat.add_assoc]
  old s hs := by
    simp only [commentsFrom, run_bind, run_newState, run_edges, run_otherwise]
    simp [ne_size hs, (ne_size hs).symm, ne_size_add hs, (ne_size_add hs _).symm, Comment.index, Nat.add_assoc]
    split <;> simp [Function.comp_def]

theorem lays_identifiers :
    Lays identifiers Word.part Word.index root
      (fun place s => { s with otherwise := some (place .word) }) a where
  within s := by
    simp only [identifiers, run_bind, run_newState, run_edges, run_otherwise]
    cases s
    simp [ne_size a.root_lt_size, Word.part, PartState.at, Word.index]
  old s hs := by
    simp only [identifiers, run_bind, run_newState, run_edges, run_otherwise]
    simp [ne_size hs, (ne_size hs).symm, Word.index]

theorem lays_numbers :
    Lays numbers Numeric.part Numeric.index root
      (fun place s => { s with edges := edgesTo digits (place .integer) ++ s.edges }) a where
  within s := by
    simp only [numbers, run_bind, run_newState, run_edges]
    cases s <;>
      simp [ne_size a.root_lt_size, Numeric.part, PartState.at, Numeric.index, Nat.add_assoc]
  old s hs := by
    simp only [numbers, run_bind, run_newState, run_edges]
    simp [ne_size hs, (ne_size hs).symm, ne_size_add hs, (ne_size_add hs _).symm, Numeric.index, Nat.add_assoc]

theorem lays_quoted (quote : Char) (kind : TokenKind) :
    Lays (quoted quote kind) (Quoted.part quote kind) Quoted.index root
      (fun place s => { s with edges := edgesTo [quote] (place .body) ++ s.edges }) a where
  within s := by
    simp only [quoted, run_bind, run_newState, run_edges, run_otherwise]
    cases s <;>
      simp [ne_size a.root_lt_size, Quoted.part, PartState.at, Quoted.index, Nat.add_assoc]
  old s hs := by
    simp only [quoted, run_bind, run_newState, run_edges, run_otherwise]
    simp [ne_size hs, (ne_size hs).symm, ne_size_add hs, (ne_size_add hs _).symm, Quoted.index, Nat.add_assoc]

/-! ## What the parts are laid on -/

/-- Whitespace and punctuators, and the state of `/`. -/
def foundation (v : Vocabulary) : Builder StateId := do
  whitespace
  punctuators v
  follow root '/'

theorem language_eq (v : Vocabulary) :
    language v = foundation v >>= fun slash => commentsFrom slash >>= fun _ => identifiers >>=
      fun _ => numbers >>= fun _ => quoted '\'' .characterLiteral >>=
      fun _ => quoted '"' .stringLiteral := by
  simp only [language, foundation, comments_eq, bind_assoc]

/-- Edges lead to states that are there, and never back to the root. -/
def Tidy (a : Automaton) : Prop :=
  ∀ s state, a.state? s = some state → ∀ e ∈ state.edges, root < e.2 ∧ e.2 < a.size

namespace Tidy

theorem initial : Tidy .initial := by
  intro s state h
  cases s with
  | zero => simp [← show ({} : AutomatonState) = state by simpa [state?, Automaton.initial] using h]
  | succ s => simp [state?, Automaton.initial] at h

theorem addState (h : Tidy a) (accepting : Option TokenKind) : Tidy (a.addState accepting) := by
  intro s state hs e he
  rw [state?_addState] at hs
  split at hs
  · obtain rfl := Option.some.inj hs
    simp at he
  · rw [size_addState]
    exact ⟨(h s state hs e he).1, Nat.lt_succ_of_lt (h s state hs e he).2⟩

theorem update (h : Tidy a) (s : StateId) {f : AutomatonState → AutomatonState}
    (hf : ∀ state, ∀ e ∈ (f state).edges, e ∈ state.edges ∨ root < e.2 ∧ e.2 < a.size) :
    Tidy (a.update s f) := by
  intro t state ht e he
  rw [size_update]
  rw [state?_update] at ht
  split at ht
  · obtain ⟨state, hstate, rfl⟩ := Option.map_eq_some_iff.1 ht
    exact (hf state e he).elim (h t state hstate e) id
  · exact h t state ht e he

theorem addEdges (h : Tidy a) (s : StateId) (cs : List Char) {t : StateId}
    (ht : root < t ∧ t < a.size) : Tidy (a.addEdges s cs t) := by
  refine h.update s fun state e he => ?_
  rw [foldl_edges, List.mem_append] at he
  refine he.symm.imp_right fun he => ?_
  obtain ⟨c, -, rfl⟩ := List.mem_map.1 (List.mem_reverse.1 he)
  exact ht

theorem shareEdges (h : Tidy a) (s t : StateId) : Tidy (a.shareEdges s t) := by
  unfold Automaton.shareEdges
  split
  · next state hstate => exact h.update t fun _ e he => .inr (h s state hstate e he)
  · exact h

theorem whitespace : Keeps Tidy whitespace := by
  intro a h
  have hshare : Keeps Tidy (modify fun b => b.shareEdges root a.size : Builder Unit) :=
    Keeps.modify fun _ hb => hb.shareEdges root a.size
  simp only [Builder.whitespace, run_bind, run_newState, run_edges]
  exact hshare _ ((h.addState _).addEdges _ _ ⟨a.root_lt_size, by simp⟩)

end Tidy

theorem run_follow (s : StateId) (c : Char) :
    (follow s c).run a = match (a.state? s).bind (·.edge? c) with
      | some next => (next, a)
      | none => (a.size, (a.addState none).addEdges s [c] a.size) := by
  simp only [follow, run_bind]
  change StateT.run (match (a.state? s).bind (·.edge? c) with | some next => _ | none => _) a = _
  split <;> rfl

/-- What is followed is an edge afterwards. -/
theorem follow_spec (h : Tidy a) {s : StateId} (hs : s < a.size) (c : Char) :
    Tidy ((follow s c).run a).2 ∧ root < ((follow s c).run a).1 ∧
      ((follow s c).run a).1 < ((follow s c).run a).2.size ∧
      ∃ state, ((follow s c).run a).2.state? s = some state ∧
        state.edge? c = some ((follow s c).run a).1 := by
  obtain ⟨state, hstate⟩ := Option.isSome_iff_exists.1 (state?_isSome_iff.2 hs)
  rw [run_follow, hstate, Option.bind_some]
  cases hedge : state.edge? c with
  | some next =>
    obtain ⟨l, r, hmem, -⟩ := List.lookup_eq_some_iff.1 hedge
    obtain ⟨hroot, hlt⟩ := h s state hstate (c, next) (by simp [hmem])
    exact ⟨h, hroot, hlt, state, hstate, hedge⟩
  | none =>
    refine ⟨(h.addState none).addEdges _ _ ⟨a.root_lt_size, by simp⟩, a.root_lt_size, by simp, ?_⟩
    refine ⟨{ state with edges := (c, a.size) :: state.edges }, ?_, ?_⟩
    · simp [ne_size hs, hstate, edgesTo]
    · simp [AutomatonState.edge?]

theorem Tidy.follow (s : StateId) (c : Char) : Keeps Tidy (follow s c) := by
  intro a h
  by_cases hs : s < a.size
  · exact (follow_spec h hs c).1
  · rw [run_follow]
    split
    · exact h
    · exact (h.addState none).addEdges _ _ ⟨a.root_lt_size, by simp⟩

theorem Tidy.punctuators (v : Vocabulary) : Keeps Tidy (punctuators v) :=
  Keeps.forM fun _ => (Keeps.foldlM fun _ _ => Tidy.follow _ _).bind fun _ =>
    Keeps.modify fun _ h => h.update _ fun _ _ he => .inl he

end Builder

/-! ## The automaton of a vocabulary -/

/-- Whitespace and punctuators alone. -/
def base (v : Vocabulary) : Automaton := ((Builder.foundation v).run initial).2

/-- The state of `/`. -/
def slash (v : Vocabulary) : StateId := ((Builder.foundation v).run initial).1

theorem base_spec (v : Vocabulary) : root < slash v ∧ slash v < (base v).size ∧
    ∃ state, (base v).state? root = some state ∧ state.edge? '/' = some (slash v) := by
  have htidy := Builder.Tidy.punctuators v _ (Builder.Tidy.whitespace _ .initial)
  simp only [base, slash, Builder.foundation, Builder.run_bind]
  exact (Builder.follow_spec htidy (root_lt_size _) '/').2

/-- The parts of the automaton of `v`, and the ways into them. -/
structure Layers (v : Vocabulary) (a : Automaton) where
  comment : Comment → StateId
  word : Word → StateId
  numeric : Numeric → StateId
  character : Quoted → StateId
  string : Quoted → StateId
  comment_within : Comment.part.Within a comment
  word_within : Word.part.Within a word
  numeric_within : Numeric.part.Within a numeric
  character_within : (Quoted.part '\'' .characterLiteral).Within a character
  string_within : (Quoted.part '"' .stringLiteral).Within a string
  state?_root : a.state? root = ((base v).state? root).map fun s =>
    { s with
      edges := edgesTo ['"'] (string .body) ++ (edgesTo ['\''] (character .body) ++
        (edgesTo digits (numeric .integer) ++ s.edges))
      otherwise := some (word .word) }
  state?_slash : a.state? (slash v) = ((base v).state? (slash v)).map fun s =>
    { s with edges := edgesTo ['*'] (comment .block) ++ (edgesTo ['/'] (comment .line) ++ s.edges) }
  state?_base : ∀ s < (base v).size, s ≠ root → s ≠ slash v → a.state? s = (base v).state? s

namespace Layers

variable {v : Vocabulary} {a : Automaton} (l : Layers v a)

include l

/-- The root, with the edges that are laid over those of the punctuators. -/
theorem exists_root : ∃ r state : AutomatonState, (base v).state? root = some state ∧
    state.edge? '/' = some (slash v) ∧ a.state? root = some r ∧
    r.otherwise = some (l.word .word) ∧
    ∀ c, r.edge? c = if c = '"' then some (l.string .body) else
      if c = '\'' then some (l.character .body) else
      if c ∈ digits then some (l.numeric .integer) else state.edge? c := by
  obtain ⟨-, -, state, hstate, hedge⟩ := base_spec v
  refine ⟨_, state, hstate, hedge, by rw [l.state?_root, hstate]; rfl, rfl, ?_⟩
  intro c
  simp only [AutomatonState.edge?, lookup_edgesTo_append, List.mem_singleton]

theorem transition_digit {c : Char} (hc : c ∈ digits) :
    a.transition root c = some (l.numeric .integer) := by
  obtain ⟨r, state, -, -, hroot, -, hedge⟩ := l.exists_root
  have hquote : c ≠ '"' ∧ c ≠ '\'' := by
    constructor <;> rintro rfl <;> revert hc <;> decide
  rw [transition, hroot, Option.bind_some, hedge, if_neg hquote.1, if_neg hquote.2, if_pos hc]
  rfl

theorem transition_apostrophe : a.transition root '\'' = some (l.character .body) := by
  obtain ⟨r, state, -, -, hroot, -, hedge⟩ := l.exists_root
  rw [transition, hroot, Option.bind_some, hedge, if_neg (by decide), if_pos rfl]
  rfl

theorem transition_quote : a.transition root '"' = some (l.string .body) := by
  obtain ⟨r, state, -, -, hroot, -, hedge⟩ := l.exists_root
  rw [transition, hroot, Option.bind_some, hedge, if_pos rfl]
  rfl

theorem transition_slash : a.transition root '/' = some (slash v) := by
  obtain ⟨r, state, -, hslash, hroot, -, hedge⟩ := l.exists_root
  rw [transition, hroot, Option.bind_some, hedge, if_neg (by decide), if_neg (by decide),
    if_neg (by decide), hslash]
  rfl

/-- A character without an edge begins a word. -/
theorem transition_of_edge?_eq_none {r : AutomatonState} (hr : a.state? root = some r) {c : Char}
    (hc : r.edge? c = none) : a.transition root c = some (l.word .word) := by
  obtain ⟨r', state, -, -, hroot, hword, -⟩ := l.exists_root
  obtain rfl : r' = r := Option.some.inj (hroot.symm.trans hr)
  rw [transition, hroot, Option.bind_some, hc, hword]
  rfl

theorem transition_slash_slash : a.transition (slash v) '/' = some (l.comment .line) := by
  obtain ⟨-, hlt, -⟩ := base_spec v
  obtain ⟨state, hstate⟩ := Option.isSome_iff_exists.1 (state?_isSome_iff.2 hlt)
  rw [transition, l.state?_slash, hstate, Option.map_some, Option.bind_some, AutomatonState.edge?,
    lookup_edgesTo_append, if_neg (by decide), lookup_edgesTo_append, if_pos (by decide)]
  rfl

theorem transition_slash_star : a.transition (slash v) '*' = some (l.comment .block) := by
  obtain ⟨-, hlt, -⟩ := base_spec v
  obtain ⟨state, hstate⟩ := Option.isSome_iff_exists.1 (state?_isSome_iff.2 hlt)
  rw [transition, l.state?_slash, hstate, Option.map_some, Option.bind_some, AutomatonState.edge?,
    lookup_edgesTo_append, if_pos (by decide)]
  rfl

end Layers

theorem behind_ne_root (a : Automaton) (index : σ → Nat) (s : σ) : behind a index s ≠ root :=
  (Builder.ne_size_add a.root_lt_size (index s)).symm

open Builder in
theorem exists_layers (v : Vocabulary) : Nonempty (Layers v (ofVocabulary v)) := by
  obtain ⟨hslash, hlt, -⟩ := base_spec v
  have hne : slash v ≠ root := hslash.ne'
  -- The automata that the parts are laid on, one after another.
  let a₂ := ((commentsFrom (slash v)).run (base v)).2
  let a₃ := (identifiers.run a₂).2
  let a₄ := (numbers.run a₃).2
  let a₅ := ((quoted '\'' .characterLiteral).run a₄).2
  have hlast : ofVocabulary v = ((quoted '"' .stringLiteral).run a₅).2 := by
    simp only [ofVocabulary, language_eq, run_bind, a₅, a₄, a₃, a₂, base, slash]
  have comments : Lays _ Comment.part _ _ _ (base v) := lays_comments hlt
  have words : Lays identifiers _ _ _ _ a₂ := lays_identifiers
  have numbers : Lays numbers _ _ _ _ a₃ := lays_numbers
  have characters := lays_quoted (a := a₄) '\'' .characterLiteral
  have strings := lays_quoted (a := a₅) '"' .stringLiteral
  have hold : ∀ s < (base v).size, s < a₂.size ∧ s < a₃.size ∧ s < a₄.size ∧ s < a₅.size := by
    intro s hs
    have h₂ := comments.lt_size hs
    have h₃ := words.lt_size h₂
    have h₄ := numbers.lt_size h₃
    exact ⟨h₂, h₃, h₄, characters.lt_size h₄⟩
  have hkeep : ∀ s < (base v).size, s ≠ root → (ofVocabulary v).state? s = a₂.state? s := by
    intro s hs hs'
    obtain ⟨h₂, h₃, h₄, h₅⟩ := hold s hs
    rw [hlast, strings.state?_of_ne h₅ hs', characters.state?_of_ne h₄ hs',
      numbers.state?_of_ne h₃ hs', words.state?_of_ne h₂ hs']
  refine ⟨{
    comment := behind (base v) Comment.index
    word := behind a₂ Word.index
    numeric := behind a₃ Numeric.index
    character := behind a₄ Quoted.index
    string := behind a₅ Quoted.index
    comment_within := ?_
    word_within := ?_
    numeric_within := ?_
    character_within := ?_
    string_within := ?_
    state?_root := ?_
    state?_slash := ?_
    state?_base := ?_ }⟩
  · rw [hlast]
    exact strings.within_of_ne (characters.within_of_ne (numbers.within_of_ne
      (words.within_of_ne comments.within (behind_ne_root _ _)) (behind_ne_root _ _))
      (behind_ne_root _ _)) (behind_ne_root _ _)
  · rw [hlast]
    exact strings.within_of_ne (characters.within_of_ne (numbers.within_of_ne words.within
      (behind_ne_root _ _)) (behind_ne_root _ _)) (behind_ne_root _ _)
  · rw [hlast]
    exact strings.within_of_ne (characters.within_of_ne numbers.within (behind_ne_root _ _))
      (behind_ne_root _ _)
  · rw [hlast]
    exact strings.within_of_ne characters.within (behind_ne_root _ _)
  · rw [hlast]
    exact strings.within
  · obtain ⟨h₂, h₃, h₄, h₅⟩ := hold root (base v).root_lt_size
    rw [hlast, strings.state?_door h₅, characters.state?_door h₄, numbers.state?_door h₃,
      words.state?_door h₂, comments.state?_of_ne (base v).root_lt_size hne.symm]
    simp only [Option.map_map]
    rfl
  · rw [hkeep _ hlt hne, comments.state?_door hlt]
  · intro s hs hs' hs''
    rw [hkeep s hs hs', comments.state?_of_ne hs hs'']

end Sable.Automaton
