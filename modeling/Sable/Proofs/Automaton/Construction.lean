import Mathlib.Logic.Function.Basic
import Sable.Proofs.Automaton.Parts
import Sable.Proofs.Token.Tokenization

/-!
# Reading along a graph

An automaton is constructed by edits of its states. The same edits draw a graph, in which a new edge
for a character takes the place of the old one. What a constructed automaton reads is told by the
walks along this graph, whatever loops and shared edges the graph has, and whether or not the root
accepts.

## Main definitions

* `Automaton.Edit`: a step of a construction.
* `Automaton.Graph`: the edges and the accepted kinds of the states, as functions.
* `Automaton.Graph.Walks`: a text leads to a state, along an edge for each character.
* `Automaton.Graph.Reads`: what is cut off an input, in terms of walks.
* `Automaton.graph`: the graph of an automaton.

## Main statements

* `Automaton.graph_apply`: an edit does the same to an automaton as to its graph.
* `Automaton.reads_graph`: what an automaton reads.
* `Automaton.readToken_construct`: what a constructed automaton reads.
-/
namespace Sable.Automaton

open Text

/-! ## Edits -/

inductive Edit
  | addState (accepting : Option TokenKind)
  | addEdge (source : StateId) (c : Char) (target : StateId)
  | addEdges (source : StateId) (cs : List Char) (target : StateId)
  | setOtherwise (source target : StateId)
  | setAccepting (s : StateId) (kind : TokenKind)
  | shareEdges (source target : StateId)

/-- A graph with the states below `size`. -/
@[ext]
structure Graph where
  size : Nat
  edge : StateId → Char → Option StateId
  otherwise : StateId → Option StateId
  accepting : StateId → Option TokenKind

/-- The root alone. -/
def Graph.initial : Graph where
  size := 1
  edge _ _ := none
  otherwise _ := none
  accepting _ := none

namespace Edit

def apply (a : Automaton) : Edit → Automaton
  | addState accepting => a.addState accepting
  | addEdge source c target => a.addEdge source c target
  | addEdges source cs target => a.addEdges source cs target
  | setOtherwise source target => a.setOtherwise source target
  | setAccepting s kind => a.setAccepting s kind
  | shareEdges source target => a.shareEdges source target

/-- A new edge for a character, a new edge for all others and a new kind take the place of what was
there. Shared edges are copied as they are now. -/
def draw (g : Graph) : Edit → Graph
  | addState accepting =>
    { g with size := g.size + 1, accepting := Function.update g.accepting g.size accepting }
  | addEdge source c target =>
    { g with
      edge := Function.update g.edge source (Function.update (g.edge source) c (some target)) }
  | addEdges source cs target =>
    { g with
      edge := Function.update g.edge source fun c =>
        if c ∈ cs then some target else g.edge source c }
  | setOtherwise source target =>
    { g with otherwise := Function.update g.otherwise source (some target) }
  | setAccepting s kind => { g with accepting := Function.update g.accepting s (some kind) }
  | shareEdges source target => { g with edge := Function.update g.edge target (g.edge source) }

/-- The states that the edit changes, or copies from, are among the first `size` ones. -/
def IsWithin (size : Nat) : Edit → Prop
  | addState _ => True
  | addEdge source _ _ | addEdges source _ _ | setOtherwise source _ => source < size
  | setAccepting s _ => s < size
  | shareEdges source target => source < size ∧ target < size

end Edit

/-- The automaton that some edits construct. -/
def construct (edits : List Edit) : Automaton := edits.foldl Edit.apply initial

namespace Graph

/-- The graph that some edits draw. -/
def construct (edits : List Edit) : Graph := edits.foldl Edit.draw initial

/-- Each edit finds its states. -/
def Allows (g : Graph) : List Edit → Prop
  | [] => True
  | edit :: edits => edit.IsWithin g.size ∧ (edit.draw g).Allows edits

/-! ## Walks -/

/-- The edge for all other characters is taken where there is none for the character. -/
inductive Walks (g : Graph) : List Char → StateId → Prop
  | nil : g.Walks [] root
  | edge {w : List Char} {s t : StateId} {c : Char} (walks : g.Walks w s)
      (edge : g.edge s c = some t) : g.Walks (w ++ [c]) t
  | otherwise {w : List Char} {s t : StateId} {c : Char} (walks : g.Walks w s)
      (edge : g.edge s c = none) (otherwise : g.otherwise s = some t) : g.Walks (w ++ [c]) t

def Accepts (g : Graph) (w : List Char) (kind : TokenKind) : Prop :=
  ∃ s, g.Walks w s ∧ g.accepting s = some kind

/-- What is cut off `cs`: the longest accepted prefix, if some nonempty prefix is accepted, otherwise
the longest one that leads anywhere, and the first character if even that leads nowhere. -/
inductive Reads (g : Graph) (cs : List Char) : Munch → Prop
  | accepted {w : List Char} {kind : TokenKind} (isPrefix : w <+: cs) (nonempty : w ≠ [])
      (accepts : g.Accepts w kind)
      (longest : ∀ w' kind', w' <+: cs → g.Accepts w' kind' → w'.length ≤ w.length) :
      g.Reads cs ⟨kind, byteLength w⟩
  | walked {w : List Char} {s : StateId} (isPrefix : w <+: cs) (nonempty : w ≠ [])
      (rejects : ∀ w' kind, w' <+: cs → w' ≠ [] → ¬g.Accepts w' kind) (walks : g.Walks w s)
      (longest : ∀ w' s', w' <+: cs → g.Walks w' s' → w'.length ≤ w.length) :
      g.Reads cs ⟨.unrecognized, byteLength w⟩
  | stuck {c : Char} (isPrefix : [c] <+: cs) (stuck : ∀ s, ¬g.Walks [c] s) :
      g.Reads cs ⟨.unrecognized, byteLength [c]⟩

end Graph

/-! ## The graph of an automaton -/

def graph (a : Automaton) : Graph where
  size := a.size
  edge s c := (a.state? s).bind (·.edge? c)
  otherwise s := (a.state? s).bind (·.otherwise)
  accepting := a.accepting?

variable {a : Automaton} {w cs : List Char} {s : StateId}

theorem graph_initial : initial.graph = .initial := by
  have hstate : ∀ s, (initial.state? s).getD {} = {} := by
    rintro (_ | s) <;> rfl
  have hnone : ∀ {α : Type} (f : AutomatonState → Option α) (s : StateId), f {} = none →
      (initial.state? s).bind f = none := by
    intro α f s hf
    have h := hstate s
    cases hs : initial.state? s with
    | none => rfl
    | some state => simp_all
  ext1
  · rfl
  · funext s c
    exact hnone _ s rfl
  · funext s
    exact hnone _ s rfl
  · funext s
    exact hnone _ s rfl

theorem graph_update {state : AutomatonState} (hstate : a.state? s = some state)
    (f : AutomatonState → AutomatonState) : (a.update s f).graph =
      { size := a.size
        edge := Function.update a.graph.edge s (f state).edge?
        otherwise := Function.update a.graph.otherwise s (f state).otherwise
        accepting := Function.update a.graph.accepting s (f state).accepting } := by
  have hbind : ∀ {α : Type} (get : AutomatonState → Option α) (t : StateId),
      ((a.update s f).state? t).bind get =
        Function.update (fun t => (a.state? t).bind get) s (get (f state)) t := by
    intro α get t
    rw [state?_update, Function.update_apply]
    by_cases hst : s = t
    · subst hst
      simp [hstate]
    · simp [hst, Ne.symm hst]
  ext1
  · exact size_update ..
  · funext t c
    refine (hbind (·.edge? c) t).trans ?_
    simp only [Function.update_apply, graph]
    split <;> rfl
  · exact funext (hbind (·.otherwise))
  · exact funext (hbind (·.accepting))

/-- The graph keeps what an edit of a state does not change. -/
theorem update_graph_eq_self {state : AutomatonState} (hstate : a.state? s = some state) :
    Function.update a.graph.edge s state.edge? = a.graph.edge ∧
      Function.update a.graph.otherwise s state.otherwise = a.graph.otherwise ∧
      Function.update a.graph.accepting s state.accepting = a.graph.accepting := by
  simp only [Function.update_eq_self_iff]
  refine ⟨funext fun c => ?_, ?_, ?_⟩ <;> simp [graph, accepting?, hstate]

theorem graph_congr {b : Automaton} (hsize : a.size = b.size)
    (hstate : ∀ s, a.state? s = b.state? s) : a.graph = b.graph := by
  ext1
  · exact hsize
  · exact funext fun s => funext fun c => by simp [graph, hstate]
  · exact funext fun s => by simp [graph, hstate]
  · exact funext fun s => by simp [graph, accepting?, hstate]

theorem graph_addState (accepting : Option TokenKind) :
    (a.addState accepting).graph = (Edit.addState accepting).draw a.graph := by
  have hnone : a.state? a.size = none := by simp [state?, size]
  have hbind : ∀ {α : Type} (get : AutomatonState → Option α) (s : StateId),
      ((a.addState accepting).state? s).bind get =
        if s = a.size then get { accepting } else (a.state? s).bind get := by
    intro α get s
    rw [state?_addState]
    split <;> rfl
  ext1
  · exact size_addState accepting
  · funext s c
    refine (hbind (·.edge? c) s).trans ?_
    split
    · next hs => simp [hs, Edit.draw, graph, hnone, AutomatonState.edge?]
    · rfl
  · funext s
    refine (hbind (·.otherwise) s).trans ?_
    split
    · next hs => simp [hs, Edit.draw, graph, hnone]
    · rfl
  · funext s
    exact (hbind (·.accepting) s).trans (Function.update_apply a.graph.accepting a.size accepting s).symm

theorem graph_addEdges (hs : s < a.size) (cs : List Char) (target : StateId) :
    (a.addEdges s cs target).graph = (Edit.addEdges s cs target).draw a.graph := by
  obtain ⟨state, hstate⟩ := Option.isSome_iff_exists.1 (state?_isSome_iff.2 hs)
  obtain ⟨-, hotherwise, haccepting⟩ := update_graph_eq_self hstate
  have hupdate : (a.addEdges s cs target).graph =
      (a.update s fun t => { t with edges := edgesTo cs target ++ t.edges }).graph :=
    graph_congr (by simp) fun t => by rw [state?_addEdges, state?_update]
  have hedge : AutomatonState.edge? { state with edges := edgesTo cs target ++ state.edges } =
      fun c => if c ∈ cs then some target else a.graph.edge s c := by
    funext c
    simp only [AutomatonState.edge?, lookup_edgesTo_append, graph, hstate, Option.bind_some]
  rw [hupdate, graph_update hstate, hedge, hotherwise, haccepting]
  rfl

/-- An edit does the same to an automaton as to its graph. -/
theorem graph_apply {edit : Edit} (h : edit.IsWithin a.size) :
    (edit.apply a).graph = edit.draw a.graph := by
  have hstate : ∀ {s}, s < a.size → ∃ state, a.state? s = some state := fun hs =>
    Option.isSome_iff_exists.1 (state?_isSome_iff.2 hs)
  cases edit with
  | addState accepting => exact graph_addState accepting
  | addEdge source c target =>
    refine (graph_addEdges h [c] target).trans ?_
    have hedge : (fun d => if d ∈ [c] then some target else a.graph.edge source d) =
        Function.update (a.graph.edge source) c (some target) := by
      funext d
      simp [Function.update_apply]
    rw [Edit.draw, Edit.draw, hedge]
  | addEdges source cs target => exact graph_addEdges h cs target
  | setOtherwise source target =>
    obtain ⟨state, hstate⟩ := hstate h
    obtain ⟨hedge, -, haccepting⟩ := update_graph_eq_self hstate
    have hedge : Function.update a.graph.edge source
      (AutomatonState.edge? { state with otherwise := some target }) = a.graph.edge := hedge
    simp only [Edit.apply, Edit.draw, setOtherwise, graph_update hstate, hedge, haccepting]
    rfl
  | setAccepting s kind =>
    obtain ⟨state, hstate⟩ := hstate h
    obtain ⟨hedge, hotherwise, -⟩ := update_graph_eq_self hstate
    have hedge : Function.update a.graph.edge s
      (AutomatonState.edge? { state with accepting := some kind }) = a.graph.edge := hedge
    simp only [Edit.apply, Edit.draw, setAccepting, graph_update hstate, hedge, hotherwise]
    rfl
  | shareEdges source target =>
    obtain ⟨from', hfrom⟩ := hstate h.1
    obtain ⟨state, hstate⟩ := hstate h.2
    obtain ⟨-, hotherwise, haccepting⟩ := update_graph_eq_self hstate
    have hedge : AutomatonState.edge? { state with edges := from'.edges } = a.graph.edge source := by
      funext c
      simp only [AutomatonState.edge?, graph, hfrom, Option.bind_some]
    simp only [Edit.apply, Edit.draw, shareEdges, hfrom, graph_update hstate, hedge, hotherwise,
      haccepting]
    rfl

theorem graph_construct {edits : List Edit} (h : Graph.initial.Allows edits) :
    (construct edits).graph = .construct edits := by
  have hfold : ∀ (edits : List Edit) (a : Automaton), a.graph.Allows edits →
      (edits.foldl Edit.apply a).graph = edits.foldl Edit.draw a.graph := by
    intro edits
    induction edits with
    | nil => exact fun _ _ => rfl
    | cons edit edits ih =>
      intro a h
      have hedit := graph_apply h.1
      rw [List.foldl_cons, List.foldl_cons, ← hedit]
      exact ih _ (hedit ▸ h.2)
  rw [← graph_initial] at h
  rw [construct, hfold edits initial h, graph_initial]
  rfl

/-! ## What is read -/

theorem transition_eq_or (a : Automaton) (s : StateId) (c : Char) :
    a.transition s c = (a.graph.edge s c).or (a.graph.otherwise s) := by
  cases h : a.state? s <;> simp [transition, graph, h]

theorem walks_graph : a.graph.Walks w s ↔ a.walkFrom root w = some s := by
  constructor
  · intro h
    induction h with
    | nil => rfl
    | edge _ hedge ih => simp [walkFrom_append, ih, transition_eq_or, hedge]
    | otherwise _ hedge hotherwise ih =>
      simp [walkFrom_append, ih, transition_eq_or, hedge, hotherwise]
  · intro h
    induction w using List.reverseRecOn generalizing s with
    | nil =>
      obtain rfl := Option.some.inj h
      exact .nil
    | append_singleton w c ih =>
      rw [walkFrom_append, Option.bind_eq_some_iff] at h
      obtain ⟨r, hr, hs⟩ := h
      rw [walkFrom_cons, Option.bind_eq_some_iff] at hs
      obtain ⟨t, ht, hs⟩ := hs
      obtain rfl := Option.some.inj hs
      rw [transition_eq_or, Option.or_eq_some_iff] at ht
      rcases ht with hedge | ⟨hedge, hotherwise⟩
      · exact (ih hr).edge hedge
      · exact (ih hr).otherwise hedge hotherwise

theorem accepts_graph {kind : TokenKind} :
    a.graph.Accepts w kind ↔ a.kindOf? w = some kind := by
  simp only [Graph.Accepts, walks_graph]
  exact Option.bind_eq_some_iff.symm

theorem reads_of_longest {m : Munch} (h : a.Longest cs m) : a.graph.Reads cs m := by
  obtain ⟨kind, length⟩ := m
  obtain ⟨w, q, rfl, hne, hkind, rfl, hmax⟩ := h
  refine .accepted (List.prefix_append w q) hne (accepts_graph.2 hkind) ?_
  rintro w' kind' ⟨q', hq'⟩ haccepts
  by_contra hlt
  have hrejects := hmax w' q' hq'.symm (by omega)
  simp [accepts_graph, kindOf?, hrejects] at haccepts

theorem reads_of_noneFrom {c : Char} (hnone : a.NoneFrom root (c :: cs))
    (h : a.Reaches root (c :: cs) w) : a.graph.Reads (c :: cs)
      ⟨.unrecognized, byteLength (if w = [] then [c] else w)⟩ := by
  obtain ⟨⟨q, hq⟩, hwalk, hmax⟩ := h
  have hlongest : ∀ w' s', w' <+: c :: cs → a.graph.Walks w' s' → w'.length ≤ w.length := by
    rintro w' s' ⟨q', hq'⟩ hwalks
    by_contra hlt
    have hstuck := hmax w' q' hq'.symm (by omega)
    simp [walks_graph, hstuck] at hwalks
  by_cases hw : w = []
  · have hprefix : [c] <+: c :: cs := ⟨cs, rfl⟩
    rw [if_pos hw]
    refine .stuck hprefix fun s hwalks => ?_
    have hle := hlongest [c] s hprefix hwalks
    simp [hw] at hle
  · obtain ⟨s, hs⟩ := Option.isSome_iff_exists.1 hwalk
    rw [if_neg hw]
    refine .walked ⟨q, hq.symm⟩ hw ?_ (walks_graph.2 hs) hlongest
    rintro w' kind ⟨q', hq'⟩ hne haccepts
    have hrejects := hnone w' q' hq'.symm hne
    simp [accepts_graph, kindOf?, hrejects] at haccepts

/-- What any automaton reads is told by the walks along its graph. -/
theorem reads_graph {m : Munch} (h : a.readToken cs = some m) : a.graph.Reads cs m := by
  rcases readToken_cases h with hlongest | ⟨hnone, hkind, w, hreaches, hlength⟩
  · exact reads_of_longest hlongest
  · obtain ⟨kind, length⟩ := m
    obtain ⟨c, cs, rfl⟩ := List.exists_cons_of_ne_nil (l := cs) (by rintro rfl; simp [readToken] at h)
    obtain rfl : kind = .unrecognized := hkind
    obtain rfl : length = byteLength (if w = [] then [c] else w) := hlength
    exact reads_of_noneFrom hnone hreaches

/-- What a constructed automaton reads of an input is told by the walks along the graph that its edits
draw: at least one character, and no part of one. -/
theorem readToken_construct {edits : List Edit} (h : Graph.initial.Allows edits) (c : Char)
    (cs : List Char) : ∃ m, (construct edits).readToken (c :: cs) = some m ∧
      (Graph.construct edits).Reads (c :: cs) m ∧ 1 ≤ m.length ∧
      m.length ≤ byteLength (c :: cs) ∧ IsBoundary (c :: cs) m.length := by
  obtain ⟨m, hm⟩ := Option.ne_none_iff_exists'.1
    (readToken_ne_none (a := construct edits) (List.cons_ne_nil c cs))
  refine ⟨m, hm, graph_construct h ▸ reads_graph hm, ?_⟩
  obtain ⟨w, q, hq, hw, hlength⟩ := readToken_isPrefix hm
  have hpos := byteLength_pos hw
  rw [hq, byteLength_append]
  exact ⟨by omega, by omega, w, q, rfl, hlength.symm⟩

/-- The root accepts, and a loop takes the place of an edge. -/
def looping : List Edit :=
  [.addState (some .identifier), .setAccepting root .whitespace, .addEdges root ['é', 'x'] 1,
    .addEdge 1 ';' root, .setOtherwise 1 1, .shareEdges root 1]

theorem readToken_construct_looping : Graph.initial.Allows looping ∧
    ∃ m, (construct looping).readToken ['é', ';', 'ä'] = some m ∧
      (Graph.construct looping).Reads ['é', ';', 'ä'] m ∧ 1 ≤ m.length ∧
      m.length ≤ byteLength ['é', ';', 'ä'] ∧ IsBoundary ['é', ';', 'ä'] m.length := by
  have hallows : Graph.initial.Allows looping := by
    simp [looping, Graph.Allows, Edit.IsWithin, Edit.draw, Graph.initial, root]
  exact ⟨hallows, readToken_construct hallows 'é' [';', 'ä']⟩

end Sable.Automaton
