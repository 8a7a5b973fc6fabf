import Mathlib.Computability.Language
import Mathlib.Tactic.Common
import Sable.Proofs.Automaton.Reading

/-!
# Parts of an automaton

A part is a small transition table over states of its own. It stands in an automaton where its
states are numbered and the automaton has exactly the table's states at these numbers. What the
automaton accepts from there is then told by the table alone: a language for each of its states
that goes along with the table's edges.

## Main definitions

* `Automaton.Part`: a transition table.
* `Automaton.Part.Within`: a part stands in an automaton.
* `Automaton.Part.Solves`: languages that go along with the edges of a part.

## Main statements

* `Automaton.Part.Within.walkFrom`: the automaton walks as the part does.
* `Automaton.Part.Solves.kindFrom?`: the automaton accepts the languages of a part.
-/
namespace Sable.Automaton

variable {a b : Automaton} {σ : Type}

/-! ## The states after a change -/

theorem root_lt_size (a : Automaton) : root < a.size := a.size_pos

theorem state?_isSome_iff {s : StateId} : (a.state? s).isSome ↔ s < a.size := by
  simp [state?, size]

@[simp] theorem size_addState (accepting : Option TokenKind) :
    (a.addState accepting).size = a.size + 1 := by
  simp [size, addState]

@[simp] theorem size_update (s : StateId) (f : AutomatonState → AutomatonState) :
    (a.update s f).size = a.size := by
  simp [size, update]

@[simp] theorem state?_addState (accepting : Option TokenKind) (s : StateId) :
    (a.addState accepting).state? s = if s = a.size then some { accepting } else a.state? s := by
  simp only [state?, addState, Array.getElem?_push, size]
  rfl

@[simp] theorem state?_update (s t : StateId) (f : AutomatonState → AutomatonState) :
    (a.update s f).state? t = if s = t then (a.state? t).map f else a.state? t := by
  simp [state?, update, Array.getElem?_modify]

/-- Edges for several characters, the one that is added last in front. -/
def edgesTo (cs : List Char) (target : StateId) : List (Char × StateId) :=
  (cs.map fun c => (c, target)).reverse

theorem foldl_edges (target : StateId) (cs : List Char) (edges : List (Char × StateId)) :
    cs.foldl (fun edges c => (c, target) :: edges) edges = edgesTo cs target ++ edges := by
  induction cs generalizing edges with
  | nil => rfl
  | cons c cs ih =>
    rw [List.foldl_cons, ih]
    simp [edgesTo]

@[simp] theorem size_addEdges (source target : StateId) (cs : List Char) :
    (a.addEdges source cs target).size = a.size :=
  size_update ..

@[simp] theorem state?_addEdges (source target s : StateId) (cs : List Char) :
    (a.addEdges source cs target).state? s =
      if source = s then
        (a.state? s).map fun t => { t with edges := edgesTo cs target ++ t.edges }
      else a.state? s := by
  simp only [addEdges, state?_update, foldl_edges]

@[simp] theorem size_setOtherwise (source target : StateId) :
    (a.setOtherwise source target).size = a.size :=
  size_update ..

@[simp] theorem state?_setOtherwise (source target s : StateId) :
    (a.setOtherwise source target).state? s =
      if source = s then (a.state? s).map fun t => { t with otherwise := some target }
      else a.state? s :=
  state?_update ..

/-! ## Tables -/

/-- A state of a part. The first group of edges that has a character counts for it. -/
structure PartState (σ : Type) where
  edges : List (List Char × σ) := []
  otherwise : Option σ := none
  accepting : Option TokenKind := none

abbrev Part (σ : Type) := σ → PartState σ

/-- The state of an automaton that a state of a part stands for. -/
def PartState.at (p : PartState σ) (place : σ → StateId) : AutomatonState where
  edges := p.edges.flatMap fun e => edgesTo e.1 (place e.2)
  otherwise := p.otherwise.map place
  accepting := p.accepting

/-- Where the first group that has `c` leads, or `otherwise`. -/
def target? (c : Char) (otherwise : Option σ) : List (List Char × σ) → Option σ
  | [] => otherwise
  | e :: edges => if c ∈ e.1 then some e.2 else target? c otherwise edges

namespace Part

def next (part : Part σ) (s : σ) (c : Char) : Option σ :=
  target? c (part s).otherwise (part s).edges

def walk (part : Part σ) (s : σ) (cs : List Char) : Option σ := cs.foldlM part.next s

/-- The automaton has the states of the part at their places. -/
def Within (part : Part σ) (a : Automaton) (place : σ → StateId) : Prop :=
  ∀ s, a.state? (place s) = some ((part s).at place)

end Part

theorem lookup_edgesTo_append (cs : List Char) (target : StateId) (c : Char)
    (edges : List (Char × StateId)) :
    (edgesTo cs target ++ edges).lookup c =
      if c ∈ cs then some target else edges.lookup c := by
  induction cs generalizing edges with
  | nil => simp [edgesTo]
  | cons d cs ih =>
    have hcons : edgesTo (d :: cs) target ++ edges = edgesTo cs target ++ (d, target) :: edges := by
      simp [edgesTo]
    rw [hcons, ih, List.lookup_cons]
    by_cases hd : c = d <;> by_cases hc : c ∈ cs <;> simp [hd, hc, beq_eq_false_iff_ne.2]

/-- An edge of the state that `p` stands for, or else its edge for all other characters. -/
theorem lookup_at (p : PartState σ) (place : σ → StateId) (c : Char) :
    ((p.at place).edge? c <|> (p.at place).otherwise) =
      (target? c p.otherwise p.edges).map place := by
  simp only [AutomatonState.edge?, PartState.at]
  induction p.edges with
  | nil => simp [target?]
  | cons e edges ih =>
    rw [List.flatMap_cons, lookup_edgesTo_append, target?]
    split
    · rfl
    · exact ih

namespace Part.Within

variable {part : Part σ} {place : σ → StateId}

theorem of_state?_eq (h : part.Within a place) (hab : ∀ s, b.state? (place s) = a.state? (place s)) :
    part.Within b place :=
  fun s => (hab s).trans (h s)

theorem lt_size (h : part.Within a place) (s : σ) : place s < a.size :=
  state?_isSome_iff.1 (by rw [h s]; rfl)

theorem transition (h : part.Within a place) (s : σ) (c : Char) :
    a.transition (place s) c = (part.next s c).map place := by
  rw [Automaton.transition, h s, Option.bind_some, lookup_at, Part.next]

theorem accepting? (h : part.Within a place) (s : σ) :
    a.accepting? (place s) = (part s).accepting := by
  rw [Automaton.accepting?, h s]
  rfl

theorem walkFrom (h : part.Within a place) (s : σ) (cs : List Char) :
    a.walkFrom (place s) cs = (part.walk s cs).map place := by
  induction cs generalizing s with
  | nil => rfl
  | cons c cs ih =>
    rw [walkFrom_cons, h.transition, Part.walk, List.foldlM_cons]
    cases part.next s c with
    | none => rfl
    | some t => exact ih t

end Part.Within

/-- What is accepted has the kind of a state of the part. -/
theorem Part.Within.exists_accepting {part : Part σ} {place : σ → StateId}
    (h : part.Within a place) {s : σ} {cs : List Char} {kind : TokenKind}
    (hkind : a.kindFrom? (place s) cs = some kind) : ∃ t, (part t).accepting = some kind := by
  rw [kindFrom?, h.walkFrom] at hkind
  cases hwalk : part.walk s cs with
  | none => simp [hwalk] at hkind
  | some t => exact ⟨t, by simpa [hwalk, h.accepting?] using hkind⟩

/-- For each state a language, so that an edge of the part takes a character off the words. -/
structure Part.Solves (part : Part σ) (kind : TokenKind) (L : σ → Language Char) : Prop where
  nil : ∀ s, [] ∈ L s ↔ (part s).accepting = some kind
  cons : ∀ s c cs, c :: cs ∈ L s ↔ ∃ t ∈ part.next s c, cs ∈ L t

theorem Part.Solves.kindFrom? {part : Part σ} {place : σ → StateId} {kind : TokenKind}
    {L : σ → Language Char} (hL : part.Solves kind L) (h : part.Within a place) (s : σ)
    (cs : List Char) : a.kindFrom? (place s) cs = some kind ↔ cs ∈ L s := by
  induction cs generalizing s with
  | nil => rw [kindFrom?_nil, h.accepting?, hL.nil]
  | cons c cs ih =>
    rw [hL.cons]
    have hstep := h.transition s c
    cases hnext : part.next s c with
    | none =>
      have hstuck : a.transition (place s) c = none := by simpa [hnext] using hstep
      simp [Automaton.kindFrom?, hstuck]
    | some t =>
      have hgo : a.transition (place s) c = some (place t) := by simpa [hnext] using hstep
      simpa [kindFrom?_cons hgo] using ih t

end Sable.Automaton
