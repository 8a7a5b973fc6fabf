import Sable.Proofs.Analysis.Requesting
import Sable.Proofs.Symbol.Moving
import Sable.Proofs.Typing.Moving

/-!
# Declarations in another place

What is declared in a moved declaration, what is asked for there and which names are taken is what
it was, moved.

## Main statements

* `Tree.bindings_move`: the nodes that declare something.
* `Declaration.requests_move`: what is asked for.
* `Declaration.listTaken_move`: the names that are taken.
-/
namespace Sable

variable (φ : Relocation)

/-! ## Nodes -/

theorem Tree.bindings_move (t : Tree) : (t.move φ).bindings = t.bindings.map (· + φ.shift) := by
  have hkind : (fun n : Node => n.kind.isBinding) ∘ Node.move φ = fun n => n.kind.isBinding :=
    funext fun n => by simp
  rw [bindings, bindings, preorder_move, List.filter_map, hkind, List.map_map, List.map_map]
  rfl

theorem Member.place_move (m : Member) : (m.move φ).place = m.place.move φ := by
  cases m <;> rfl

theorem Member.name_move (m : Member) : (m.move φ).name = m.name.move φ := by
  cases m <;> rfl

theorem Declaration.class?_move (d : Declaration) :
    (d.move φ).class? = d.class?.map (ClassDecl.move φ) := by
  cases d <;> rfl

theorem Declaration.values_move (d : Declaration) :
    (d.move φ).values = d.values.map (Member.move φ) := by
  cases d <;> rfl

theorem Declaration.members_move (d : Declaration) :
    (d.move φ).members = d.members.map (Member.move φ) := by
  cases d <;> rfl

/-! ## Requests -/

def Request.move (r : Request) : Request := ⟨r.node.map (· + φ.shift), r.name.move φ⟩

theorem resultRequest_move (name : Ident) (returns : Option WrittenType) :
    resultRequest (name.move φ) (returns.map (WrittenType.move φ)) =
      (resultRequest name returns).move φ := by
  cases returns <;> rfl

theorem Node.requests_move (n : Node) : (n.move φ).requests = n.requests.map (Request.move φ) := by
  unfold requests
  rw [move_head]
  cases n.head with
  | function name ps returns =>
    simp only [Head.move, resultRequest_move, List.map_append, List.map_map, List.map_singleton]
    rfl
  | type t => rfl
  | _ => rfl

theorem Tree.requests_move (t : Tree) : (t.move φ).requests = t.requests.map (Request.move φ) := by
  rw [requests, requests, preorder_move, List.flatMap_map, List.map_flatMap]
  exact List.flatMap_congr fun n _ => Node.requests_move φ n

theorem FunctionDecl.requests_move (d : FunctionDecl) :
    (d.move φ).requests = d.requests.map (Request.move φ) := by
  rw [requests, requests, move, resultRequest_move, Scope.tree_move, Tree.requests_move]
  simp only [List.map_append, List.map_map, List.map_singleton]
  rfl

theorem Member.requests_move (m : Member) :
    (m.move φ).requests = m.requests.map (Request.move φ) := by
  match m with
  | .variable d => rw [move, requests, requests, d.tree_move, Tree.requests_move]
  | .function d => exact d.requests_move φ

theorem Declaration.requests_move (d : Declaration) :
    (d.move φ).requests = d.requests.map (Request.move φ) := by
  rw [requests, requests, members_move, List.flatMap_map, List.map_flatMap]
  exact List.flatMap_congr fun m _ => Member.requests_move φ m

/-! ## Names that are taken -/

theorem takenNames_move (taken : String → Bool) (names : List Ident) :
    takenNames taken (names.map (Ident.move φ)) = (takenNames taken names).map (Ident.move φ) := by
  induction names generalizing taken with
  | nil => rfl
  | cons name names ih =>
    rw [List.map_cons, takenNames, takenNames, ih, List.map_append, Ident.move_name]
    split <;> rfl

theorem map_name_move (names : List Ident) :
    (names.map (Ident.move φ)).map Ident.name = names.map Ident.name := by
  rw [List.map_map]
  rfl

theorem FunctionDecl.takenLocals_move (d : FunctionDecl) :
    (d.move φ).takenLocals = d.takenLocals.map (Ident.move φ) := by
  have hnames : (d.move φ).locals.map LocalDecl.name =
      (d.locals.map LocalDecl.name).map (Ident.move φ) := by
    rw [locals_move, List.map_map, List.map_map]
    exact List.map_congr_left fun l _ => l.move_name φ
  rw [takenLocals, takenLocals, hnames, takenNames_move]

theorem Member.takenLocals_move (m : Member) :
    (m.move φ).takenLocals = m.takenLocals.map (Ident.move φ) := by
  rw [takenLocals, takenLocals, functions_move, List.flatMap_map, List.map_flatMap]
  exact List.flatMap_congr fun d _ => FunctionDecl.takenLocals_move φ d

theorem Member.listTaken_move (taken : String → Bool) (ms : List Member) :
    listTaken taken (ms.map (Member.move φ)) = (listTaken taken ms).map (Ident.move φ) := by
  induction ms generalizing taken with
  | nil => rfl
  | cons m ms ih =>
    have hname := takenNames_move φ taken [m.name]
    rw [List.map_singleton] at hname
    rw [List.map_cons, listTaken, listTaken, takenLocals_move, name_move, hname, Ident.move_name, ih,
      List.map_append, List.map_append]

theorem Declaration.taken_move (taken : String → Bool) (d : Declaration) :
    (d.move φ).taken taken = (d.taken taken).map (Ident.move φ) := by
  match d with
  | .classDecl d => exact Member.listTaken_move φ _ d.members
  | .function d => exact Member.listTaken_move φ taken [.function d]
  | .variable d => exact Member.listTaken_move φ taken [.variable d]

theorem Declaration.listTaken_move (taken : String → Bool) (ds : List Declaration) :
    listTaken taken (ds.map (Declaration.move φ)) = (listTaken taken ds).map (Ident.move φ) := by
  induction ds generalizing taken with
  | nil => rfl
  | cons d ds ih =>
    have hnames : (d.move φ).values.map Member.name =
        (d.values.map Member.name).map (Ident.move φ) := by
      rw [values_move, List.map_map, List.map_map]
      exact List.map_congr_left fun m _ => Member.name_move φ m
    rw [List.map_cons, listTaken, listTaken, taken_move, hnames, map_name_move, ih, List.map_append]

end Sable
