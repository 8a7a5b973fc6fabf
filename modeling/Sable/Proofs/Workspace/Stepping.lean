import Sable.Proofs.Symbol.Leading
import Sable.Workspace.Basic

/-!
# Sequences of library steps

Whatever is done with a library in use, it is done by the steps that a library has. So what every
single step keeps is kept by all that uses them, the analyses among them.

## Main definitions

* `LibraryStep.IsQuiet`: the step empties nothing and publishes no name.
* `Library.Steps`: one library becomes another by steps that do not empty it.

## Main statements

* `Library.Steps.leads`: if nothing is published without a symbol, the steps lead the library on.
-/
namespace Sable

/-- The step neither empties the library nor publishes a name. -/
def LibraryStep.IsQuiet : LibraryStep → Prop
  | .reset | .registerGlobal _ => False
  | _ => True

namespace Library

variable {p : Prop} {lib lib' lib'' : Library}

/-- One library becomes another by steps, none of which empties it. If `p` holds, names are
published only while there are symbols. -/
inductive Steps (p : Prop) (lib : Library) : Library → Prop
  | refl : Steps p lib lib
  | step {lib' : Library} (h : Steps p lib lib') (s : LibraryStep) (hreset : s ≠ .reset)
    (hpublish : p → ∀ id, s = .registerGlobal id → 0 < lib'.symbols.size) :
    Steps p lib (lib'.step s).2

namespace Steps

theorem trans (h : lib.Steps p lib') (h' : lib'.Steps p lib'') : lib.Steps p lib'' := by
  induction h' with
  | refl => exact h
  | step _ s hreset hpublish ih => exact ih.step s hreset hpublish

theorem of_step (s : LibraryStep) (hs : s.IsQuiet) : lib.Steps p (lib.step s).2 :=
  refl.step s (fun heq => (heq ▸ hs : LibraryStep.reset.IsQuiet))
    fun _ id heq => ((heq ▸ hs : (LibraryStep.registerGlobal id).IsQuiet)).elim

theorem registerGlobal (h : p → 0 < lib.symbols.size) (id : SymbolId) :
    lib.Steps p (lib.registerGlobal id).2 :=
  refl.step (.registerGlobal id) nofun fun hp _ _ => h hp

/-- What every step keeps, all of them keep. -/
theorem keeps {P : Library → Prop} (h : lib.Steps p lib') (hlib : P lib)
    (hstep : ∀ lib s, s ≠ .reset → P lib → P (lib.step s).2) : P lib' := by
  induction h with
  | refl => exact hlib
  | step _ s hreset _ ih => exact hstep _ s hreset ih

end Steps

/-! ## Single steps -/

theorem steps_createType (lib : Library) (name : String) (isGlobal : Bool) (span : Span) :
    lib.Steps p (lib.createType name isGlobal span).2 :=
  .of_step (.createType name isGlobal span) trivial

theorem steps_pointerTo (lib : Library) (pointee : SymbolId) :
    lib.Steps p (lib.pointerTo pointee).2 :=
  .of_step (.pointerTo pointee) trivial

theorem steps_pointerType (lib : Library) (base : SymbolId) (depth : Nat) :
    lib.Steps p (lib.pointerType base depth).2 :=
  .of_step (.pointerType base depth) trivial

theorem steps_functionType (lib : Library) (parameters : List SymbolId) (returns : SymbolId) :
    lib.Steps p (lib.functionType parameters returns).2 :=
  .of_step (.functionType parameters returns) trivial

theorem steps_createVariable (lib : Library) (name : String) (span : Span) (isParameter : Bool) :
    lib.Steps p (lib.createVariable name span isParameter).2 :=
  .of_step (.createVariable name span isParameter) trivial

theorem steps_createFunction (lib : Library) (name : String) (span : Span) :
    lib.Steps p (lib.createFunction name span).2 :=
  .of_step (.createFunction name span) trivial

theorem steps_createLabel (lib : Library) (name : String) (span : Span) :
    lib.Steps p (lib.createLabel name span).2 :=
  .of_step (.createLabel name span) trivial

theorem steps_addMember (lib : Library) (owner member : SymbolId) :
    lib.Steps p (lib.addMember owner member).2 :=
  .of_step (.addMember owner member) trivial

theorem steps_addLocal (lib : Library) (function member : SymbolId) :
    lib.Steps p (lib.addLocal function member).2 :=
  .of_step (.addLocal function member) trivial

theorem steps_addLabel (lib : Library) (function label : SymbolId) :
    lib.Steps p (lib.addLabel function label).2 :=
  .of_step (.addLabel function label) trivial

theorem steps_setType (lib : Library) (id type : SymbolId) :
    lib.Steps p (lib.setType id type) :=
  .of_step (.setType id type) trivial

theorem steps_setDeclaration (lib : Library) (id : SymbolId) (node : NodeId) :
    lib.Steps p (lib.setDeclaration id node) :=
  .of_step (.setDeclaration id node) trivial

/-! ## What steps keep -/

theorem leads_step (s : LibraryStep) (hreset : s ≠ .reset)
    (hpublish : ∀ id, s = .registerGlobal id → 0 < lib.symbols.size) :
    lib.Leads (lib.step s).2 := by
  cases s with
  | createType name isGlobal span => exact lib.leads_createType name isGlobal span
  | pointerTo pointee => exact lib.leads_pointerTo pointee
  | pointerType base depth => exact lib.leads_pointerType base depth
  | functionType parameters returns => exact lib.leads_functionType parameters returns
  | createVariable | createFunction | createLabel => exact lib.leads_alloc _
  | setType | setDeclaration => exact lib.leads_update _ _
  | registerGlobal id => exact leads_registerGlobal (hpublish id rfl) id
  | addMember owner member => exact lib.leads_addMember owner member
  | addLocal function member => exact lib.leads_addLocal function member
  | addLabel function label => exact lib.leads_addLabel function label
  | reset => exact absurd rfl hreset

theorem Steps.leads (h : lib.Steps p lib') (hp : p) : lib.Leads lib' := by
  induction h with
  | refl => exact .refl lib
  | step _ s hreset hpublish ih => exact ih.trans (leads_step s hreset (hpublish hp))

end Library

end Sable
