import Sable.Proofs.Syntax.Moving
import Sable.Symbol.Library

/-!
# Moving libraries

No library looks at the spans of its symbols but to report them, and none looks at its title. So all
that is asked of a library and done to it may be done before or after its symbols have moved.

## Main definitions

* `Relocation.IsRelayout`: what is written nowhere, and the numbers of nodes, stay.
* `Library.move`: a library and all that it is linked to, after a relocation.

## Main statements

* `Library.symbol?_move`, `Library.nameOf_move`: look-up.
* `Library.createType_move`, `Library.addMember_move`, `Library.addLocal_move`,
  `Library.addLabel_move`: construction and registration.
* `Library.core_move`: the built-in types stay.
* `Library.describe_move`: the listing.
-/
namespace Sable

structure Relocation.IsRelayout (φ : Relocation) : Prop where
  shift_eq : φ.shift = 0
  span_dummy : φ.span .dummy = .dummy

def SemanticError.move (φ : Relocation) : SemanticError → SemanticError
  | .sameName name s => .sameName name (φ.span s)
  | .symbolNotFound name s => .symbolNotFound name (φ.span s)
  | .invalidIndexer target index s => .invalidIndexer target index (φ.span s)
  | .invalidMemberAccess access type s => .invalidMemberAccess access type (φ.span s)
  | .invalidBinaryOperator op left right s => .invalidBinaryOperator op left right (φ.span s)
  | .invalidUnaryOperator op operand s => .invalidUnaryOperator op operand (φ.span s)
  | .nonCallableType type s => .nonCallableType type (φ.span s)
  | .invalidCall callee arguments s => .invalidCall callee arguments (φ.span s)
  | .invalidCast source target s => .invalidCast source target (φ.span s)
  | .conditionExpectedBooleanOrPointer found s =>
    .conditionExpectedBooleanOrPointer found (φ.span s)
  | .breakContinueOutsideLoop s => .breakContinueOutsideLoop (φ.span s)
  | .typeMismatch expected found s => .typeMismatch expected found (φ.span s)

namespace Symbol

def move (φ : Relocation) (s : Symbol) : Symbol := { s with span := φ.span s.span }

variable (φ : Relocation) (s : Symbol)

@[simp] theorem move_name : (s.move φ).name = s.name := rfl

@[simp] theorem move_kind : (s.move φ).kind = s.kind := rfl

@[simp] theorem move_type : (s.move φ).type = s.type := rfl

@[simp] theorem move_span : (s.move φ).span = φ.span s.span := rfl

@[simp] theorem move_type? : (s.move φ).type? = s.type? := rfl

@[simp] theorem move_function? : (s.move φ).function? = s.function? := rfl

@[simp] theorem move_isValue : (s.move φ).isValue = s.isValue := rfl

end Symbol

namespace Library

variable (φ : Relocation)

mutual

def move : Library → Library
  | ⟨id, name, symbols, globals, pointers, functions, dependencies⟩ =>
    ⟨id, φ.title name, symbols.map (Symbol.move φ), globals, pointers, functions,
      moveAll dependencies⟩

def moveAll : List Library → List Library
  | [] => []
  | lib :: libs => lib.move :: moveAll libs

end

theorem moveAll_eq_map (libs : List Library) : moveAll φ libs = libs.map (move φ) := by
  induction libs with
  | nil => rfl
  | cons lib libs ih => rw [moveAll, ih, List.map_cons]

variable (lib : Library)

theorem move_eq : lib.move φ = { lib with
    name := φ.title lib.name
    symbols := lib.symbols.map (Symbol.move φ)
    dependencies := lib.dependencies.map (move φ) } := by
  obtain ⟨id, name, symbols, globals, pointers, functions, dependencies⟩ := lib
  simp only [move, moveAll_eq_map]

@[simp] theorem move_id : (lib.move φ).id = lib.id := by rw [move_eq]

@[simp] theorem move_symbols : (lib.move φ).symbols = lib.symbols.map (Symbol.move φ) := by
  rw [move_eq]

@[simp] theorem move_globals : (lib.move φ).globals = lib.globals := by rw [move_eq]

@[simp] theorem move_pointerTypes : (lib.move φ).pointerTypes = lib.pointerTypes := by
  rw [move_eq]

@[simp] theorem move_functionTypes : (lib.move φ).functionTypes = lib.functionTypes := by
  rw [move_eq]

@[simp] theorem move_dependencies :
    (lib.move φ).dependencies = lib.dependencies.map (move φ) := by
  rw [move_eq]

/-! ## Look-up -/

mutual

theorem firstSome?_move {α β : Type} {f : Library → Option α} {f' : Library → Option β} (g : α → β)
    (hf : ∀ lib : Library, f' (lib.move φ) = (f lib).map g) :
    (lib : Library) → (lib.move φ).firstSome? f' = (lib.firstSome? f).map g
  | ⟨id, name, symbols, globals, pointers, functions, dependencies⟩ => by
    have hlib := hf ⟨id, name, symbols, globals, pointers, functions, dependencies⟩
    rw [move] at hlib
    simp only [move, firstSome?, hlib, firstSomeOf?_moveAll g hf dependencies]
    cases f ⟨id, name, symbols, globals, pointers, functions, dependencies⟩ <;> rfl

theorem firstSomeOf?_moveAll {α β : Type} {f : Library → Option α} {f' : Library → Option β}
    (g : α → β) (hf : ∀ lib : Library, f' (lib.move φ) = (f lib).map g) :
    (libs : List Library) → firstSomeOf? f' (moveAll φ libs) = (firstSomeOf? f libs).map g
  | [] => rfl
  | lib :: libs => by
    simp only [moveAll, firstSomeOf?, firstSome?_move g hf lib, firstSomeOf?_moveAll g hf libs]
    cases firstSome? f lib <;> rfl

end

theorem firstSome?_move_eq {α : Type} {f : Library → Option α}
    (hf : ∀ lib : Library, f (lib.move φ) = f lib) :
    (lib.move φ).firstSome? f = lib.firstSome? f := by
  have hmap : ∀ lib : Library, f (lib.move φ) = (f lib).map fun x => x := fun lib => by
    rw [hf, Option.map_id']
  have := firstSome?_move φ _ hmap lib
  rwa [Option.map_id'] at this

theorem owned?_move (id : SymbolId) :
    (lib.move φ).owned? id = (lib.owned? id).map (Symbol.move φ) := by
  rw [owned?, owned?, move_id, move_symbols, Array.getElem?_map]
  split <;> rfl

theorem symbol?_move (id : SymbolId) :
    (lib.move φ).symbol? id = (lib.symbol? id).map (Symbol.move φ) :=
  firstSome?_move φ _ (fun lib => lib.owned?_move φ id) lib

@[simp] theorem type?_move (id : SymbolId) : (lib.move φ).type? id = lib.type? id := by
  rw [type?, type?, symbol?_move]
  cases lib.symbol? id <;> rfl

@[simp] theorem nameOf_move (id : SymbolId) : (lib.move φ).nameOf id = lib.nameOf id := by
  rw [nameOf, nameOf, symbol?_move]
  cases lib.symbol? id <;> rfl

theorem lookupGlobal?_move (name : String) :
    (lib.move φ).lookupGlobal? name = lib.lookupGlobal? name :=
  firstSome?_move_eq φ lib fun lib => by rw [global?, global?, move_globals]

theorem pointerType?_move (pointee : SymbolId) :
    (lib.move φ).pointerType? pointee = lib.pointerType? pointee :=
  firstSome?_move_eq φ lib fun lib => by rw [move_pointerTypes]

theorem functionType?_move (parameters : List SymbolId) (returns : SymbolId) :
    (lib.move φ).functionType? parameters returns = lib.functionType? parameters returns :=
  firstSome?_move_eq φ lib fun lib => by rw [move_functionTypes]

/-! ## Construction -/

theorem link_move (dep : Library) : (lib.move φ).link (dep.move φ) = (lib.link dep).move φ := by
  have hany : (lib.move φ).dependencies.any (·.id == (dep.move φ).id) =
      lib.dependencies.any (·.id == dep.id) := by
    simp [Function.comp_def]
  rw [link, link, hany]
  split
  · rfl
  · simp [move_eq]

theorem alloc_move (s : Symbol) :
    (lib.move φ).alloc (s.move φ) = ((lib.alloc s).1, (lib.alloc s).2.move φ) := by
  simp [alloc, move_eq]

theorem update_move (id : SymbolId) {f : Symbol → Symbol}
    (hf : ∀ s, f (s.move φ) = (f s).move φ) :
    (lib.move φ).update id f = (lib.update id f).move φ := by
  rw [update, update, move_id]
  split
  · have hmodify : (lib.symbols.map (Symbol.move φ)).modify id.index f =
        (lib.symbols.modify id.index f).map (Symbol.move φ) := by
      refine Array.ext_getElem? fun i => ?_
      rw [Array.getElem?_modify, Array.getElem?_map, Array.getElem?_map, Array.getElem?_modify]
      split
      · rw [Option.map_map, Option.map_map]
        exact congrArg (Option.map · _) (funext hf)
      · rfl
    simp only [move_eq, hmodify]
  · rfl

theorem createVariable_move (name : String) (span : Span) (isParameter : Bool) :
    (lib.move φ).createVariable name (φ.span span) isParameter =
      ((lib.createVariable name span isParameter).1,
        (lib.createVariable name span isParameter).2.move φ) :=
  lib.alloc_move φ { name, kind := .variable isParameter, span }

theorem createFunction_move (name : String) (span : Span) :
    (lib.move φ).createFunction name (φ.span span) =
      ((lib.createFunction name span).1, (lib.createFunction name span).2.move φ) :=
  lib.alloc_move φ { name, kind := .function {}, span }

theorem createLabel_move (name : String) (span : Span) :
    (lib.move φ).createLabel name (φ.span span) =
      ((lib.createLabel name span).1, (lib.createLabel name span).2.move φ) :=
  lib.alloc_move φ { name, kind := .label, span }

theorem setType_move (id type : SymbolId) :
    (lib.move φ).setType id type = (lib.setType id type).move φ :=
  lib.update_move φ id fun _ => rfl

theorem setDeclaration_move (id : SymbolId) (node : NodeId) :
    (lib.move φ).setDeclaration id node = (lib.setDeclaration id node).move φ :=
  lib.update_move φ id fun _ => rfl

theorem publish_move (name : String) (id : SymbolId) :
    (lib.move φ).publish name id = (lib.publish name id).move φ := by
  simp [publish, move_eq]

/-- What is made by the library itself, such as an interned type, is written nowhere. -/
theorem alloc_move_of_dummy (hφ : φ.IsRelayout) {s : Symbol} (hs : s.span = .dummy) :
    (lib.move φ).alloc s = ((lib.alloc s).1, (lib.alloc s).2.move φ) := by
  have hs' : s.move φ = s := by rw [Symbol.move, hs, hφ.span_dummy, ← hs]
  rw [← lib.alloc_move φ s, hs']

variable {φ} (hφ : φ.IsRelayout)
include hφ

theorem pointerTo_move (pointee : SymbolId) :
    (lib.move φ).pointerTo pointee = ((lib.pointerTo pointee).1, (lib.pointerTo pointee).2.move φ) := by
  simp only [pointerTo, pointerType?_move, nameOf_move]
  cases lib.pointerType? pointee with
  | some id => rfl
  | none =>
    rw [alloc_move_of_dummy φ lib hφ rfl]
    simp [publishNew, move_eq]

theorem pointerType_move (base : SymbolId) (depth : Nat) : (lib.move φ).pointerType base depth =
    ((lib.pointerType base depth).1, (lib.pointerType base depth).2.move φ) := by
  induction depth generalizing lib base with
  | zero => rfl
  | succ depth ih =>
    simp only [pointerType, lib.pointerTo_move hφ base]
    exact ih _ _

theorem functionType_move (parameters : List SymbolId) (returns : SymbolId) :
    (lib.move φ).functionType parameters returns =
      ((lib.functionType parameters returns).1, (lib.functionType parameters returns).2.move φ) := by
  have hname : (lib.move φ).functionTypeName parameters returns =
      lib.functionTypeName parameters returns := by
    rw [functionTypeName, functionTypeName, nameOf_move, funext (lib.nameOf_move φ)]
  simp only [functionType, functionType?_move, hname]
  cases lib.functionType? parameters returns with
  | some id => rfl
  | none =>
    rw [alloc_move_of_dummy φ lib hφ rfl]
    simp [publishNew, move_eq]

/-- What a step that may fail gives after a relocation. -/
theorem createType_move (name : String) (isGlobal : Bool) (span : Span) :
    (lib.move φ).createType name isGlobal (φ.span span) =
      ((lib.createType name isGlobal span).1.mapError (SemanticError.move φ),
        (lib.createType name isGlobal span).2.move φ) := by
  simp only [createType, lookupGlobal?_move, type?_move]
  split
  · cases (lib.lookupGlobal? _).filter _ with
    | none => rfl
    | some pointee =>
      simp only [lib.pointerType_move hφ]
      rfl
  · rw [move_globals]
    split
    · rfl
    · have halloc := lib.alloc_move φ ⟨name, .type ⟨.classType, .empty⟩, none, none, none, none, span⟩
      simp only [Symbol.move] at halloc
      rw [halloc]
      split
      · simp only [publish_move]
        rfl
      · rfl

/-! ## Registration -/

theorem move_unknown (id : SymbolId) : (unknown id).move φ = unknown id := by
  rw [unknown, SemanticError.move, hφ.span_dummy]

theorem registerGlobal_move (id : SymbolId) : (lib.move φ).registerGlobal id =
    ((lib.registerGlobal id).1.mapError (SemanticError.move φ), (lib.registerGlobal id).2.move φ) := by
  simp only [registerGlobal, symbol?_move]
  cases lib.symbol? id with
  | none => exact Prod.ext (congrArg Except.error (move_unknown hφ id).symm) rfl
  | some s =>
    simp only [Option.map_some, Symbol.move_name, move_globals]
    split
    · rfl
    · rw [publish_move]
      rfl

omit hφ in
theorem setMembers_move (id : SymbolId) (members : Names) :
    (lib.move φ).setMembers id members = (lib.setMembers id members).move φ := by
  refine lib.update_move φ id fun s => ?_
  rw [Symbol.move_kind]
  cases s.kind <;> rfl

omit hφ in
theorem setFunction_move (id : SymbolId) (f : FunctionSymbol) :
    (lib.move φ).setFunction id f = (lib.setFunction id f).move φ := by
  refine lib.update_move φ id fun s => ?_
  rw [Symbol.move_kind]
  cases s.kind <;> rfl

theorem addMember_move (owner member : SymbolId) : (lib.move φ).addMember owner member =
    ((lib.addMember owner member).1.mapError (SemanticError.move φ),
      (lib.addMember owner member).2.move φ) := by
  simp only [addMember, symbol?_move, owned?_move, nameOf_move]
  cases lib.symbol? member with
  | none => exact Prod.ext (congrArg Except.error (move_unknown hφ member).symm) rfl
  | some s =>
    have howner : ((lib.owned? owner).map (Symbol.move φ)).bind Symbol.type? =
        (lib.owned? owner).bind Symbol.type? := by
      cases lib.owned? owner <;> rfl
    simp only [Option.map_some, howner, Symbol.move_name]
    cases (lib.owned? owner).bind Symbol.type? with
    | none => rfl
    | some t =>
      dsimp only
      by_cases htaken : t.members.contains s.name = true
      · rw [if_pos htaken]
        exact if_pos htaken
      · rw [if_neg htaken, setMembers_move]
        exact (if_neg htaken).trans (congrArg (Prod.mk _) (update_move φ _ _ fun _ => rfl))

theorem addLocal_move (function member : SymbolId) : (lib.move φ).addLocal function member =
    ((lib.addLocal function member).1.mapError (SemanticError.move φ),
      (lib.addLocal function member).2.move φ) := by
  simp only [addLocal, symbol?_move, nameOf_move]
  cases lib.symbol? member with
  | none => exact Prod.ext (congrArg Except.error (move_unknown hφ member).symm) rfl
  | some s =>
    have hfunction : ((lib.symbol? function).map (Symbol.move φ)).bind Symbol.function? =
        (lib.symbol? function).bind Symbol.function? := by
      cases lib.symbol? function <;> rfl
    simp only [Option.map_some, hfunction, Symbol.move_name, Option.any_map]
    cases (lib.symbol? function).bind Symbol.function? with
    | none => rfl
    | some f =>
      dsimp only
      split
      · rfl
      · simp only [setFunction_move]
        exact congrArg (Prod.mk _) (update_move φ _ _ fun _ => rfl)

theorem addLabel_move (function label : SymbolId) : (lib.move φ).addLabel function label =
    ((lib.addLabel function label).1.mapError (SemanticError.move φ),
      (lib.addLabel function label).2.move φ) := by
  simp only [addLabel, symbol?_move, owned?_move, nameOf_move]
  cases lib.symbol? label with
  | none => exact Prod.ext (congrArg Except.error (move_unknown hφ label).symm) rfl
  | some s =>
    have hfunction : ((lib.owned? function).map (Symbol.move φ)).bind Symbol.function? =
        (lib.owned? function).bind Symbol.function? := by
      cases lib.owned? function <;> rfl
    simp only [Option.map_some, hfunction, Symbol.move_name]
    cases (lib.owned? function).bind Symbol.function? with
    | none => rfl
    | some f =>
      dsimp only
      by_cases htaken : f.labels.contains s.name = true
      · rw [if_pos htaken]
        exact if_pos htaken
      · rw [if_neg htaken, setFunction_move]
        exact (if_neg htaken).trans (addLocal_move _ hφ _ _)

/-! ## Built-in types -/

/-- The built-in types are written nowhere. -/
theorem core_move (htitle : φ.title "core" = "core") (id : LibraryId) :
    (core id).move φ = core id := by
  have hprimitive (lib : Library) (name : String) :
      (lib.move φ).primitive name = (lib.primitive name).move φ := by
    rw [primitive, primitive, alloc_move_of_dummy φ lib hφ rfl]
    exact publish_move ..
  have hfold (names : List String) (lib : Library) :
      names.foldl primitive (lib.move φ) = (names.foldl primitive lib).move φ := by
    induction names generalizing lib with
    | nil => rfl
    | cons name names ih => rw [List.foldl_cons, List.foldl_cons, hprimitive, ih]
  have hnew : (new id "core").move φ = new id "core" := by
    simp [new, move_eq, htitle]
  have hpointer {lib : Library} (hlib : lib.move φ = lib) (pointee : SymbolId) :
      (lib.pointerTo pointee).2.move φ = (lib.pointerTo pointee).2 := by
    have := congrArg Prod.snd (lib.pointerTo_move hφ pointee)
    rw [hlib] at this
    exact this.symm
  have hnames (names : List String) :
      (names.foldl primitive (new id "core")).move φ = names.foldl primitive (new id "core") := by
    rw [← hfold, hnew]
  exact hpointer (hpointer (hnames [voidName, booleanName, integerName, floatName, byteName,
    nullName]) ⟨id, 4⟩) ⟨id, 5⟩

/-! ## Listing -/

omit hφ in
theorem describe_move : (lib.move φ).describe = lib.describe := by
  have hsymbol (s : Symbol) : (lib.move φ).describeSymbol (s.move φ) = lib.describeSymbol s := by
    simp only [describeSymbol, nameOf_move]
    rfl
  rw [describe, describe, move_symbols, Array.toList_map, List.map_map]
  simp only [Function.comp_def, hsymbol]

end Library

end Sable
