import Sable.Proofs.Symbol.Meaning
import Sable.Proofs.Symbol.Moving
import Sable.Proofs.Typing.Nodes
import Sable.Proofs.Typing.World

/-!
# Alike worlds

Two worlds may know the same under other numbers: what one of them knows of an entity, the other one
knows of the entity that it is paired with. Then the same is found in an expression in both, wherever
it is written and however its nodes are numbered.

## Main definitions

* `World.Alike`: two worlds, and which of their entities go together.
* `Found.Alike`: answers that go together, with the same errors.
* `Check.Alike`: the same check in two places.

## Main statements

* `World.Alike.typeExpr`: expressions have the same types and errors.
* `World.Alike.check`: so have checks.
-/
namespace Sable

variable {R : Entity → Entity → Prop} {φ : Relocation}

/-! ## Worlds -/

/-- What is written, wherever it stands. -/
def WrittenType.text (t : WrittenType) : String × Nat := (t.name.name, t.stars)

inductive Shape.Alike (R : Entity → Entity → Prop) : Shape → Shape → Prop
  | primitive : Alike R .primitive .primitive
  | classType : Alike R .classType .classType
  | pointer {t t' : Entity} (h : R t t') : Alike R (.pointer t) (.pointer t')
  | function {ts ts' : List Entity} {t t' : Entity} (hs : List.Forall₂ R ts ts') (h : R t t') :
      Alike R (.function ts t) (.function ts' t')

structure Sketch.Alike (R : Entity → Entity → Prop) (k k' : Sketch) : Prop where
  isValue_eq : k'.isValue = k.isValue
  shape : Option.Rel (Shape.Alike R) k.shape k'.shape
  members : ∀ name, Option.Rel R (k.members name) (k'.members name)
  type : Option.Rel R k.type k'.type

/-- What names mean goes together, and so does what is made of entities that go together. -/
structure World.Alike (R : Entity → Entity → Prop) (W W' : World) : Prop where
  biUnique : Relator.BiUnique R
  name_eq : ∀ {t t'}, R t t' → W'.name t' = W.name t
  sketch? : ∀ {t t'}, R t t' → Option.Rel (Sketch.Alike R) (W.sketch? t) (W'.sketch? t')
  pointerTo : ∀ {t t'}, R t t' → R (W.pointerTo t) (W'.pointerTo t')
  global? : ∀ name, Option.Rel R (W.global? name) (W'.global? name)

structure Local.Alike (R : Entity → Entity → Prop) (l l' : Local) : Prop where
  name_eq : l'.name = l.name
  node : R (.declared l.node) (.declared l'.node)

abbrev Locals.Alike (R : Entity → Entity → Prop) : Locals → Locals → Prop :=
  List.Forall₂ (List.Forall₂ (Local.Alike R))

theorem Locals.Alike.lookup? {Γ Γ' : Locals} (h : Γ.Alike R Γ') (name : String) :
    Option.Rel (Local.Alike R) (Γ.lookup? name) (Γ'.lookup? name) := by
  have hscope : ∀ {scope scope' : List Local}, List.Forall₂ (Local.Alike R) scope scope' →
      Option.Rel (Local.Alike R) (scope.find? (·.name == name)) (scope'.find? (·.name == name)) := by
    intro scope scope' hscope
    induction hscope with
    | nil => exact .none
    | cons hl _ ih =>
      rw [List.find?_cons, List.find?_cons, hl.name_eq]
      split
      · exact .some hl
      · exact ih
  induction h with
  | nil => exact .none
  | @cons scope scope' _ _ hfirst _ ih =>
    rw [Locals.lookup?, Locals.lookup?, List.findSome?_cons, List.findSome?_cons]
    have hfirst := hscope hfirst
    generalize scope.find? (·.name == name) = l, scope'.find? (·.name == name) = l' at hfirst ⊢
    cases hfirst with
    | none => exact ih
    | some hl => exact .some hl

/-! ## Answers -/

/-- The answers go together, and the errors are the same where the second answer is given. -/
structure Found.Alike {α β : Type} (φ : Relocation) (P : α → β → Prop) (m : Found α) (m' : Found β) :
    Prop where
  answer : P m.answer m'.answer
  errors_eq : m'.errors = m.errors.map (SemanticError.move φ)

namespace Found.Alike

variable {α β γ δ : Type} {P : α → β → Prop} {Q : γ → δ → Prop}

theorem pure {x : α} {y : β} (h : P x y) :
    Found.Alike φ P (Pure.pure x) (Pure.pure y) := ⟨h, rfl⟩

theorem bind {m : Found α} {m' : Found β} {f : α → Found γ} {f' : β → Found δ} (h : m.Alike φ P m')
    (hf : ∀ {x y}, P x y → (f x).Alike φ Q (f' y)) : (m >>= f).Alike φ Q (m' >>= f') where
  answer := (hf h.answer).answer
  errors_eq := by
    rw [errors_bind, errors_bind, h.errors_eq, (hf h.answer).errors_eq, List.map_append]

theorem fail {P : Option α → Option β → Prop} (h : P none none) {e e' : SemanticError}
    (he : e' = e.move φ) : Found.Alike φ P ⟨none, [e]⟩ ⟨none, [e']⟩ := ⟨h, by rw [he]; rfl⟩

theorem report {e e' : SemanticError} (he : e' = e.move φ) :
    (Found.report e).Alike φ (fun _ _ => True) (Found.report e') := ⟨trivial, by rw [he]; rfl⟩

theorem withType {x x' : Option Entity} (hx : Option.Rel R x x')
    {rule rule' : Entity → Found (Option Entity)}
    (h : ∀ {t t'}, R t t' → (rule t).Alike φ (Option.Rel R) (rule' t')) :
    (Found.withType x rule).Alike φ (Option.Rel R) (Found.withType x' rule') := by
  cases hx with
  | none => exact pure .none
  | some ht => exact h ht

end Found.Alike

namespace World.Alike

variable {W W' : World} (h : W.Alike R W') {t t' u u' : Entity}

include h

/-! ## Types -/

theorem eq_iff (ht : R t t') (hu : R u u') : t' = u' ↔ t = u := by
  constructor
  · rintro rfl
    exact h.biUnique.1 ht hu
  · rintro rfl
    exact h.biUnique.2 ht hu

theorem beq_eq (ht : R t t') (hu : R u u') : (t' == u') = (t == u) :=
  Bool.eq_iff_iff.2 (by simpa using h.eq_iff ht hu)

theorem list_eq_iff {ts ts' us us' : List Entity} (hts : List.Forall₂ R ts ts')
    (hus : List.Forall₂ R us us') : ts' = us' ↔ ts = us := by
  constructor
  · rintro rfl
    exact List.left_unique_forall₂' h.biUnique.1 hts hus
  · rintro rfl
    exact List.right_unique_forall₂' h.biUnique.2 hts hus

theorem map_name_eq {ts ts' : List Entity} (hts : List.Forall₂ R ts ts') :
    ts'.map W'.name = ts.map W.name := by
  induction hts with
  | nil => rfl
  | cons ht _ ih => rw [List.map_cons, List.map_cons, h.name_eq ht, ih]

theorem shape? (ht : R t t') : Option.Rel (Shape.Alike R) (W.shape? t) (W'.shape? t') := by
  have hsketch := h.sketch? ht
  rw [World.shape?, World.shape?]
  generalize W.sketch? t = k, W'.sketch? t' = k' at hsketch ⊢
  cases hsketch with
  | none => exact .none
  | some hk => exact hk.shape

theorem typeNamed? (name : String) : Option.Rel R (W.typeNamed? name) (W'.typeNamed? name) := by
  have hglobal := h.global? name
  rw [World.typeNamed?, World.typeNamed?]
  generalize W.global? name = x, W'.global? name = x' at hglobal ⊢
  cases hglobal with
  | none => exact .none
  | @some t t' ht =>
    have hshape := h.shape? ht
    rw [Option.filter_some, Option.filter_some]
    generalize W.shape? t = s, W'.shape? t' = s' at hshape ⊢
    cases hshape with
    | none => exact .none
    | some _ => exact .some ht

theorem pointers (ht : R t t') (depth : Nat) : R (W.pointers t depth) (W'.pointers t' depth) := by
  induction depth generalizing t t' with
  | zero => exact ht
  | succ depth ih => exact ih (h.pointerTo ht)

/-- Types that are written alike are alike. -/
theorem written?_of_text {written written' : WrittenType} (htext : written'.text = written.text) :
    Option.Rel R (W.written? written) (W'.written? written') := by
  obtain ⟨hname, hstars⟩ := Prod.mk.inj htext
  have htype := h.typeNamed? written.name.name
  rw [World.written?, World.written?, hname, hstars]
  generalize W.typeNamed? written.name.name = x, W'.typeNamed? written.name.name = x' at htype ⊢
  cases htype with
  | none => exact .none
  | some ht => exact .some (h.pointers ht _)

theorem written? (written : WrittenType) :
    Option.Rel R (W.written? written) (W'.written? (written.move φ)) :=
  h.written?_of_text rfl

/-! ## Predicates -/

theorem isPointer_eq (ht : R t t') : W'.isPointer t' = W.isPointer t := by
  have hshape := h.shape? ht
  rw [World.isPointer, World.isPointer]
  generalize W.shape? t = s, W'.shape? t' = s' at hshape ⊢
  cases hshape with
  | none => rfl
  | some hs => cases hs <;> rfl

theorem pointee? (ht : R t t') : Option.Rel R (W.pointee? t) (W'.pointee? t') := by
  have hshape := h.shape? ht
  rw [World.pointee?, World.pointee?]
  generalize W.shape? t = s, W'.shape? t' = s' at hshape ⊢
  cases hshape with
  | none => exact .none
  | some hs =>
    cases hs with
    | pointer hp => exact .some hp
    | primitive | classType | function => exact .none

theorem isFunction_eq (ht : R t t') : W'.isFunction t' = W.isFunction t := by
  have hshape := h.shape? ht
  rw [World.isFunction, World.isFunction]
  generalize W.shape? t = s, W'.shape? t' = s' at hshape ⊢
  cases hshape with
  | none => rfl
  | some hs => cases hs <;> rfl

theorem isHeld_eq (ht : R t t') : W'.isHeld t' = W.isHeld t := by
  have hshape := h.shape? ht
  rw [World.isHeld, World.isHeld]
  generalize W.shape? t = s, W'.shape? t' = s' at hshape ⊢
  cases hshape with
  | none => rfl
  | some hs => cases hs <;> rfl

theorem isBuiltin_eq (ht : R t t') (builtin : BuiltinType) :
    W'.isBuiltin t' builtin.name = W.isBuiltin t builtin.name := by
  have hglobal := h.global? builtin.name
  rw [World.isBuiltin, World.isBuiltin]
  generalize W.global? builtin.name = x, W'.global? builtin.name = x' at hglobal ⊢
  cases hglobal with
  | none => rfl
  | some hu => exact h.beq_eq hu ht

theorem isInteger_eq (ht : R t t') : W'.isInteger t' = W.isInteger t := h.isBuiltin_eq ht .integer

theorem isNumeric_eq (ht : R t t') : W'.isNumeric t' = W.isNumeric t := by
  have hbyte := h.isBuiltin_eq ht .byte
  have hinteger := h.isBuiltin_eq ht .integer
  have hfloat := h.isBuiltin_eq ht .float
  simp only [BuiltinType.name] at hbyte hinteger hfloat
  simp only [World.isNumeric, List.any_cons, List.any_nil, hbyte, hinteger, hfloat]

theorem isBooleanOrPointer_eq (ht : R t t') :
    W'.isBooleanOrPointer t' = W.isBooleanOrPointer t := by
  have hboolean := h.isBuiltin_eq ht .boolean
  rw [BuiltinType.name] at hboolean
  rw [World.isBooleanOrPointer, World.isBooleanOrPointer, hboolean, h.isPointer_eq ht]

theorem isNullPointer_eq (ht : R t t') : W'.isNullPointer t' = W.isNullPointer t := by
  have hpointee := h.pointee? ht
  rw [World.isNullPointer, World.isNullPointer]
  generalize W.pointee? t = p, W'.pointee? t' = p' at hpointee ⊢
  cases hpointee with
  | none => rfl
  | some hp => exact h.isBuiltin_eq hp .null

theorem sameNumeric_eq (ht : R t t') (hu : R u u') :
    W'.sameNumeric t' u' = W.sameNumeric t u := by
  rw [World.sameNumeric, World.sameNumeric, h.beq_eq ht hu, h.isNumeric_eq ht]

theorem castIsValid_eq (ht : R t t') (hu : R u u') :
    W'.castIsValid t' u' = W.castIsValid t u := by
  have hboolean := h.isBuiltin_eq hu .boolean
  rw [BuiltinType.name] at hboolean
  simp only [World.castIsValid, h.isFunction_eq ht, h.isFunction_eq hu, h.isPointer_eq ht,
    h.isPointer_eq hu, h.isHeld_eq ht, h.isHeld_eq hu, h.isInteger_eq ht, h.isInteger_eq hu, hboolean]

/-! ## Rules -/

theorem builtin (type : BuiltinType) (span : Span) :
    (W.builtin type.name span).Alike φ (Option.Rel R) (W'.builtin type.name (φ.span span)) := by
  have htype := h.typeNamed? type.name
  rw [World.builtin, World.builtin]
  generalize W.typeNamed? type.name = x, W'.typeNamed? type.name = x' at htype ⊢
  cases htype with
  | none => exact .fail .none rfl
  | some ht => exact .pure (.some ht)

theorem pointerToBuiltin (type : BuiltinType) (span : Span) :
    (W.pointerToBuiltin type.name span).Alike φ (Option.Rel R)
      (W'.pointerToBuiltin type.name (φ.span span)) :=
  (h.builtin type span).bind fun hx => by
    cases hx with
    | none => exact .pure .none
    | some ht => exact .pure (.some (h.pointerTo ht))

theorem meaning? {Γ Γ' : Locals} (hΓ : Γ.Alike R Γ') (name : String) :
    Option.Rel R (W.meaning? Γ name) (W'.meaning? Γ' name) := by
  have hlookup := hΓ.lookup? name
  rw [World.meaning?, World.meaning?]
  generalize Γ.lookup? name = l, Γ'.lookup? name = l' at hlookup ⊢
  cases hlookup with
  | some hl => exact .some hl.node
  | none =>
    have hglobal := h.global? name
    dsimp only
    generalize W.global? name = x, W'.global? name = x' at hglobal ⊢
    cases hglobal with
    | none => exact .none
    | @some t t' ht =>
      have hsketch := h.sketch? ht
      rw [Option.filter_some, Option.filter_some]
      generalize W.sketch? t = k, W'.sketch? t' = k' at hsketch ⊢
      cases hsketch with
      | none => exact .none
      | some hk =>
        rw [Option.any_some, Option.any_some, hk.isValue_eq]
        split
        · exact .some ht
        · exact .none

theorem type_sketch? (ht : R t t') :
    Option.Rel R ((W.sketch? t).bind Sketch.type) ((W'.sketch? t').bind Sketch.type) := by
  have hsketch := h.sketch? ht
  generalize W.sketch? t = k, W'.sketch? t' = k' at hsketch ⊢
  cases hsketch with
  | none => exact .none
  | some hk => exact hk.type

theorem typeIdentifier {Γ Γ' : Locals} (hΓ : Γ.Alike R Γ') (name : Ident) :
    (W.typeIdentifier Γ name).Alike φ (Option.Rel R) (W'.typeIdentifier Γ' (name.move φ)) := by
  have hmeaning := h.meaning? hΓ name.name
  rw [World.typeIdentifier, World.typeIdentifier, Ident.move_name]
  generalize W.meaning? Γ name.name = x, W'.meaning? Γ' name.name = x' at hmeaning ⊢
  cases hmeaning with
  | none => exact .fail .none rfl
  | some ht => exact .pure (h.type_sketch? ht)

theorem typeValue {Γ Γ' : Locals} (hΓ : Γ.Alike R Γ') (place : Place) (v : Value) :
    (W.typeValue Γ place v).Alike φ (Option.Rel R) (W'.typeValue Γ' (place.move φ) (v.move φ)) := by
  cases v with
  | integer => exact h.builtin .integer _
  | float => exact h.builtin .float _
  | boolean => exact h.builtin .boolean _
  | character => exact h.builtin .byte _
  | string => exact h.pointerToBuiltin .byte _
  | null => exact h.pointerToBuiltin .null _
  | identifier name => exact h.typeIdentifier hΓ name

theorem unary? (ht : R t t') (op : UnaryOp) (span : Span) :
    Option.Rel (Found.Alike φ (Option.Rel R)) (W.unary? op t span)
      (W'.unary? op t' (φ.span span)) := by
  cases op with
  | deref =>
    have hpointee := h.pointee? ht
    rw [World.unary?, World.unary?]
    generalize W.pointee? t = p, W'.pointee? t' = p' at hpointee ⊢
    cases hpointee with
    | none => exact .none
    | some hp => exact .some (.pure (.some hp))
  | plus | negate =>
    rw [World.unary?, World.unary?, h.isNumeric_eq ht]
    split
    · exact .some (.pure (.some ht))
    · exact .none
  | increment | decrement =>
    rw [World.unary?, World.unary?, h.isNumeric_eq ht, h.isPointer_eq ht]
    split
    · exact .some (.pure (.some ht))
    · exact .none
  | not =>
    rw [World.unary?, World.unary?, h.isBooleanOrPointer_eq ht]
    split
    · exact .some (h.builtin .boolean span)
    · exact .none
  | addressOf => exact .some (.pure (.some (h.pointerTo ht)))

theorem binary? (ht : R t t') (hu : R u u') (op : BinaryOp) (span : Span) :
    Option.Rel (Found.Alike φ (Option.Rel R)) (W.binary? op t u span)
      (W'.binary? op t' u' (φ.span span)) := by
  have hsame := h.sameNumeric_eq ht hu
  have hleft : Found.Alike φ (Option.Rel R) (pure (some t)) (pure (some t')) := .pure (.some ht)
  cases op with
  | add =>
    rw [World.binary?, World.binary?, hsame, h.isPointer_eq ht, h.isPointer_eq hu, h.isInteger_eq ht,
      h.isInteger_eq hu]
    split
    · exact .some hleft
    · split
      · exact .some (.pure (.some hu))
      · exact .none
  | sub =>
    rw [World.binary?, World.binary?, hsame, h.isPointer_eq ht, h.isPointer_eq hu, h.isInteger_eq hu]
    split
    · exact .some hleft
    · split
      · exact .some (h.builtin .integer span)
      · exact .none
  | mul | div | mod =>
    rw [World.binary?, World.binary?, hsame]
    split
    · exact .some hleft
    · exact .none
  | or | and =>
    rw [World.binary?, World.binary?, h.isBooleanOrPointer_eq ht, h.isBooleanOrPointer_eq hu]
    split
    · exact .some (h.builtin .boolean span)
    · exact .none
  | less | greater | lessEqual | greaterEqual | equal | notEqual =>
    exact .some (h.builtin .boolean span)
  | assign =>
    rw [World.binary?, World.binary?, h.beq_eq ht hu, h.isFunction_eq hu]
    split
    · exact .some hleft
    · exact .none
  | addAssign | subAssign | mulAssign | divAssign | modAssign => exact .none

theorem typeUnary (ht : R t t') (op : UnaryOp) (span : Span) :
    (W.typeUnary span op t).Alike φ (Option.Rel R) (W'.typeUnary (φ.span span) op t') := by
  have hunary : Option.Rel (Found.Alike φ (Option.Rel R)) _ _ := h.unary? ht op span
  rw [World.typeUnary, World.typeUnary, h.name_eq ht]
  generalize W.unary? op t span = x, W'.unary? op t' (φ.span span) = x' at hunary ⊢
  cases hunary with
  | none => exact .fail .none rfl
  | some hx => exact hx

theorem binaryResult (ht : R t t') (hu : R u u') (op : BinaryOp) (span : Span)
    {x x' : Option Entity} (hx : Option.Rel R x x') :
    (W.binaryResult span op t u x).Alike φ (Option.Rel R)
      (W'.binaryResult (φ.span span) op t' u' x') := by
  rw [World.binaryResult, World.binaryResult, h.name_eq ht, h.name_eq hu]
  cases hx with
  | none => exact .fail .none rfl
  | @some v v' hx =>
    rw [Option.filter_some, Option.filter_some, h.beq_eq hx ht]
    by_cases hassign : (op.compound?.isNone || v == t) = true
    · rw [if_pos hassign, if_pos hassign]
      exact .pure (.some hx)
    · rw [if_neg hassign, if_neg hassign]
      exact .fail .none rfl

theorem typeBinary (ht : R t t') (hu : R u u') (op : BinaryOp) (span : Span) :
    (W.typeBinary span op t u).Alike φ (Option.Rel R) (W'.typeBinary (φ.span span) op t' u') := by
  have hbinary : Option.Rel (Found.Alike φ (Option.Rel R)) _ _ :=
    h.binary? ht hu (op.compound?.getD op) span
  refine Found.Alike.bind (P := Option.Rel R) ?_ fun hx => h.binaryResult ht hu op span hx
  generalize W.binary? _ t u span = x, W'.binary? _ t' u' (φ.span span) = x' at hbinary ⊢
  cases hbinary with
  | none => exact .pure .none
  | some hx => exact hx

/-- Whether an entity is a class. -/
theorem class? {x x' : Option Entity} (hx : Option.Rel R x x') :
    Option.Rel (Sketch.Alike R)
      ((x.bind W.sketch?).filter fun k =>
        match k.shape with
        | some .classType => true
        | _ => false)
      ((x'.bind W'.sketch?).filter fun k =>
        match k.shape with
        | some .classType => true
        | _ => false) := by
  cases hx with
  | none => exact .none
  | @some t t' ht =>
    have hsketch := h.sketch? ht
    rw [Option.bind_some, Option.bind_some]
    generalize W.sketch? t = k, W'.sketch? t' = k' at hsketch ⊢
    cases hsketch with
    | none => exact .none
    | @some k k' hk =>
      have hshape := hk.shape
      rw [Option.filter_some, Option.filter_some]
      generalize k.shape = s, k'.shape = s' at hshape ⊢
      cases hshape with
      | none => exact .none
      | some hs =>
        cases hs with
        | classType => exact .some hk
        | primitive | pointer | function => exact .none

theorem owner? (ht : R t t') (kind : AccessKind) :
    Option.Rel (Sketch.Alike R) (W.owner? kind t) (W'.owner? kind t') := by
  cases kind with
  | dot => exact h.class? (.some ht)
  | arrow => exact h.class? (h.pointee? ht)

theorem typeAccess (ht : R t t') (place : Place) (kind : AccessKind) (member : Ident) :
    (W.typeAccess place kind t member).Alike φ (Option.Rel R)
      (W'.typeAccess (place.move φ) kind t' (member.move φ)) := by
  have howner := h.owner? ht kind
  rw [World.typeAccess, World.typeAccess, h.name_eq ht, Ident.move_name]
  generalize W.owner? kind t = k, W'.owner? kind t' = k' at howner ⊢
  cases howner with
  | none => exact .fail .none rfl
  | @some k k' hk =>
    have hmember := hk.members member.name
    dsimp only
    generalize k.members member.name = m, k'.members member.name = m' at hmember ⊢
    cases hmember with
    | none => exact .fail .none rfl
    | some hm => exact .pure (h.type_sketch? hm)

theorem compareArguments (ht : R t t') (span : Span) {xs xs' : List (Option Entity)}
    (hxs : List.Forall₂ (Option.Rel R) xs xs') {ps ps' : List Entity} (hps : List.Forall₂ R ps ps') :
    (W.compareArguments span t xs ps).Alike φ (fun _ _ => True)
      (W'.compareArguments (φ.span span) t' xs' ps') := by
  have harguments := rel_mapM hxs
  rw [World.compareArguments, World.compareArguments]
  generalize (List.mapM id xs : Option (List Entity)) = ys,
    (List.mapM id xs' : Option (List Entity)) = ys' at harguments ⊢
  cases harguments with
  | none => exact .pure trivial
  | @some ys ys' hys =>
    dsimp only
    rw [h.name_eq ht, h.map_name_eq hys]
    by_cases heq : ys = ps
    · rw [if_neg (not_not.2 heq), if_neg (not_not.2 ((h.list_eq_iff hys hps).2 heq))]
      exact .pure trivial
    · rw [if_pos heq, if_pos (mt (h.list_eq_iff hys hps).1 heq)]
      exact .report rfl

theorem typeCall (ht : R t t') (span calleeSpan : Span) {xs xs' : List (Option Entity)}
    (hxs : List.Forall₂ (Option.Rel R) xs xs') :
    (W.typeCall span calleeSpan t xs).Alike φ (Option.Rel R)
      (W'.typeCall (φ.span span) (φ.span calleeSpan) t' xs') := by
  have hshape := h.shape? ht
  rw [World.typeCall, World.typeCall]
  generalize W.shape? t = s, W'.shape? t' = s' at hshape ⊢
  cases hshape with
  | none => exact .fail .none (by rw [h.name_eq ht]; rfl)
  | some hs =>
    cases hs with
    | function hps hr =>
      exact (h.compareArguments ht span hxs hps).bind fun _ => .pure (.some hr)
    | primitive | classType | pointer => exact .fail .none (by rw [h.name_eq ht]; rfl)

theorem typeCast (ht : R t t') (hu : R u u') (span : Span) :
    (W.typeCast span t u).Alike φ (Option.Rel R) (W'.typeCast (φ.span span) t' u') := by
  rw [World.typeCast, World.typeCast, h.castIsValid_eq ht hu, h.name_eq ht, h.name_eq hu]
  split
  · exact .pure (.some hu)
  · exact .fail .none rfl

theorem typeIndex (ht : R t t') (hu : R u u') (span : Span) :
    (W.typeIndex span t u).Alike φ (Option.Rel R) (W'.typeIndex (φ.span span) t' u') := by
  have hpointee := h.pointee? ht
  rw [World.typeIndex, World.typeIndex, h.isInteger_eq hu, h.name_eq ht, h.name_eq hu]
  generalize W.pointee? t = p, W'.pointee? t' = p' at hpointee ⊢
  cases hpointee with
  | none => exact .fail .none rfl
  | some hp =>
    cases W.isInteger u with
    | true => exact .pure (.some hp)
    | false => exact .fail .none rfl

end World.Alike

/-! ## Expressions -/

namespace World.Alike

variable {W W' : World} {Γ Γ' : Locals}

mutual

/-- An expression has types that go together, and the same errors. -/
theorem typeExpr (h : W.Alike R W') (hΓ : Γ.Alike R Γ') : (e : Expr) →
    (W.typeExpr Γ e).Alike φ (Option.Rel R) (W'.typeExpr Γ' (e.move φ))
  | .value place v => by
    rw [Expr.move, World.typeExpr, World.typeExpr]
    exact h.typeValue hΓ place v
  | .unary place op operand => by
    rw [Expr.move, World.typeExpr, World.typeExpr]
    exact (typeExpr h hΓ operand).bind fun hx =>
      .withType hx fun ht => h.typeUnary ht op place.span
  | .binary place op left right => by
    rw [Expr.move, World.typeExpr, World.typeExpr]
    exact (typeExpr h hΓ left).bind fun hx =>
      (typeExpr h hΓ right).bind fun hy =>
        .withType hx fun ht => .withType hy fun hu => h.typeBinary ht hu op place.span
  | .access place kind object member => by
    rw [Expr.move, World.typeExpr, World.typeExpr]
    exact (typeExpr h hΓ object).bind fun hx =>
      .withType hx fun ht => h.typeAccess ht place kind member
  | .call place callee arguments => by
    rw [Expr.move, World.typeExpr, World.typeExpr, Expr.move_span]
    exact (typeExpr h hΓ callee).bind fun hx =>
      (typeExprs h hΓ arguments).bind fun hxs =>
        .withType hx fun ht => h.typeCall ht place.span callee.span hxs
  | .cast place operand target => by
    rw [Expr.move, World.typeExpr, World.typeExpr]
    exact (typeExpr h hΓ operand).bind fun hx =>
      .withType hx fun ht => .withType (h.written? target) fun hu => h.typeCast ht hu place.span
  | .index place target subscript => by
    rw [Expr.move, World.typeExpr, World.typeExpr]
    exact (typeExpr h hΓ target).bind fun hx =>
      (typeExpr h hΓ subscript).bind fun hy =>
        .withType hx fun ht => .withType hy fun hu => h.typeIndex ht hu place.span

theorem typeExprs (h : W.Alike R W') (hΓ : Γ.Alike R Γ') : (es : List Expr) →
    (W.typeExprs Γ es).Alike φ (List.Forall₂ (Option.Rel R)) (W'.typeExprs Γ' (Expr.moveAll φ es))
  | [] => by
    rw [Expr.moveAll, World.typeExprs, World.typeExprs]
    exact .pure .nil
  | e :: es => by
    rw [Expr.moveAll, World.typeExprs, World.typeExprs]
    exact (typeExpr h hΓ e).bind fun hx =>
      (typeExprs h hΓ es).bind fun hxs => .pure (.cons hx hxs)

end

end World.Alike

/-! ## Checks -/

/-- The same check elsewhere. What is known there goes together with what is known here. -/
inductive Check.Alike (R : Entity → Entity → Prop) (φ : Relocation) : Check → Check → Prop
  | expr {Γ Γ' : Locals} (hΓ : Γ.Alike R Γ') {e : Expr} :
      Alike R φ (.expr Γ e) (.expr Γ' (e.move φ))
  | condition {Γ Γ' : Locals} (hΓ : Γ.Alike R Γ') {e : Expr} :
      Alike R φ (.condition Γ e) (.condition Γ' (e.move φ))
  | initializer {Γ Γ' : Locals} (hΓ : Γ.Alike R Γ') {τ : Ty} {e : Expr} :
      Alike R φ (.initializer Γ τ e) (.initializer Γ' τ (e.move φ))
  | returns {Γ Γ' : Locals} (hΓ : Γ.Alike R Γ') {place : Place} {τ : Ty} {value : Option Expr} :
      Alike R φ (.returns place Γ τ value) (.returns (place.move φ) Γ' τ (value.map (Expr.move φ)))
  | loopControl {place : Place} {inLoop : Bool} :
      Alike R φ (.loopControl place inLoop) (.loopControl (place.move φ) inLoop)
  | goto {place : Place} {labels : List String} {label : Ident} :
      Alike R φ (.goto place labels label) (.goto (place.move φ) labels (label.move φ))

namespace World.Alike

variable {W W' : World} (h : W.Alike R W') {t t' : Entity}

include h

theorem ofTy? : (τ : Ty) → Option.Rel R (W.ofTy? τ) (W'.ofTy? τ)
  | .builtin t => h.typeNamed? t.name
  | .classType name => h.typeNamed? name
  | .pointer τ => by
    have hpointee := ofTy? τ
    rw [World.ofTy?, World.ofTy?]
    generalize W.ofTy? τ = x, W'.ofTy? τ = x' at hpointee ⊢
    cases hpointee with
    | none => exact .none
    | some ht => exact .some (h.pointerTo ht)
  | .function .. => .none

theorem mismatch (ht : R t t') {x x' : Option Entity} (hx : Option.Rel R x x') (span : Span) :
    (W.mismatch t x span).Alike φ (fun _ _ => True) (W'.mismatch t' x' (φ.span span)) := by
  have hname : x'.map W'.name = x.map W.name := by
    cases hx with
    | none => rfl
    | some hx => exact congrArg some (h.name_eq hx)
  rw [World.mismatch, World.mismatch, h.name_eq ht, hname]
  exact .report rfl

theorem compareInitializer {x x' y y' : Option Entity} (hx : Option.Rel R x x') (e : Expr)
    (hy : Option.Rel R y y') : (W.compareInitializer x e y).Alike φ (fun _ _ => True)
      (W'.compareInitializer x' (e.move φ) y') := by
  cases hx with
  | none => exact .pure trivial
  | @some t t' ht =>
    cases hy with
    | none => exact .pure trivial
    | @some u u' hu =>
      simp only [World.compareInitializer, h.isPointer_eq ht, h.isNullPointer_eq hu, ne_eq,
        h.eq_iff hu ht, Expr.move_span]
      split
      · exact h.mismatch ht (.some hu) e.span
      · exact .pure trivial

theorem compareCondition (e : Expr) {x x' : Option Entity} (hx : Option.Rel R x x') :
    (W.compareCondition e x).Alike φ (fun _ _ => True) (W'.compareCondition (e.move φ) x') := by
  cases hx with
  | none => exact .pure trivial
  | some ht =>
    rw [World.compareCondition, World.compareCondition, h.isBooleanOrPointer_eq ht, h.name_eq ht,
      Expr.move_span]
    split
    · exact .pure trivial
    · exact .report rfl

theorem compareReturn (place : Place) {x x' y y' : Option Entity} (hx : Option.Rel R x x')
    (value : Option Expr) (hy : Option.Rel R y y') :
    (W.compareReturn place x value y).Alike φ (fun _ _ => True)
      (W'.compareReturn (place.move φ) x' (value.map (Expr.move φ)) y') := by
  cases hx with
  | none => exact .pure trivial
  | @some t t' ht =>
    cases value with
    | none =>
      rw [Option.map_none, World.compareReturn, World.compareReturn]
      have hvoid := h.isBuiltin_eq ht .void
      rw [BuiltinType.name] at hvoid
      rw [hvoid]
      split
      · exact .pure trivial
      · exact h.mismatch ht .none place.span
    | some e =>
      cases hy with
      | none => exact .pure trivial
      | @some u u' hu =>
        simp only [Option.map_some, World.compareReturn, ne_eq, h.eq_iff hu ht, Expr.move_span]
        split
        · exact h.mismatch ht (.some hu) e.span
        · exact .pure trivial

/-- The same is found in a check elsewhere. -/
theorem check {k k' : Check} (hk : k.Alike R φ k') :
    (W.check k).Alike φ (fun _ _ => True) (W'.check k') := by
  cases hk with
  | expr hΓ => exact (h.typeExpr hΓ _).bind fun _ => .pure trivial
  | condition hΓ => exact (h.typeExpr hΓ _).bind fun hx => h.compareCondition _ hx
  | initializer hΓ =>
    exact (h.typeExpr hΓ _).bind fun hx => h.compareInitializer (h.ofTy? _) _ hx
  | @returns Γ Γ' hΓ place τ value =>
    have hvalue : (W.typeOption Γ value).Alike φ (Option.Rel R)
        (W'.typeOption Γ' (value.map (Expr.move φ))) := by
      cases value with
      | none => exact .pure .none
      | some e => exact h.typeExpr hΓ e
    exact hvalue.bind fun hx => h.compareReturn place (h.ofTy? _) value hx
  | @loopControl place inLoop =>
    cases inLoop with
    | true => exact .pure trivial
    | false => exact .report rfl
  | @goto place labels label =>
    rw [World.check, World.check, Ident.move_name]
    split
    · exact .pure trivial
    · exact .report rfl

end World.Alike

end Sable
