import Sable.Proofs.Analysis.Annotating
import Sable.Proofs.Analysis.Portraying

/-!
# The last phase and the world

A step of the last phase finds what is found in the world: it reports the same errors, and its
answer is a symbol that stands for the answer of the world.

## Main definitions

* `Stage.Reflects`: in the last phase, symbols stand for what the world says of them.
* `Stage.Advances`: errors are reported and the types of expressions are noted.
* `Analyzing.Mirrors`: a step that finds what is found in the world.

## Main statements

* `Analyzing.mirrors_typeExpr`: expressions.
* `Block.mirrors_checkBlock`: all checks of a unit.
-/
namespace Sable

open Library (Means Portrays Remembers)

/-! ## States -/

/-- What the last phase of an analysis goes out from, and the world that it is seen in. -/
structure Stage where
  world : World
  ground : Entity → SymbolId → Prop
  unit : Block
  /-- The library in the beginning of the analysis. -/
  library : Library
  start : Context

namespace Stage

variable (S : Stage)

/-- What nodes have of their own in front of the last phase. -/
abbrev row (n : NodeId) : Option SymbolId := S.unit.row S.start n

/-- The variable or function that a node declares. -/
def declared? (n : NodeId) : Option SymbolId := (S.row n).filter S.start.isNamed

/-- What a symbol stands for in the last phase. -/
abbrev Means (c : Context) : Entity → SymbolId → Prop := c.library.Means S.ground S.row

/-- What is right in front of the last phase: names and written types. -/
structure Suits : Prop where
  grounds : S.world.Grounds S.ground S.library
  named : S.unit.Named
  global? : ∀ {name}, S.unit.CanSay name →
    Option.Rel (S.Means S.start) (S.world.global? name) (S.start.globals.get? name)
  written? : ∀ t ∈ S.unit.writtenTypes, Option.Rel (S.Means S.start) (S.world.written? t)
    (S.start.annotations.declaredTypes.get? t.place.id)

/-- In the last phase symbols stand for what the world says of them. -/
structure Reflects (c : Context) : Prop where
  portrays : c.library.Portrays S.world S.ground S.row S.library
  interns : S.start.library.Interns c.library
  remembers : S.start.library.Remembers c.library
  globals_eq : c.globals = S.start.globals
  parents_eq : c.parents = S.start.parents
  declaredTypes_eq : c.annotations.declaredTypes = S.start.annotations.declaredTypes
  symbols_eq : ∀ n ∈ S.unit.tree.preorder, n.kind.isValue = true →
    c.annotations.symbols.get? n.id = S.start.annotations.symbols.get? n.id

/-- These errors are reported, and the types of these expressions are noted. -/
structure Advances (es : List (Locals × Expr)) (errors : List SemanticError) (c c' : Context) :
    Prop where
  reflects : S.Reflects c'
  scopes_eq : c'.scopes = c.scopes
  errors_eq : c'.errors = c.errors ++ errors
  remembers : c.library.Remembers c'.library
  types : ∀ e ∈ es, Option.Rel (S.Means c') (S.world.type? e.1 e.2)
    (c'.annotations.resolvedTypes.get? e.2.id)
  others : ∀ n ∉ es.map fun e => e.2.id,
    c'.annotations.resolvedTypes.get? n = c.annotations.resolvedTypes.get? n

variable {S} {c c' c'' : Context} {es es' : List (Locals × Expr)}
  {errors errors' : List SemanticError}

theorem Means.mono {t : Entity} {x : SymbolId} (hx : S.Means c t x)
    (h : c.library.Remembers c'.library) : S.Means c' t x :=
  Library.Means.mono h (fun h => h) hx

theorem Reflects.frame (h : S.Reflects c) (scopes : ScopeStack SymbolId) (visits : List Visit)
    (errors : List SemanticError) : S.Reflects { c with scopes, visits, errors } :=
  ⟨h.portrays, h.interns, h.remembers, h.globals_eq, h.parents_eq, h.declaredTypes_eq, h.symbols_eq⟩

namespace Advances

theorem refl (h : S.Reflects c) : S.Advances [] [] c c :=
  ⟨h, rfl, (List.append_nil _).symm, .refl _, by simp, fun _ _ => rfl⟩

theorem of_report (h : S.Reflects c) (e : SemanticError) :
    S.Advances [] [e] c { c with errors := c.errors ++ [e] } :=
  ⟨h.frame c.scopes c.visits _, rfl, rfl, .refl _, by simp, fun _ _ => rfl⟩

theorem of_visits (h : S.Reflects c) (visits : List Visit) :
    S.Advances [] [] c { c with visits } :=
  ⟨h.frame c.scopes visits _, rfl, (List.append_nil _).symm, .refl _, by simp, fun _ _ => rfl⟩

theorem trans (h : S.Advances es errors c c') (h' : S.Advances es' errors' c' c'')
    (hdisjoint : ∀ e ∈ es, e.2.id ∉ es'.map fun e => e.2.id) :
    S.Advances (es ++ es') (errors ++ errors') c c'' where
  reflects := h'.reflects
  scopes_eq := h'.scopes_eq.trans h.scopes_eq
  errors_eq := by rw [h'.errors_eq, h.errors_eq, List.append_assoc]
  remembers := h.remembers.trans h'.remembers
  types := by
    rw [List.forall_mem_append]
    refine ⟨fun e he => ?_, h'.types⟩
    rw [h'.others _ (hdisjoint e he)]
    exact rel_mono (fun hx => Means.mono hx h'.remembers) (h.types e he)
  others n hn := by
    rw [List.map_append, List.mem_append, not_or] at hn
    exact (h'.others n hn.2).trans (h.others n hn.1)

theorem of_perm (h : S.Advances es errors c c') (hperm : es.Perm es') :
    S.Advances es' errors c c' where
  reflects := h.reflects
  scopes_eq := h.scopes_eq
  errors_eq := h.errors_eq
  remembers := h.remembers
  types e he := h.types e (hperm.mem_iff.2 he)
  others n hn := h.others n fun hmem => hn ((hperm.map _).mem_iff.1 hmem)

/-- Behind a step without notes. -/
theorem after (h : S.Advances [] errors c c') (h' : S.Advances es errors' c' c'') :
    S.Advances es (errors ++ errors') c c'' :=
  h.trans h' (by simp)

/-- In front of a step without notes. -/
theorem before (h : S.Advances es errors c c') (h' : S.Advances [] errors' c' c'') :
    S.Advances es (errors ++ errors') c c'' := by
  have hboth := h.trans h' (by simp)
  rwa [List.append_nil] at hboth

end Advances

/-! ## Predicates -/

namespace Reflects

variable (hS : S.Suits) (hc : S.Reflects c) {t u : Entity} {x y : SymbolId}

include hS hc

theorem global? {name : String} (hname : S.unit.CanSay name) :
    Option.Rel (S.Means c) (S.world.global? name) (c.globals.get? name) := by
  rw [hc.globals_eq]
  exact rel_mono (fun hx => Means.mono hx hc.remembers) (hS.global? hname)

theorem globalType? {name : String} (hname : S.unit.CanSay name) :
    Option.Rel (S.Means c) (S.world.typeNamed? name) (c.globalType? name) :=
  hc.portrays.toRepresents.rel_filter_isSome hS.grounds (hc.global? hS hname)

theorem written? {t : WrittenType} (ht : t ∈ S.unit.writtenTypes) :
    Option.Rel (S.Means c) (S.world.written? t) (c.annotations.declaredTypes.get? t.place.id) := by
  rw [hc.declaredTypes_eq]
  exact rel_mono (fun hx => Means.mono hx hc.remembers) (hS.written? t ht)

/-- Different symbols stand for different things. -/
theorem eq_iff (hx : S.Means c t x) (hy : S.Means c u y) : x = y ↔ t = u := by
  have hunique := hc.portrays.toRepresents.biUnique hS.grounds
  constructor
  · rintro rfl
    exact hunique.1 hx hy
  · rintro rfl
    exact hunique.2 hx hy

theorem beq_eq (hx : S.Means c t x) (hy : S.Means c u y) : (x == y) = (t == u) := by
  rw [Bool.eq_iff_iff, beq_iff_eq, beq_iff_eq, hc.eq_iff hS hx hy]

theorem nameOf_eq (hx : S.Means c t x) : c.nameOf x = S.world.name t :=
  hc.portrays.toRepresents.nameOf_eq hS.grounds hx

theorem symbol? (hx : S.Means c t x) :
    Option.Rel (Symbol.Fits (S.Means c)) (S.world.sketch? t) (c.symbol? x) :=
  hc.portrays.symbol? hS.grounds hx

/-- The type of a variable or a function. -/
theorem type_eq (hx : S.Means c t x) :
    Option.Rel (S.Means c) ((S.world.sketch? t).bind Sketch.type)
      ((c.symbol? x).bind Symbol.type) := by
  have hfits := hc.symbol? hS hx
  generalize S.world.sketch? t = k, c.symbol? x = s at hfits ⊢
  cases hfits with
  | none => exact .none
  | some hfits => exact hfits.type

theorem shape? (hx : S.Means c t x) : Option.Rel (Shape.Fits (S.Means c)) (S.world.shape? t)
    ((c.type? x).map TypeSymbol.form) := by
  have hfits := hc.symbol? hS hx
  have htype : c.type? x = (c.symbol? x).bind Symbol.type? := rfl
  rw [World.shape?, htype]
  generalize S.world.sketch? t = k, c.symbol? x = s at hfits ⊢
  cases hfits with
  | none => exact .none
  | some hfits => exact hfits.shape

theorem pointee? (hx : S.Means c t x) :
    Option.Rel (S.Means c) (S.world.pointee? t) (c.pointee? x) := by
  have hshape := hc.shape? hS hx
  rw [World.pointee?, Context.pointee?]
  generalize S.world.shape? t = shape, c.type? x = type at hshape ⊢
  cases type with
  | none =>
    cases hshape
    exact .none
  | some type =>
    obtain ⟨form, members⟩ := type
    cases hshape with
    | some hshape =>
      cases hshape with
      | pointer hp => exact .some hp
      | primitive | classType | function => exact .none

theorem isPointer_eq (hx : S.Means c t x) : c.isPointer x = S.world.isPointer t := by
  have hshape := hc.shape? hS hx
  rw [World.isPointer, Context.isPointer, Context.mode?]
  generalize S.world.shape? t = shape, c.type? x = type at hshape ⊢
  cases type with
  | none =>
    cases hshape
    rfl
  | some type =>
    obtain ⟨form, members⟩ := type
    cases hshape with
    | some hshape => cases hshape <;> rfl

theorem isFunction_eq (hx : S.Means c t x) : c.isFunction x = S.world.isFunction t := by
  have hshape := hc.shape? hS hx
  rw [World.isFunction, Context.isFunction, Context.mode?]
  generalize S.world.shape? t = shape, c.type? x = type at hshape ⊢
  cases type with
  | none =>
    cases hshape
    rfl
  | some type =>
    obtain ⟨form, members⟩ := type
    cases hshape with
    | some hshape => cases hshape <;> rfl

theorem isValue_eq (hx : S.Means c t x) : c.isValue x = S.world.isHeld t := by
  have hshape := hc.shape? hS hx
  rw [World.isHeld, Context.isValue]
  generalize S.world.shape? t = shape, c.type? x = type at hshape ⊢
  cases type with
  | none =>
    cases hshape
    rfl
  | some type =>
    obtain ⟨form, members⟩ := type
    cases hshape with
    | some hshape => cases hshape <;> rfl

theorem isBuiltin_eq (hx : S.Means c t x) {name : String} (hname : IsPlainName name) :
    c.isBuiltin x name = S.world.isBuiltin t name := by
  have hglobal := hc.global? hS (.inl hname)
  rw [World.isBuiltin, Context.isBuiltin]
  generalize S.world.global? name = u, c.globals.get? name = y at hglobal ⊢
  cases hglobal with
  | none => rfl
  | some hy => exact hc.beq_eq hS hy hx

theorem isInteger_eq (hx : S.Means c t x) : c.isInteger x = S.world.isInteger t :=
  hc.isBuiltin_eq hS hx (isPlainName_builtin .integer)

theorem isNumeric_eq (hx : S.Means c t x) : c.isNumeric x = S.world.isNumeric t := by
  have hbyte := hc.isBuiltin_eq hS hx (isPlainName_builtin .byte)
  have hinteger := hc.isBuiltin_eq hS hx (isPlainName_builtin .integer)
  have hfloat := hc.isBuiltin_eq hS hx (isPlainName_builtin .float)
  simp only [BuiltinType.name] at hbyte hinteger hfloat
  simp only [Context.isNumeric, World.isNumeric, List.any_cons, List.any_nil, hbyte, hinteger,
    hfloat]

theorem isBooleanOrPointer_eq (hx : S.Means c t x) :
    c.isBooleanOrPointer x = S.world.isBooleanOrPointer t := by
  have hboolean := hc.isBuiltin_eq hS hx (isPlainName_builtin .boolean)
  rw [BuiltinType.name] at hboolean
  rw [Context.isBooleanOrPointer, World.isBooleanOrPointer, hboolean, hc.isPointer_eq hS hx]

theorem isNullPointer_eq (hx : S.Means c t x) : c.isNullPointer x = S.world.isNullPointer t := by
  have hpointee := hc.pointee? hS hx
  rw [Context.isNullPointer, World.isNullPointer]
  generalize S.world.pointee? t = u, c.pointee? x = y at hpointee ⊢
  cases hpointee with
  | none => rfl
  | some hy => exact hc.isBuiltin_eq hS hy (isPlainName_builtin .null)

theorem sameNumeric_eq (hx : S.Means c t x) (hy : S.Means c u y) :
    c.sameNumeric x y = S.world.sameNumeric t u := by
  rw [Context.sameNumeric, World.sameNumeric, hc.beq_eq hS hx hy, hc.isNumeric_eq hS hx]

theorem castIsValid_eq (hx : S.Means c t x) (hy : S.Means c u y) :
    c.castIsValid x y = S.world.castIsValid t u := by
  have hboolean := hc.isBuiltin_eq hS hy (isPlainName_builtin .boolean)
  rw [BuiltinType.name] at hboolean
  simp only [Context.castIsValid, World.castIsValid, hc.isFunction_eq hS hx, hc.isFunction_eq hS hy,
    hc.isPointer_eq hS hx, hc.isPointer_eq hS hy, hc.isValue_eq hS hx, hc.isValue_eq hS hy,
    hc.isInteger_eq hS hx, hc.isInteger_eq hS hy, hboolean]

theorem map_nameOf_eq {ts : List Entity} {xs : List SymbolId}
    (hxs : List.Forall₂ (S.Means c) ts xs) : xs.map c.nameOf = ts.map S.world.name :=
  hc.portrays.toRepresents.map_nameOf_eq hS.grounds hxs

/-- Lists of symbols are compared as what they stand for. -/
theorem list_eq_iff {ts us : List Entity} {xs ys : List SymbolId}
    (hxs : List.Forall₂ (S.Means c) ts xs) (hys : List.Forall₂ (S.Means c) us ys) :
    xs = ys ↔ ts = us := by
  have hunique := hc.portrays.toRepresents.biUnique hS.grounds
  constructor
  · rintro rfl
    exact List.left_unique_forall₂' hunique.1 hxs hys
  · rintro rfl
    exact List.right_unique_forall₂' hunique.2 hxs hys

end Reflects

/-! ## Steps -/

variable {α β γ δ : Type} {R : Context → α → β → Prop} {R' : Context → γ → δ → Prop}

/-- The step finds what is found in the world: it reports the same errors, and the answers are
alike. -/
structure Mirrors (S : Stage) (R : Context → α → β → Prop) (es : List (Locals × Expr))
    (found : Found α) (m : Analyzing β) (c : Context) : Prop where
  advances : S.Advances es found.errors c (m.run c).2
  answer : R (m.run c).2 found.answer (m.run c).1

/-- A symbol stands for the type that is found, if one is. -/
abbrev Answers (S : Stage) (c : Context) : Option Entity → Option SymbolId → Prop :=
  Option.Rel (S.Means c)

theorem Answers.mono {t : Option Entity} {x : Option SymbolId} (h : S.Answers c t x)
    (hremembers : c.library.Remembers c'.library) : S.Answers c' t x :=
  rel_mono (fun hx => Means.mono hx hremembers) h

theorem mirrors_pure (hc : S.Reflects c) {x : α} {y : β} (h : R c x y) :
    S.Mirrors R [] (pure x) (pure y) c := ⟨.refl hc, h⟩

theorem mirrors_report (hc : S.Reflects c) (e : SemanticError) {x : α} {y : β}
    (h : ∀ errors, R { c with errors } x y) : S.Mirrors R [] ⟨x, [e]⟩ (do
      Analyzing.report e
      return y) c := ⟨.of_report hc e, h _⟩

theorem mirrors_get_bind {found : Found α} {m : Context → Analyzing β}
    (h : S.Mirrors R es found (m c) c) : S.Mirrors R es found (get >>= m) c := ⟨h.advances, h.answer⟩

theorem Mirrors.bind {found : Found α} {m : Analyzing β} {f : α → Found γ} {k : β → Analyzing δ}
    (hm : S.Mirrors R es found m c)
    (hk : S.Mirrors R' es' (f found.answer) (k (m.run c).1) (m.run c).2)
    (hdisjoint : ∀ e ∈ es, e.2.id ∉ es'.map fun e => e.2.id) :
    S.Mirrors R' (es ++ es') (found >>= f) (m >>= k) c :=
  ⟨hm.advances.trans hk.advances hdisjoint, hk.answer⟩

/-- In front of a step without notes. -/
theorem Mirrors.bindRule {found : Found α} {m : Analyzing β} {f : α → Found γ}
    {k : β → Analyzing δ} (hm : S.Mirrors R es found m c)
    (hk : S.Mirrors R' [] (f found.answer) (k (m.run c).1) (m.run c).2) :
    S.Mirrors R' es (found >>= f) (m >>= k) c :=
  ⟨hm.advances.before hk.advances, hk.answer⟩

/-! ## Rules -/

section Rules

variable (hS : S.Suits) (hc : S.Reflects c) {t u : Entity} {x y : SymbolId}

include hS hc

omit hS in
theorem mirrors_fail {e : SemanticError} : S.Mirrors S.Answers [] (Found.fail e) (do
    Analyzing.report e
    return none) c :=
  mirrors_report hc e fun _ => .none

theorem mirrors_builtin {name : String} (hname : IsPlainName name) (span : Span) :
    S.Mirrors S.Answers [] (S.world.builtin name span) (Analyzing.builtin name span) c := by
  refine mirrors_get_bind ?_
  have hglobal := hc.globalType? hS (.inl hname)
  rw [World.builtin]
  generalize S.world.typeNamed? name = t, c.globalType? name = x at hglobal ⊢
  cases hglobal with
  | none => exact mirrors_fail hc
  | some hx => exact mirrors_pure hc (.some hx)

theorem mirrors_pointerTo (hx : S.Means c t x) : S.Mirrors S.Answers []
    (pure (some (S.world.pointerTo t))) (some <$> Analyzing.onLibrary (·.pointerTo x)) c := by
  obtain ⟨hportrays, hremembers, hpointer⟩ := hc.portrays.pointerTo hS.grounds hx
  have hinterns := hc.portrays.isApart.interns_pointerTo x
  refine ⟨⟨⟨hportrays, hc.interns.trans hinterns, hc.remembers.trans hremembers, hc.globals_eq,
    hc.parents_eq, hc.declaredTypes_eq, hc.symbols_eq⟩, rfl, (List.append_nil _).symm, hremembers,
    by simp, fun _ _ => rfl⟩, .some hpointer⟩

theorem mirrors_pointerToBuiltin {name : String} (hname : IsPlainName name) (span : Span) :
    S.Mirrors S.Answers [] (S.world.pointerToBuiltin name span)
      (Analyzing.pointerToBuiltin name span) c := by
  have hbuiltin := mirrors_builtin hS hc hname span
  refine hbuiltin.bindRule ?_
  have hanswer := hbuiltin.answer
  have hc' := hbuiltin.advances.reflects
  generalize (S.world.builtin name span).answer = t,
    ((Analyzing.builtin name span).run c).1 = x at hanswer ⊢
  cases hanswer with
  | none => exact mirrors_pure hc' .none
  | some hx => exact mirrors_pointerTo hS hc' hx

/-! Results of operators. -/

/-- What an operator makes of symbols is what it makes of what they stand for. -/
def Results (S : Stage) (span : Span) (c : Context) (found : Found (Option Entity))
    (result : OperatorResult) : Prop :=
  S.Mirrors S.Answers [] found (Analyzing.resultType result span) c

omit hS in
theorem results_same (hx : S.Means c t x) (span : Span) :
    S.Results span c (pure (some t)) (.same x) := mirrors_pure hc (.some hx)

theorem results_boolean (span : Span) :
    S.Results span c (S.world.builtin Library.booleanName span) (.builtin Library.booleanName) :=
  mirrors_builtin hS hc (isPlainName_builtin .boolean) span

theorem rel_unary (hx : S.Means c t x) (op : UnaryOp) (span : Span) :
    Option.Rel (S.Results span c) (S.world.unary? op t span) (c.unaryType? op x) := by
  cases op with
  | deref =>
    have hpointee := hc.pointee? hS hx
    rw [World.unary?, Context.unaryType?]
    generalize S.world.pointee? t = u, c.pointee? x = y at hpointee ⊢
    cases hpointee with
    | none => exact .none
    | some hy => exact .some (results_same hc hy span)
  | plus | negate =>
    rw [World.unary?, Context.unaryType?, hc.isNumeric_eq hS hx]
    split
    · exact .some (results_same hc hx span)
    · exact .none
  | increment | decrement =>
    rw [World.unary?, Context.unaryType?, hc.isNumeric_eq hS hx, hc.isPointer_eq hS hx]
    split
    · exact .some (results_same hc hx span)
    · exact .none
  | not =>
    rw [World.unary?, Context.unaryType?, hc.isBooleanOrPointer_eq hS hx]
    split
    · exact .some (results_boolean hS hc span)
    · exact .none
  | addressOf => exact .some (mirrors_pointerTo hS hc hx)

theorem rel_binary (hx : S.Means c t x) (hy : S.Means c u y) (op : BinaryOp) (span : Span) :
    Option.Rel (S.Results span c) (S.world.binary? op t u span) (c.binaryType? op x y) := by
  have hsame := hc.sameNumeric_eq hS hx hy
  have hleft := hc.isPointer_eq hS hx
  have hright := hc.isPointer_eq hS hy
  have hcondition := hc.isBooleanOrPointer_eq hS hx
  have hcondition' := hc.isBooleanOrPointer_eq hS hy
  have hsame_left := results_same hc hx span
  cases op with
  | add =>
    rw [World.binary?, Context.binaryType?, hsame, hleft, hright, hc.isInteger_eq hS hx,
      hc.isInteger_eq hS hy]
    split
    · exact .some hsame_left
    · split
      · exact .some (results_same hc hy span)
      · exact .none
  | sub =>
    rw [World.binary?, Context.binaryType?, hsame, hleft, hright, hc.isInteger_eq hS hy]
    split
    · exact .some hsame_left
    · split
      · exact .some (mirrors_builtin hS hc (isPlainName_builtin .integer) span)
      · exact .none
  | mul | div | mod =>
    rw [World.binary?, Context.binaryType?, hsame]
    split
    · exact .some hsame_left
    · exact .none
  | or | and =>
    rw [World.binary?, Context.binaryType?, hcondition, hcondition']
    split
    · exact .some (results_boolean hS hc span)
    · exact .none
  | less | greater | lessEqual | greaterEqual | equal | notEqual =>
    exact .some (results_boolean hS hc span)
  | assign =>
    rw [World.binary?, Context.binaryType?, hc.beq_eq hS hx hy, hc.isFunction_eq hS hy]
    split
    · exact .some hsame_left
    · exact .none
  | addAssign | subAssign | mulAssign | divAssign | modAssign => exact .none

theorem mirrors_typeUnary (hx : S.Means c t x) (span : Span) (op : UnaryOp) :
    S.Mirrors S.Answers [] (S.world.typeUnary span op t) (Analyzing.typeUnary span op x) c := by
  refine mirrors_get_bind ?_
  have hresult := rel_unary hS hc hx op span
  rw [World.typeUnary, ← hc.nameOf_eq hS hx]
  generalize S.world.unary? op t span = found, c.unaryType? op x = result at hresult ⊢
  cases hresult with
  | none => exact mirrors_fail hc
  | some hresult => exact hresult

/-- What the operator gives back, unless it cannot be assigned to the left operand. -/
theorem mirrors_binaryResult {c₁ : Context} (hleft : c₁.nameOf x = S.world.name t)
    (hright : c₁.nameOf y = S.world.name u) (hx : S.Means c t x) (span : Span) (op : BinaryOp)
    {v : Option Entity} {z : Option SymbolId} (hz : S.Answers c v z) :
    S.Mirrors S.Answers [] (S.world.binaryResult span op t u v)
      (Analyzing.binaryResult c₁ span op x y z) c := by
  have hfilter : S.Answers c (v.filter fun v => op.compound?.isNone || v == t)
      (z.filter fun z => op.compound?.isNone || z == x) := by
    cases hz with
    | none => exact .none
    | some hz =>
      rw [Option.filter_some, Option.filter_some, hc.beq_eq hS hz hx]
      split
      · exact .some hz
      · exact .none
  rw [World.binaryResult, Analyzing.binaryResult, hleft, hright]
  generalize (v.filter fun v => op.compound?.isNone || v == t) = v,
    (z.filter fun z => op.compound?.isNone || z == x) = z at hfilter ⊢
  cases hfilter with
  | none => exact mirrors_fail hc
  | some hz => exact mirrors_pure hc (.some hz)

omit hS in
theorem mirrors_operatorResult {found : Option (Found (Option Entity))}
    {result : Option OperatorResult} {span : Span}
    (h : Option.Rel (S.Results span c) found result) :
    S.Mirrors S.Answers [] (found.getD (pure none)) (Analyzing.operatorResult result span) c := by
  cases h with
  | none => exact mirrors_pure hc .none
  | some h => exact h

theorem mirrors_typeBinary (hx : S.Means c t x) (hy : S.Means c u y) (span : Span)
    (op : BinaryOp) : S.Mirrors S.Answers [] (S.world.typeBinary span op t u)
      (Analyzing.typeBinary span op x y) c := by
  rw [Analyzing.typeBinary_eq, World.typeBinary]
  refine mirrors_get_bind ?_
  have hresult := mirrors_operatorResult hc
    (rel_binary hS hc hx hy (op.compound?.getD op) span)
  refine hresult.bindRule (mirrors_binaryResult hS hresult.advances.reflects (hc.nameOf_eq hS hx)
    (hc.nameOf_eq hS hy) (Means.mono hx hresult.advances.remembers) span op hresult.answer)

/-! Operands and what is applied to them. -/

/-- A class has the members that are sketched. -/
theorem rel_class {t : Option Entity} {x : Option SymbolId} (hx : S.Answers c t x) :
    Option.Rel (fun (k : Sketch) (type : TypeSymbol) =>
        ∀ n, S.Answers c (k.members n) (type.members.get? n))
      ((t.bind S.world.sketch?).filter fun k =>
        match k.shape with
        | some .classType => true
        | _ => false)
      ((x.bind c.type?).filter fun type => type.mode == .classType) := by
  cases hx with
  | none => exact .none
  | @some t x hx =>
    have hfits := hc.symbol? hS hx
    have htype : c.type? x = (c.symbol? x).bind Symbol.type? := rfl
    rw [Option.bind_some, Option.bind_some, htype]
    generalize S.world.sketch? t = k, c.symbol? x = s at hfits ⊢
    cases hfits with
    | none => exact .none
    | @some k s hfits =>
      rw [Option.bind_some, Option.filter_some]
      have hshape := hfits.shape
      have hmembers := hfits.members
      generalize s.type? = type at hshape hmembers ⊢
      cases type with
      | none =>
        rw [Option.map_none] at hshape
        cases hk : k.shape with
        | none => exact .none
        | some => simp [hk] at hshape
      | some type =>
        rw [Option.filter_some]
        obtain ⟨form, members⟩ := type
        rw [Option.map_some] at hshape
        cases hk : k.shape with
        | none => simp [hk] at hshape
        | some shape =>
          rw [hk] at hshape
          cases hshape with
          | some hshape =>
            cases hshape with
            | classType => exact .some (hmembers _ rfl rfl)
            | primitive | pointer | function => exact .none

theorem rel_owner (hx : S.Means c t x) (kind : AccessKind) :
    Option.Rel (fun (k : Sketch) (type : TypeSymbol) =>
        ∀ n, S.Answers c (k.members n) (type.members.get? n))
      (S.world.owner? kind t)
      (((c.accessed? kind x).bind c.type?).filter fun type => type.mode == .classType) := by
  cases kind with
  | dot => exact rel_class hS hc (.some hx)
  | arrow => exact rel_class hS hc (hc.pointee? hS hx)

theorem mirrors_typeAccess (hx : S.Means c t x) (place : Place) (kind : AccessKind)
    (member : Ident) : S.Mirrors S.Answers [] (S.world.typeAccess place kind t member)
      (Analyzing.typeAccess place kind x member) c := by
  rw [Analyzing.typeAccess_eq]
  refine mirrors_get_bind ?_
  have howner := rel_owner hS hc hx kind
  rw [World.typeAccess, ← hc.nameOf_eq hS hx]
  generalize S.world.owner? kind t = k,
    (((c.accessed? kind x).bind c.type?).filter fun type => type.mode == .classType) = type
    at howner ⊢
  cases howner with
  | none => exact mirrors_fail hc
  | @some k type hmembers =>
    rw [Analyzing.noteAccess]
    dsimp only
    have hmember := hmembers member.name
    generalize k.members member.name = m, type.members.get? member.name = y at hmember ⊢
    cases hmember with
    | none => exact mirrors_fail hc
    | @some m y hy =>
      refine ⟨⟨⟨hc.portrays, hc.interns, hc.remembers, hc.globals_eq, hc.parents_eq,
        hc.declaredTypes_eq, hc.symbols_eq⟩, rfl, (List.append_nil _).symm, .refl _, by simp,
        fun _ _ => rfl⟩, ?_⟩
      exact hc.type_eq hS hy

theorem mirrors_compareArguments (hx : S.Means c t x) (span : Span) {ts : List (Option Entity)}
    {xs : List (Option SymbolId)} (hxs : List.Forall₂ (S.Answers c) ts xs) {us : List Entity}
    {ys : List SymbolId} (hys : List.Forall₂ (S.Means c) us ys) :
    S.Mirrors (fun _ _ _ => True) [] (S.world.compareArguments span t ts us)
      (Analyzing.compareArguments c span x xs ys) c := by
  have harguments := rel_mapM hxs
  rw [World.compareArguments, Analyzing.compareArguments, ← hc.nameOf_eq hS hx]
  generalize ts.mapM id = ts, xs.mapM id = xs at harguments ⊢
  cases harguments with
  | none => exact mirrors_pure hc trivial
  | @some ts xs hxs =>
    dsimp only
    rw [← hc.map_nameOf_eq hS hxs]
    by_cases heq : ts = us
    · rw [if_neg (not_not.2 heq), if_neg (not_not.2 ((hc.list_eq_iff hS hxs hys).2 heq))]
      exact mirrors_pure hc trivial
    · rw [if_pos heq, if_pos (mt (hc.list_eq_iff hS hxs hys).1 heq)]
      exact ⟨.of_report hc _, trivial⟩

theorem mirrors_typeCall (hx : S.Means c t x) (span calleeSpan : Span)
    {ts : List (Option Entity)} {xs : List (Option SymbolId)}
    (hxs : List.Forall₂ (S.Answers c) ts xs) :
    S.Mirrors S.Answers [] (S.world.typeCall span calleeSpan t ts)
      (Analyzing.typeCall span calleeSpan x xs) c := by
  rw [Analyzing.typeCall_eq]
  refine mirrors_get_bind ?_
  have hshape := hc.shape? hS hx
  have hname := hc.nameOf_eq hS hx
  rw [World.typeCall]
  generalize S.world.shape? t = shape, (c.type? x).map TypeSymbol.form = form at hshape ⊢
  have hnonCallable : S.Mirrors S.Answers []
      (Found.fail (.nonCallableType (S.world.name t) calleeSpan)) (do
        Analyzing.report (.nonCallableType (c.nameOf x) calleeSpan)
        return none) c := by
    rw [hname]
    exact mirrors_fail hc
  cases hshape with
  | none => exact hnonCallable
  | some hshape =>
    cases hshape with
    | function hps hr =>
      have hcompare := mirrors_compareArguments hS hc hx span hxs hps
      refine hcompare.bindRule (mirrors_pure hcompare.advances.reflects (.some ?_))
      exact Means.mono hr hcompare.advances.remembers
    | primitive | classType | pointer => exact hnonCallable

theorem mirrors_typeCast (hx : S.Means c t x) (hy : S.Means c u y) (span : Span) :
    S.Mirrors S.Answers [] (S.world.typeCast span t u) (Analyzing.typeCast span x y) c := by
  refine mirrors_get_bind ?_
  rw [World.typeCast, hc.castIsValid_eq hS hx hy, ← hc.nameOf_eq hS hx, ← hc.nameOf_eq hS hy]
  split
  · exact mirrors_pure hc (.some hy)
  · exact mirrors_fail hc

theorem mirrors_typeIndex (hx : S.Means c t x) (hy : S.Means c u y) (span : Span) :
    S.Mirrors S.Answers [] (S.world.typeIndex span t u) (Analyzing.typeIndex span x y) c := by
  refine mirrors_get_bind ?_
  have hpointee := hc.pointee? hS hx
  rw [World.typeIndex, hc.isInteger_eq hS hy, ← hc.nameOf_eq hS hx, ← hc.nameOf_eq hS hy]
  generalize S.world.pointee? t = v, c.pointee? x = z, S.world.isInteger u = isInteger
    at hpointee ⊢
  cases hpointee with
  | none => exact mirrors_fail hc
  | some hz =>
    cases isInteger with
    | true => exact mirrors_pure hc (.some hz)
    | false => exact mirrors_fail hc

end Rules

/-! ## Expressions -/

/-- The scopes show these locals, and of these expressions nothing is noted yet. -/
structure Ready (S : Stage) (Γ : Locals) (es : List Expr) (c : Context) : Prop where
  reflects : S.Reflects c
  shows : c.scopes.Shows S.declared? Γ
  fresh : ∀ e ∈ es, c.annotations.resolvedTypes.get? e.id = none

/-- The expressions at a place. -/
def located (Γ : Locals) (es : List Expr) : List (Locals × Expr) := es.map (Γ, ·)

@[simp] theorem located_append (Γ : Locals) (es es' : List Expr) :
    located Γ (es ++ es') = located Γ es ++ located Γ es' := List.map_append

@[simp] theorem map_id_located (Γ : Locals) (es : List Expr) :
    ((located Γ es).map fun e => e.2.id) = es.map Expr.id := List.map_map

variable {Γ : Locals} {ps ps' : List Expr}

theorem Ready.mono (h : S.Ready Γ ps' c) (hsubset : ps ⊆ ps') : S.Ready Γ ps c :=
  ⟨h.reflects, h.shows, fun e he => h.fresh e (hsubset he)⟩

theorem Ready.advance (h : S.Ready Γ ps' c) (hadvances : S.Advances (located Γ ps) errors c c')
    (hdisjoint : ∀ e ∈ ps', e.id ∉ ps.map Expr.id) : S.Ready Γ ps' c' where
  reflects := hadvances.reflects
  shows := hadvances.scopes_eq ▸ h.shows
  fresh e he := (hadvances.others _ (by simpa using hdisjoint e he)).trans (h.fresh e he)

theorem nodup_left (h : ((ps ++ ps').map Expr.id).Nodup) : (ps.map Expr.id).Nodup := by
  rw [List.map_append] at h
  exact h.of_append_left

theorem nodup_right (h : ((ps ++ ps').map Expr.id).Nodup) : (ps'.map Expr.id).Nodup := by
  rw [List.map_append] at h
  exact h.of_append_right

theorem disjoint_located (h : ((ps ++ ps').map Expr.id).Nodup) :
    ∀ e ∈ located Γ ps, e.2.id ∉ (located Γ ps').map fun e => e.2.id := by
  rw [List.map_append] at h
  intro e he
  obtain ⟨part, hpart, rfl⟩ := List.mem_map.1 he
  rw [map_id_located]
  exact fun hmem => (List.nodup_append'.1 h).2.2 (List.mem_map_of_mem hpart) hmem

/-- Behind the first of two lists of expressions. -/
theorem Ready.behind (h : S.Ready Γ (ps ++ ps') c)
    (hadvances : S.Advances (located Γ ps) errors c c') (hnodup : ((ps ++ ps').map Expr.id).Nodup) :
    S.Ready Γ ps' c' := by
  rw [List.map_append] at hnodup
  refine (h.mono (List.subset_append_right ps ps')).advance hadvances fun e he hmem => ?_
  exact (List.nodup_append'.1 hnodup).2.2 hmem (List.mem_map_of_mem he)

section Expressions

variable (hS : S.Suits) {t : Option Entity} {x : Option SymbolId}

theorem mirrors_withType (hc : S.Reflects c) (hx : S.Answers c t x)
    {f : Entity → Found (Option Entity)} {g : SymbolId → Analyzing (Option SymbolId)}
    (h : ∀ t x, S.Means c t x → S.Mirrors S.Answers [] (f t) (g x) c) :
    S.Mirrors S.Answers [] (Found.withType t f) (Analyzing.withType x g) c := by
  cases hx with
  | none => exact mirrors_pure hc .none
  | some hx => exact h _ _ hx

theorem mirrors_noteType {e : Expr} (hc : S.Reflects c)
    (hrow : c.annotations.resolvedTypes.get? e.id = none) (hx : S.Answers c (S.world.type? Γ e) x) :
    S.Mirrors S.Answers (located Γ [e]) (pure (S.world.type? Γ e)) (Analyzing.noteType e.id x) c := by
  cases x with
  | none =>
    refine ⟨⟨hc, rfl, (List.append_nil _).symm, .refl _, ?_, fun _ _ => rfl⟩, hx⟩
    change ∀ p ∈ [(Γ, e)], _
    rw [List.forall_mem_singleton]
    refine Eq.mpr (congrArg _ ?_) hx
    exact hrow
  | some x =>
    have hget : ∀ n, (c.annotations.resolvedTypes.insert e.id x).get? n =
        if n = e.id then some x else c.annotations.resolvedTypes.get? n :=
      fun n => OrderedMap.get?_insert _ _ _ _
    refine ⟨⟨⟨hc.portrays, hc.interns, hc.remembers, hc.globals_eq, hc.parents_eq,
      hc.declaredTypes_eq, hc.symbols_eq⟩, rfl, (List.append_nil _).symm, .refl _, ?_,
      fun n hn => (hget n).trans (if_neg fun h => hn ?_)⟩, hx⟩
    · change ∀ p ∈ [(Γ, e)], _
      rw [List.forall_mem_singleton]
      exact ((hget e.id).trans (if_pos rfl)).symm ▸ hx
    · simp [h]

/-- The type that a rule finds is noted. -/
theorem mirrors_noting {e : Expr} (hc : S.Ready Γ e.parts c) (hnodup : (e.parts.map Expr.id).Nodup)
    {rule : Analyzing (Option SymbolId)}
    (hrule : ∀ visits, S.Ready Γ e.parts.tail { c with visits } →
      S.Mirrors S.Answers (located Γ e.parts.tail) (S.world.typeExpr Γ e) rule { c with visits }) :
    S.Mirrors S.Answers (located Γ e.parts) (S.world.typeExpr Γ e)
      (Analyzing.noting e.id rule) c := by
  rw [e.parts_eq] at hc hnodup ⊢
  rw [List.map_cons, List.nodup_cons] at hnodup
  obtain ⟨visits, hvisits⟩ : ∃ visits,
      visits = (⟨.typing, e.id, c.scopes.entries⟩ :: c.visits : List Visit) := ⟨_, rfl⟩
  have hmirrors := hrule visits ⟨hc.reflects.frame _ _ _, hc.shows,
    fun e' he' => hc.fresh e' (List.mem_cons_of_mem _ he')⟩
  have hrow : (rule.run { c with visits }).2.annotations.resolvedTypes.get? e.id = none :=
    (hmirrors.advances.others e.id (by simpa using hnodup.1)).trans (hc.fresh e List.mem_cons_self)
  have hboth := hmirrors.bind (f := pure) (mirrors_noteType hmirrors.advances.reflects hrow
    hmirrors.answer) fun p hp => by
      obtain ⟨part, hpart, rfl⟩ := List.mem_map.1 hp
      rw [map_id_located, List.map_singleton, List.mem_singleton]
      exact fun heq => hnodup.1 (heq ▸ List.mem_map_of_mem hpart)
  have hrun : (Analyzing.noting e.id rule).run c =
      (rule >>= Analyzing.noteType e.id).run { c with visits } := by
    rw [Analyzing.noting_eq, hvisits]
    rfl
  have hadvances := (Advances.of_visits hc.reflects visits).after hboth.advances
  rw [Found.errors_bind, Found.errors_pure, List.append_nil, List.nil_append] at hadvances
  refine ⟨?_, ?_⟩
  · rw [hrun]
    exact hadvances.of_perm List.perm_append_comm
  · rw [hrun]
    exact hboth.answer

include hS

/-- Only a variable or a function has a value. -/
theorem mirrors_typeIdentifier (hc : S.Reflects c) (hshows : c.scopes.Shows S.declared? Γ)
    {node : NodeId} {name : Ident} (hname : S.unit.CanSay name.name)
    (hnode : ∀ n ∈ S.unit.tree.preorder, n.kind.isValue = true → n.id ≠ node) :
    S.Mirrors S.Answers [] (S.world.typeIdentifier Γ name) (Analyzing.typeIdentifier node name) c := by
  have hnote : ∀ {y : SymbolId} {u : Entity} {s : Symbol}, S.Means c u y → c.symbol? y = some s →
      S.Mirrors S.Answers [] (pure ((S.world.sketch? u).bind Sketch.type)) (do
        Analyzing.annotate fun a => { a with symbols := a.symbols.insert node y }
        return s.type) c := by
    intro y u s hy hs
    refine ⟨⟨⟨hc.portrays, hc.interns, hc.remembers, hc.globals_eq, hc.parents_eq,
      hc.declaredTypes_eq, fun n hn hkind => ?_⟩, rfl, (List.append_nil _).symm, .refl _, by simp,
      fun _ _ => rfl⟩, ?_⟩
    · refine (OrderedMap.get?_insert _ _ _ _).trans ?_
      rw [if_neg (hnode n hn hkind)]
      exact hc.symbols_eq n hn hkind
    · have htype := hc.type_eq hS hy
      rw [hs] at htype
      exact htype
  refine mirrors_get_bind ?_
  have hlookup : c.lookup? name.name = (c.scopes.lookup? name.name).or
      (c.globals.get? name.name) := by
    rw [Context.lookup?]
    cases c.scopes.lookup? name.name <;> rfl
  rw [World.typeIdentifier, World.meaning?, hlookup, hshows.lookup?_eq]
  cases hl : Γ.lookup? name.name with
  | some l =>
    obtain ⟨y, hy⟩ := Option.isSome_iff_exists.1 (hshows.isSome _ l hl)
    rw [Option.bind_some, hy, Option.some_or]
    obtain ⟨hrow, hnamed⟩ := Option.filter_eq_some_iff.1 hy
    rw [Context.isNamed] at hnamed
    cases hs : S.start.symbol? y with
    | none => simp [hs] at hnamed
    | some s =>
      have hs' : c.symbol? y = some s := hc.interns.symbol?_mono hs
      have hvalue : s.isValue = true := by simpa [hs] using hnamed
      simp only [Option.bind_some, hs', Option.map_some, hvalue, if_true]
      exact hnote (.declared hrow) hs'
  | none =>
    have hglobal := hc.global? hS hname
    rw [Option.bind_none, Option.none_or]
    generalize S.world.global? name.name = u, c.globals.get? name.name = y at hglobal ⊢
    cases hglobal with
    | none => exact mirrors_fail hc
    | @some u y hy =>
      have hfits := hc.symbol? hS hy
      rw [Option.filter_some, Option.bind_some]
      cases hs : c.symbol? y with
      | none =>
        rw [hs] at hfits
        generalize S.world.sketch? u = k at hfits ⊢
        cases hfits
        exact mirrors_fail hc
      | some s =>
        have hnote := hnote hy hs
        rw [hs] at hfits
        have hvalue : (S.world.sketch? u).any Sketch.isValue = s.isValue := by
          generalize S.world.sketch? u = k at hfits
          cases hfits with
          | some hfits => exact hfits.isValue_eq.symm
        rw [hvalue]
        by_cases hisValue : s.isValue = true
        · simp only [Option.map_some, hisValue, if_true]
          exact hnote
        · simp only [Option.map_some, hisValue]
          exact mirrors_fail hc

theorem mirrors_typeValue (hc : S.Reflects c) (hshows : c.scopes.Shows S.declared? Γ)
    {place : Place} {v : Value} (hnode : ⟨place, .value v⟩ ∈ S.unit.tree.preorder) :
    S.Mirrors S.Answers [] (S.world.typeValue Γ place v) (Analyzing.typeValue place v) c := by
  cases v with
  | integer => exact mirrors_builtin hS hc (isPlainName_builtin .integer) _
  | float => exact mirrors_builtin hS hc (isPlainName_builtin .float) _
  | boolean => exact mirrors_builtin hS hc (isPlainName_builtin .boolean) _
  | character => exact mirrors_builtin hS hc (isPlainName_builtin .byte) _
  | string => exact mirrors_pointerToBuiltin hS hc (isPlainName_builtin .byte) _
  | null => exact mirrors_pointerToBuiltin hS hc (isPlainName_builtin .null) _
  | identifier name =>
    refine mirrors_typeIdentifier hS hc hshows
      (hS.named.canSay hnode (by simp [Head.names])) fun n hn hkind heq => ?_
    rw [hS.named.node_inj hn hnode heq] at hkind
    exact absurd hkind (by simp [Node.kind, Head.kind, NodeKind.isValue])

end Expressions

mutual

/-- An expression has the type that it has in the world, and so have its parts. -/
theorem mirrors_typeExpr (hS : S.Suits) (Γ : Locals) : (e : Expr) →
    (∀ n ∈ e.tree.preorder, n ∈ S.unit.tree.preorder) → (e.parts.map Expr.id).Nodup →
    ∀ {c : Context}, S.Ready Γ e.parts c → S.Mirrors S.Answers (located Γ e.parts)
      (S.world.typeExpr Γ e) (Analyzing.typeExpr e) c
  | .value place v, hnodes, hnodup, c, hc => by
    refine mirrors_noting hc hnodup fun visits hready => ?_
    exact mirrors_typeValue hS hready.reflects hready.shows
      (hnodes _ (by simp [Expr.tree, Tree.preorder]))
  | .unary place op operand, hnodes, hnodup, c, hc => by
    rw [Expr.tree, Tree.forall_mem_preorder_node] at hnodes
    refine mirrors_noting hc hnodup fun visits hready => ?_
    rw [Expr.parts, List.map_cons, List.nodup_cons] at hnodup
    rw [Expr.parts, List.tail_cons] at hready ⊢
    have hoperand := mirrors_typeExpr hS Γ operand (hnodes.2 _ (by simp)) hnodup.2 hready
    have hc' := hoperand.advances.reflects
    refine hoperand.bindRule (mirrors_withType hc' hoperand.answer fun t x hx => ?_)
    exact mirrors_typeUnary hS hc' hx _ _
  | .binary place op left right, hnodes, hnodup, c, hc => by
    rw [Expr.tree, Tree.forall_mem_preorder_node] at hnodes
    refine mirrors_noting hc hnodup fun visits hready => ?_
    rw [Expr.parts, List.map_cons, List.nodup_cons] at hnodup
    rw [Expr.parts, List.tail_cons] at hready ⊢
    rw [located_append]
    have hleft := mirrors_typeExpr hS Γ left (hnodes.2 _ (by simp)) (nodup_left hnodup.2)
      (hready.mono (List.subset_append_left _ _))
    have hright := mirrors_typeExpr hS Γ right (hnodes.2 _ (by simp)) (nodup_right hnodup.2)
      (hready.behind hleft.advances hnodup.2)
    have hc' := hright.advances.reflects
    refine hleft.bind (hright.bindRule (mirrors_withType hc'
      (hleft.answer.mono hright.advances.remembers) fun t x hx => ?_)) (disjoint_located hnodup.2)
    exact mirrors_withType hc' hright.answer fun u y hy => mirrors_typeBinary hS hc' hx hy _ _
  | .access place kind object member, hnodes, hnodup, c, hc => by
    rw [Expr.tree, Tree.forall_mem_preorder_node] at hnodes
    refine mirrors_noting hc hnodup fun visits hready => ?_
    rw [Expr.parts, List.map_cons, List.nodup_cons] at hnodup
    rw [Expr.parts, List.tail_cons] at hready ⊢
    have hobject := mirrors_typeExpr hS Γ object (hnodes.2 _ (by simp)) hnodup.2 hready
    have hc' := hobject.advances.reflects
    refine hobject.bindRule (mirrors_withType hc' hobject.answer fun t x hx => ?_)
    exact mirrors_typeAccess hS hc' hx _ _ _
  | .call place callee arguments, hnodes, hnodup, c, hc => by
    rw [Expr.tree, Tree.forall_mem_preorder_node, List.forall_mem_cons] at hnodes
    refine mirrors_noting hc hnodup fun visits hready => ?_
    rw [Expr.parts, List.map_cons, List.nodup_cons] at hnodup
    rw [Expr.parts, List.tail_cons] at hready ⊢
    rw [located_append]
    have hcallee := mirrors_typeExpr hS Γ callee hnodes.2.1 (nodup_left hnodup.2)
      (hready.mono (List.subset_append_left _ _))
    have harguments := mirrors_typeExprs hS Γ arguments hnodes.2.2 (nodup_right hnodup.2)
      (hready.behind hcallee.advances hnodup.2)
    have hc' := harguments.advances.reflects
    refine hcallee.bind (harguments.bindRule (mirrors_withType hc'
      (hcallee.answer.mono harguments.advances.remembers) fun t x hx => ?_))
      (disjoint_located hnodup.2)
    exact mirrors_typeCall hS hc' hx _ _ harguments.answer
  | .cast place operand target, hnodes, hnodup, c, hc => by
    rw [Expr.tree, Tree.forall_mem_preorder_node] at hnodes
    have htarget : target ∈ S.unit.writtenTypes := Block.mem_writtenTypes_of_node
      (hnodes.2 target.tree (by simp) _ (by simp [WrittenType.tree, WrittenType.node,
        Tree.preorder, Tree.preorders]))
    refine mirrors_noting hc hnodup fun visits hready => ?_
    rw [Expr.parts, List.map_cons, List.nodup_cons] at hnodup
    rw [Expr.parts, List.tail_cons] at hready ⊢
    have hoperand := mirrors_typeExpr hS Γ operand (hnodes.2 _ (by simp)) hnodup.2 hready
    have hc' := hoperand.advances.reflects
    refine hoperand.bindRule (mirrors_get_bind (mirrors_withType hc' hoperand.answer
      fun t x hx => ?_))
    exact mirrors_withType hc' (hc'.written? hS htarget) fun u y hy =>
      mirrors_typeCast hS hc' hx hy _
  | .index place target subscript, hnodes, hnodup, c, hc => by
    rw [Expr.tree, Tree.forall_mem_preorder_node] at hnodes
    refine mirrors_noting hc hnodup fun visits hready => ?_
    rw [Expr.parts, List.map_cons, List.nodup_cons] at hnodup
    rw [Expr.parts, List.tail_cons] at hready ⊢
    rw [located_append]
    have htarget := mirrors_typeExpr hS Γ target (hnodes.2 _ (by simp)) (nodup_left hnodup.2)
      (hready.mono (List.subset_append_left _ _))
    have hsubscript := mirrors_typeExpr hS Γ subscript (hnodes.2 _ (by simp)) (nodup_right hnodup.2)
      (hready.behind htarget.advances hnodup.2)
    have hc' := hsubscript.advances.reflects
    refine htarget.bind (hsubscript.bindRule (mirrors_withType hc'
      (htarget.answer.mono hsubscript.advances.remembers) fun t x hx => ?_))
      (disjoint_located hnodup.2)
    exact mirrors_withType hc' hsubscript.answer fun u y hy => mirrors_typeIndex hS hc' hx hy _

theorem mirrors_typeExprs (hS : S.Suits) (Γ : Locals) : (es : List Expr) →
    (∀ t ∈ Expr.trees es, ∀ n ∈ t.preorder, n ∈ S.unit.tree.preorder) →
    ((Expr.listParts es).map Expr.id).Nodup → ∀ {c : Context}, S.Ready Γ (Expr.listParts es) c →
    S.Mirrors (fun c => List.Forall₂ (S.Answers c)) (located Γ (Expr.listParts es))
      (S.world.typeExprs Γ es) (Analyzing.typeExprs es) c
  | [], _, _, c, hc => mirrors_pure hc.reflects .nil
  | e :: es, hnodes, hnodup, c, hc => by
    rw [Expr.trees, List.forall_mem_cons] at hnodes
    rw [Expr.listParts] at hc hnodup ⊢
    rw [located_append]
    have he := mirrors_typeExpr hS Γ e hnodes.1 (nodup_left hnodup)
      (hc.mono (List.subset_append_left _ _))
    have hes := mirrors_typeExprs hS Γ es hnodes.2 (nodup_right hnodup)
      (hc.behind he.advances hnodup)
    refine he.bind (hes.bindRule (mirrors_pure hes.advances.reflects (.cons ?_ hes.answer)))
      (disjoint_located hnodup)
    exact he.answer.mono hes.advances.remembers

end

end Stage

end Sable
