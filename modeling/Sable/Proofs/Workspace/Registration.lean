import Sable.Proofs.Workspace.Frozen

/-!
# What registration changes

A step that fails leaves the library as it was, but for a label whose name a local of the function
has: it is refused as a local when it is a label of the function already.

A member and a label are entered into a type or a function of the library's own, or there is an
error. A local of a function that another library owns is entered nowhere, and there is no error.

## Main statements

* `Library.step_error`: what a step leaves behind that fails.
* `Library.addLabel_not_atomic`: the label that stays.
* `Workspace.registration_run`: what is entered in any library of a workspace.
* `Library.addLocal_foreign`: the local that is entered nowhere.
-/
namespace Sable

namespace Library

variable {lib : Library} {s : LibraryStep} {e : SemanticError} {owner function x : SymbolId}

/-! ## Failure -/

theorem createType_error {name : String} {isGlobal : Bool} {span : Span}
    (h : (lib.createType name isGlobal span).1 = .error e) :
    (lib.createType name isGlobal span).2 = lib := by
  unfold createType at h ⊢
  split
  · split
    · simp_all
    · rfl
  · split
    · rfl
    · simp_all

theorem registerGlobal_error (h : (lib.registerGlobal x).1 = .error e) :
    (lib.registerGlobal x).2 = lib := by
  unfold registerGlobal at h ⊢
  split
  · rfl
  · split
    · rfl
    · simp_all

theorem addMember_error (h : (lib.addMember owner x).1 = .error e) :
    (lib.addMember owner x).2 = lib := by
  unfold addMember at h ⊢
  split
  · rfl
  · split
    · rfl
    · split
      · rfl
      · simp_all

theorem addLocal_error (h : (lib.addLocal function x).1 = .error e) :
    (lib.addLocal function x).2 = lib := by
  unfold addLocal at h ⊢
  split
  · rfl
  · split
    · rfl
    · split
      · rfl
      · simp_all

/-- The label was entered, and then it was refused as a local. -/
theorem addLabel_error (h : (lib.addLabel function x).1 = .error e) :
    (lib.addLabel function x).2 = lib ∨ ∃ s f, lib.symbol? x = some s ∧
      (lib.owned? function).bind Symbol.function? = some f ∧ f.labels.contains s.name = false ∧
      (lib.addLabel function x).2 =
        lib.setFunction function { f with labels := f.labels.insert s.name x } := by
  unfold addLabel at h ⊢
  split
  · exact .inl rfl
  · next s hs =>
    split
    · exact .inl rfl
    · next f hf =>
      split
      · exact .inl rfl
      · next hnew =>
        simp only [hs, hf, if_neg hnew] at h
        refine .inr ⟨s, f, hs, hf, by simpa using hnew, ?_⟩
        exact addLocal_error h

/-- A step that fails leaves the library as it was, but for the entry of a label whose name another
local of the function has. -/
theorem step_error (h : (lib.step s).1 = .error e) : (lib.step s).2 = lib ∨
    ∃ function label sym f, s = .addLabel function label ∧ lib.symbol? label = some sym ∧
      (lib.owned? function).bind Symbol.function? = some f ∧
      f.labels.contains sym.name = false ∧
      (lib.step s).2 =
        lib.setFunction function { f with labels := f.labels.insert sym.name label } := by
  have hregistered : ∀ {r : Except SemanticError Unit × Library}, (registered r).1 = .error e →
      r.1 = .error e := by
    rintro ⟨_ | _, lib'⟩ hr
    · simpa [registered, Except.map] using hr
    · simp [registered, Except.map] at hr
  cases s with
  | createType name isGlobal span =>
    refine .inl (@createType_error lib e name isGlobal span ?_)
    cases hcreate : (lib.createType name isGlobal span).1 <;> simp_all [step, Except.map]
  | registerGlobal x => exact .inl (registerGlobal_error (hregistered h))
  | addMember owner member => exact .inl (addMember_error (hregistered h))
  | addLocal function member => exact .inl (addLocal_error (hregistered h))
  | addLabel function label =>
    refine (addLabel_error (hregistered h)).imp_right ?_
    rintro ⟨sym, f, hrest⟩
    exact ⟨function, label, sym, f, rfl, hrest⟩
  | _ => simp [step, made] at h

/-- A member of a type that is none. -/
theorem step_error_member :
    let lib := ((new 0 "l").createVariable "x" .dummy false).2
    (lib.step (.addMember ⟨0, 0⟩ ⟨0, 0⟩)).1 = .error (.symbolNotFound "x" .dummy) ∧
      ((lib.step (.addMember ⟨0, 0⟩ ⟨0, 0⟩)).2 = lib ∨ ∃ function label sym f,
        LibraryStep.addMember ⟨0, 0⟩ ⟨0, 0⟩ = .addLabel function label ∧
        lib.symbol? label = some sym ∧ (lib.owned? function).bind Symbol.function? = some f ∧
        f.labels.contains sym.name = false ∧ (lib.step (.addMember ⟨0, 0⟩ ⟨0, 0⟩)).2 =
          lib.setFunction function { f with labels := f.labels.insert sym.name label }) := by
  intro lib
  have herror : (lib.step (.addMember ⟨0, 0⟩ ⟨0, 0⟩)).1 = .error (.symbolNotFound "x" .dummy) := by
    decide +kernel
  exact ⟨herror, step_error herror⟩

/-- A function with a local `x`, and a label of the same name. -/
theorem addLabel_not_atomic :
    let lib := (((((new 0 "l").createFunction "f" .dummy).2.createVariable "x" .dummy
      false).2.addLocal ⟨0, 0⟩ ⟨0, 1⟩).2.createLabel "x" .dummy).2
    let labels (lib : Library) : List (String × SymbolId) :=
      (((lib.symbol? ⟨0, 0⟩).bind Symbol.function?).map (·.labels.entries)).getD []
    (lib.step (.addLabel ⟨0, 0⟩ ⟨0, 2⟩)).1 = .error (.sameName "x" .dummy) ∧ labels lib = [] ∧
      labels (lib.step (.addLabel ⟨0, 0⟩ ⟨0, 2⟩)).2 = [("x", ⟨0, 2⟩)] := by
  decide +kernel

/-! ## Success -/

theorem addMember_ok (h : (lib.addMember owner x).1 = .ok ()) : ∃ s t,
    lib.symbol? x = some s ∧ (lib.owned? owner).bind Symbol.type? = some t ∧
      (lib.addMember owner x).2 = (lib.setMembers owner (t.members.insert s.name x)).update x
        fun s => { s with parentType := some owner } := by
  unfold addMember at h ⊢
  split at h
  · simp at h
  · next s hs =>
    split at h
    · simp at h
    · next t ht =>
      split at h
      · simp at h
      · next hnew =>
        refine ⟨s, t, hs, ht, ?_⟩
        simp only [if_neg hnew]

theorem addLocal_ok (h : (lib.addLocal function x).1 = .ok ()) : ∃ s f,
    lib.symbol? x = some s ∧ (lib.symbol? function).bind Symbol.function? = some f ∧
      (lib.addLocal function x).2 =
        (lib.setFunction function { f with locals := f.locals ++ [x] }).update x
          fun s => { s with parentFunction := some function } := by
  unfold addLocal at h ⊢
  split at h
  · simp at h
  · next s hs =>
    split at h
    · simp at h
    · next f hf =>
      split at h
      · simp at h
      · next hnew =>
        refine ⟨s, f, hs, hf, ?_⟩
        simp only [if_neg hnew]

theorem addLabel_ok (h : (lib.addLabel function x).1 = .ok ()) : ∃ s f,
    lib.symbol? x = some s ∧ (lib.owned? function).bind Symbol.function? = some f ∧
      lib.addLabel function x =
        (lib.setFunction function { f with labels := f.labels.insert s.name x }).addLocal
          function x := by
  unfold addLabel at h ⊢
  split at h
  · simp at h
  · next s hs =>
    split at h
    · simp at h
    · next f hf =>
      split at h
      · simp at h
      · next hnew =>
        refine ⟨s, f, hs, hf, ?_⟩
        simp only [if_neg hnew]

/-- What the symbol is, with its entries. -/
def kind? (lib : Library) (x : SymbolId) : Option SymbolKind := (lib.symbol? x).map Symbol.kind

/-- The type holds the symbol as the member of this name. -/
def HoldsMember (lib : Library) (owner x : SymbolId) (name : String) : Prop :=
  ∃ t, lib.kind? owner = some (.type t) ∧ t.members.get? name = some x

/-- The function holds the symbol as a local. -/
def HoldsLocal (lib : Library) (function x : SymbolId) : Prop :=
  ∃ f, lib.kind? function = some (.function f) ∧ x ∈ f.locals

/-- The function holds the symbol as the label of this name. -/
def HoldsLabel (lib : Library) (function x : SymbolId) (name : String) : Prop :=
  ∃ f, lib.kind? function = some (.function f) ∧ f.labels.get? name = some x

theorem bind_function?_eq_some {f : FunctionSymbol} :
    (lib.symbol? x).bind Symbol.function? = some f ↔ lib.kind? x = some (.function f) := by
  rw [kind?, Option.bind_eq_some_iff, Option.map_eq_some_iff]
  refine exists_congr fun s => and_congr_right fun _ => ?_
  unfold Symbol.function?
  cases s.kind <;> simp

theorem bind_type?_eq_some {t : TypeSymbol} :
    (lib.symbol? x).bind Symbol.type? = some t ↔ lib.kind? x = some (.type t) := by
  rw [kind?, Option.bind_eq_some_iff, Option.map_eq_some_iff]
  refine exists_congr fun s => and_congr_right fun _ => ?_
  unfold Symbol.type?
  cases s.kind <;> simp

theorem library_eq_of_owned? {α : Type} {f : Symbol → Option α} {a : α}
    (h : (lib.owned? x).bind f = some a) : x.library = lib.id := by
  obtain ⟨s, hs, -⟩ := Option.bind_eq_some_iff.1 h
  exact (owned?_eq_some.1 hs).1.symm

theorem id_update (lib : Library) (x : SymbolId) (f : Symbol → Symbol) :
    (lib.update x f).id = lib.id := by
  obtain ⟨symbols, heq⟩ := exists_update_eq lib x f
  rw [heq]

theorem id_setMembers (lib : Library) (x : SymbolId) (members : Names) :
    (lib.setMembers x members).id = lib.id := id_update ..

theorem id_setFunction (lib : Library) (x : SymbolId) (f : FunctionSymbol) :
    (lib.setFunction x f).id = lib.id := id_update ..

section Apart

variable (h : lib.IsApart)
include h

theorem kind?_update (x : SymbolId) (f : Symbol → Symbol) (y : SymbolId) :
    (lib.update x f).kind? y =
      if y = x ∧ x.library = lib.id then (lib.symbol? y).map fun s => (f s).kind
      else lib.kind? y := by
  rw [kind?, kind?, h.symbol?_update]
  split
  · rw [Option.map_map]
    rfl
  · rfl

/-- A change that keeps the entries of the symbol. -/
theorem kind?_update_of_kind (x : SymbolId) {f : Symbol → Symbol} (hf : ∀ s, (f s).kind = s.kind)
    (y : SymbolId) : (lib.update x f).kind? y = lib.kind? y := by
  rw [kind?_update h]
  split
  · exact congrArg (Option.map · _) (funext hf)
  · rfl

theorem kind?_setFunction {g : FunctionSymbol} (hlibrary : function.library = lib.id)
    (hg : lib.kind? function = some (.function g)) (g' : FunctionSymbol) :
    (lib.setFunction function g').kind? function = some (.function g') := by
  obtain ⟨s, hs, hkind⟩ := Option.map_eq_some_iff.1 hg
  rw [setFunction, kind?_update h, if_pos ⟨rfl, hlibrary⟩, hs, Option.map_some, hkind]

theorem kind?_setMembers {t : TypeSymbol} (hlibrary : owner.library = lib.id)
    (ht : lib.kind? owner = some (.type t)) (members : Names) :
    (lib.setMembers owner members).kind? owner = some (.type { t with members }) := by
  obtain ⟨s, hs, hkind⟩ := Option.map_eq_some_iff.1 ht
  rw [setMembers, kind?_update h, if_pos ⟨rfl, hlibrary⟩, hs, Option.map_some, hkind]

theorem name_update (x : SymbolId) {f : Symbol → Symbol} (hf : ∀ s, (f s).name = s.name)
    {y : SymbolId} {s : Symbol} (hs : lib.symbol? y = some s) :
    ∃ s', (lib.update x f).symbol? y = some s' ∧ s'.name = s.name := by
  rw [h.symbol?_update, hs]
  split
  · exact ⟨f s, rfl, hf s⟩
  · exact ⟨s, rfl, rfl⟩

theorem name_setFunction (function : SymbolId) (g : FunctionSymbol) {s : Symbol}
    (hs : lib.symbol? x = some s) :
    ∃ s', (lib.setFunction function g).symbol? x = some s' ∧ s'.name = s.name :=
  name_update h function (fun s => by split <;> rfl) hs

theorem name_setMembers (owner : SymbolId) (members : Names) {s : Symbol}
    (hs : lib.symbol? x = some s) :
    ∃ s', (lib.setMembers owner members).symbol? x = some s' ∧ s'.name = s.name :=
  name_update h owner (fun s => by split <;> rfl) hs

/-- The symbol itself, if it is the library's own. -/
theorem symbol?_update_self {f : Symbol → Symbol} {s : Symbol} (hs : lib.symbol? x = some s) :
    (lib.update x f).symbol? x = some (if x.library = lib.id then f s else s) := by
  rw [h.symbol?_update, hs]
  by_cases hx : x.library = lib.id <;> simp [hx]

/-- A member is entered into its owner under its name, and knows its owner. -/
theorem addMember_effect (hok : (lib.addMember owner x).1 = .ok ()) :
    ∃ s, (lib.addMember owner x).2.symbol? x = some s ∧
      (lib.addMember owner x).2.HoldsMember owner x s.name ∧
      (x.library = lib.id → s.parentType = some owner) := by
  obtain ⟨s, t, hs, ht, heq⟩ := addMember_ok hok
  have hlibrary := library_eq_of_owned? ht
  rw [h.owned?_eq hlibrary, bind_type?_eq_some] at ht
  obtain ⟨s', hs', hname⟩ := name_setMembers h owner (t.members.insert s.name x) hs
  have hlib' : (lib.setMembers owner (t.members.insert s.name x)).IsApart := h.update owner _
  rw [heq]
  refine ⟨_, symbol?_update_self hlib' hs', ⟨{ t with members := t.members.insert s.name x }, ?_, ?_⟩,
    fun hx => ?_⟩
  · exact (kind?_update_of_kind hlib' x (by exact fun _ => rfl) owner).trans
      (kind?_setMembers h hlibrary ht _)
  · rw [apply_ite Symbol.name, ite_self, hname, OrderedMap.get?_insert, if_pos rfl]
  · rw [if_pos (hx.trans (id_setMembers lib owner _).symm)]

/-- A local is entered into a function of the library's own. It gets its parent in any case. -/
theorem addLocal_cases (hok : (lib.addLocal function x).1 = .ok ()) :
    ∃ s s' f, lib.symbol? x = some s ∧ (lib.addLocal function x).2.symbol? x = some s' ∧
      s'.name = s.name ∧ (x.library = lib.id → s'.parentFunction = some function) ∧
      lib.kind? function = some (.function f) ∧ (function.library = lib.id →
        (lib.addLocal function x).2.kind? function =
          some (.function { f with locals := f.locals ++ [x] })) := by
  obtain ⟨s, f, hs, hf, heq⟩ := addLocal_ok hok
  rw [bind_function?_eq_some] at hf
  obtain ⟨s', hs', hname⟩ :=
    name_setFunction h function { f with locals := f.locals ++ [x] } hs
  have hlib' : (lib.setFunction function { f with locals := f.locals ++ [x] }).IsApart :=
    h.update function _
  rw [heq]
  refine ⟨s, _, f, hs, symbol?_update_self hlib' hs', ?_, fun hx => ?_, hf, fun hlibrary => ?_⟩
  · rw [apply_ite Symbol.name, ite_self, hname]
  · rw [if_pos (hx.trans (id_setFunction lib function _).symm)]
  · exact (kind?_update_of_kind hlib' x (by exact fun _ => rfl) function).trans
      (kind?_setFunction h hlibrary hf _)

/-- A local of a function of the library's own is entered into it, and knows its function. -/
theorem addLocal_effect (hlibrary : function.library = lib.id)
    (hok : (lib.addLocal function x).1 = .ok ()) :
    ∃ s, (lib.addLocal function x).2.symbol? x = some s ∧
      (lib.addLocal function x).2.HoldsLocal function x ∧
      (x.library = lib.id → s.parentFunction = some function) := by
  obtain ⟨-, s', f, -, hs', -, hparent, -, hkind⟩ := addLocal_cases h hok
  exact ⟨s', hs', ⟨_, hkind hlibrary, by simp⟩, hparent⟩

/-- A label is entered into its function under its name and as a local, and knows its function. -/
theorem addLabel_effect (hok : (lib.addLabel function x).1 = .ok ()) :
    ∃ s, (lib.addLabel function x).2.symbol? x = some s ∧
      (lib.addLabel function x).2.HoldsLabel function x s.name ∧
      (lib.addLabel function x).2.HoldsLocal function x ∧
      (x.library = lib.id → s.parentFunction = some function) := by
  obtain ⟨s, f, hs, hf, heq⟩ := addLabel_ok hok
  have hlibrary := library_eq_of_owned? hf
  rw [h.owned?_eq hlibrary, bind_function?_eq_some] at hf
  obtain ⟨t, ht, hname⟩ :=
    name_setFunction h function { f with labels := f.labels.insert s.name x } hs
  have hkind := kind?_setFunction h hlibrary hf { f with labels := f.labels.insert s.name x }
  rw [heq] at hok ⊢
  obtain ⟨t', s', f', ht', hs', hname', hparent, hf', hentered⟩ :=
    addLocal_cases (h.update function _) hok
  obtain rfl := Option.some.inj (ht.symm.trans ht')
  obtain rfl := SymbolKind.function.inj (Option.some.inj (hkind.symm.trans hf'))
  have hentered := hentered (hlibrary.trans (id_setFunction ..).symm)
  refine ⟨s', hs', ⟨_, hentered, ?_⟩, ⟨_, hentered, by simp⟩,
    fun hx => hparent (hx.trans (id_setFunction ..).symm)⟩
  rw [hname', hname, OrderedMap.get?_insert, if_pos rfl]

end Apart

/-- A function of another library stays as it is. -/
theorem addLocal_of_foreign (hforeign : function.library ≠ lib.id)
    (hok : (lib.addLocal function x).1 = .ok ()) : (lib.addLocal function x).2 =
      lib.update x fun s => { s with parentFunction := some function } := by
  obtain ⟨s, f, -, -, heq⟩ := addLocal_ok hok
  have hsame : lib.setFunction function { f with locals := f.locals ++ [x] } = lib :=
    if_neg hforeign
  rw [heq, hsame]

/-- A function of the library `a`, which `l` is linked to, and a local of `l`. -/
theorem addLocal_foreign :
    let a := ((new 0 "a").createFunction "f" .dummy).2
    let l := (((new 1 "l").link a).createVariable "x" .dummy false).2
    (l.addLocal ⟨0, 0⟩ ⟨1, 0⟩).1 = .ok () ∧
      (((l.addLocal ⟨0, 0⟩ ⟨1, 0⟩).2.symbol? ⟨0, 0⟩).bind Symbol.function?).map (·.locals) =
        some [] ∧
      (l.addMember ⟨0, 0⟩ ⟨1, 0⟩).1 = .error (.symbolNotFound "f" .dummy) ∧
      (l.addLabel ⟨0, 0⟩ ⟨1, 0⟩).1 = .error (.symbolNotFound "f" .dummy) := by
  decide +kernel

end Library

/-- Registration in a library of a workspace takes effect: the owner holds what was registered
under its name, and what belongs to the library knows its owner. A function of another library is
left as it is. -/
theorem Workspace.registration_run {steps : List WorkspaceStep} {k : LibraryId} {lib : Library}
    (hlib : (({} : Workspace).run steps).library? k = some lib) (owner x : SymbolId) :
    ((lib.addMember owner x).1 = .ok () → ∃ s, (lib.addMember owner x).2.symbol? x = some s ∧
      (lib.addMember owner x).2.HoldsMember owner x s.name ∧
      (x.library = k → s.parentType = some owner)) ∧
    ((lib.addLabel owner x).1 = .ok () → ∃ s, (lib.addLabel owner x).2.symbol? x = some s ∧
      (lib.addLabel owner x).2.HoldsLabel owner x s.name ∧
      (lib.addLabel owner x).2.HoldsLocal owner x ∧
      (x.library = k → s.parentFunction = some owner)) ∧
    ((lib.addLocal owner x).1 = .ok () → owner.library = k →
      ∃ s, (lib.addLocal owner x).2.symbol? x = some s ∧
        (lib.addLocal owner x).2.HoldsLocal owner x ∧
        (x.library = k → s.parentFunction = some owner)) ∧
    ((lib.addLocal owner x).1 = .ok () → owner.library ≠ k →
      (lib.addLocal owner x).2 = lib.update x fun s => { s with parentFunction := some owner }) := by
  have hinvariant : Library.IsInvariant fun _ => True :=
    ⟨fun _ _ => trivial, fun _ => trivial, fun _ _ => trivial, fun _ _ => trivial⟩
  have hfits := isOrderly_run hinvariant steps k lib hlib
  rw [← hfits.id_eq]
  exact ⟨Library.addMember_effect hfits.isApart, Library.addLabel_effect hfits.isApart,
    fun hok howner => Library.addLocal_effect hfits.isApart howner hok,
    fun hok howner => Library.addLocal_of_foreign howner hok⟩

/-- A function and its label. -/
theorem Workspace.registration_run_label :
    let steps : List WorkspaceStep := [.new "l", .edit 0 (.createFunction "f" .dummy),
      .edit 0 (.createLabel "x" .dummy)]
    ∃ lib, (({} : Workspace).run steps).library? 0 = some lib ∧
      (lib.addLabel ⟨0, 0⟩ ⟨0, 1⟩).1 = .ok () ∧
      ∃ s, (lib.addLabel ⟨0, 0⟩ ⟨0, 1⟩).2.symbol? ⟨0, 1⟩ = some s ∧
        (lib.addLabel ⟨0, 0⟩ ⟨0, 1⟩).2.HoldsLabel ⟨0, 0⟩ ⟨0, 1⟩ s.name ∧
        (lib.addLabel ⟨0, 0⟩ ⟨0, 1⟩).2.HoldsLocal ⟨0, 0⟩ ⟨0, 1⟩ ∧ s.parentFunction = some ⟨0, 0⟩ := by
  intro steps
  have hlib : (({} : Workspace).run steps).library? 0 = some (((Library.new 0 "l").createFunction "f"
      .dummy).2.createLabel "x" .dummy).2 := by rfl
  have hok : ((((Library.new 0 "l").createFunction "f" .dummy).2.createLabel "x" .dummy).2.addLabel
      ⟨0, 0⟩ ⟨0, 1⟩).1 = .ok () := by rfl
  obtain ⟨s, hs, hlabel, hlocal, hparent⟩ := (registration_run hlib ⟨0, 0⟩ ⟨0, 1⟩).2.1 hok
  exact ⟨_, hlib, hok, s, hs, hlabel, hlocal, hparent rfl⟩

end Sable
