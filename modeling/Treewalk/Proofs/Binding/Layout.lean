import Treewalk.Machine.Scope
import Treewalk.Tree.Binding
import Treewalk.Proofs.Grammar.Legality

/-!
# Layouts of scopes

While names are bound, the local scopes around a node are known by the names declared in them so
far. A layout says in addition what opens each of these scopes: a block, a call of a function, the
receiver of a method, or the superclass of a class. The resolutions of a tree list every use of a
name with the layout in which it is bound, in the order of binding.
-/

namespace Treewalk

open Grammar (ClassKind Place classKind)

/-- A local scope while names are bound: what opens it, and the names declared in it so far. -/
structure StaticScope where
  origin : ScopeOrigin
  names : List String := []

/-- The local scopes around a node, innermost first. -/
abbrev Layout := List StaticScope

namespace Layout

/-- The names declared in each scope. -/
def names (layout : Layout) : StaticScopes := layout.map (·.names)

/-- Declares a name in the innermost scope. Outside all scopes nothing is recorded. -/
def declare (layout : Layout) (name : String) : Layout :=
  match layout with
  | [] => []
  | scope :: outer => { scope with names := name :: scope.names } :: outer

/-- The layout inside a block, given its bound body. -/
def openBlock (layout : Layout) (body : List Stmt) : Layout := ⟨.block body, []⟩ :: layout

/-- The layout inside a function, given its bound declaration. -/
def openCall (layout : Layout) (f : FunctionDecl) : Layout := ⟨.call f, f.params⟩ :: layout

/-- The layout around the methods of a class. -/
def openClass (layout : Layout) (superclass : Option Reference) : Layout :=
  match superclass with
  | some _ => ⟨.receiver, ["this"]⟩ :: ⟨.superclass, ["super"]⟩ :: layout
  | none => ⟨.receiver, ["this"]⟩ :: layout

@[simp] theorem names_cons (scope : StaticScope) (layout : Layout) :
    names (scope :: layout) = scope.names :: layout.names := rfl

@[simp] theorem names_declare (layout : Layout) (name : String) :
    (layout.declare name).names = layout.names.declare name := by
  cases layout <;> rfl

@[simp] theorem names_openClass (layout : Layout) (superclass : Option Reference) :
    (layout.openClass superclass).names = methodScopes layout.names superclass := by
  cases superclass <;> rfl

end Layout

/-- The layout after a statement. -/
def Stmt.layoutAfter (layout : Layout) : Stmt → Layout
  | .declare name _ => layout.declare name
  | .function declaration => layout.declare declaration.name
  | .classDecl name _ _ => layout.declare name
  | .ifThen _ body => body.layoutAfter layout
  | .ifElse _ body alternative => alternative.layoutAfter (body.layoutAfter layout)
  | .loop _ body => body.layoutAfter layout
  | _ => layout

/-! ### Resolutions -/

/-- A use of a name when it is bound: the bound node, the layout around it, and the name that is
declared there before it has a value, which is that of a class while its superclass is used. -/
structure Resolution where
  node : Expr
  layout : Layout
  pending : Option String := none

mutual

/-- The uses of names in an expression, in the order of binding. -/
def Expr.resolutions (layout : Layout) : Expr → List Resolution
  | .literal _ => []
  | .variable reference => [⟨.variable (reference.bindName layout.names), layout, none⟩]
  | .assign target value =>
    value.resolutions layout ++
      [⟨.assign (target.bindName layout.names) (value.bindNames layout.names), layout, none⟩]
  | .unary _ operand _ => operand.resolutions layout
  | .binary _ left right _ => left.resolutions layout ++ right.resolutions layout
  | .logical _ left right => left.resolutions layout ++ right.resolutions layout
  | .grouping inner => inner.resolutions layout
  | .call callee arguments _ =>
    callee.resolutions layout ++ Expr.resolutionsAll layout arguments
  | .get object _ _ => object.resolutions layout
  | .set object _ value _ => object.resolutions layout ++ value.resolutions layout
  | .this anchor _ => [⟨.this anchor (layout.names.binding "this"), layout, none⟩]
  | .super method anchor _ =>
    [⟨.super method anchor (layout.names.binding "super"), layout, none⟩]

/-- The uses of names in expressions. -/
def Expr.resolutionsAll (layout : Layout) : List Expr → List Resolution
  | [] => []
  | e :: rest => e.resolutions layout ++ Expr.resolutionsAll layout rest

end

/-- The use of a superclass. The name of the class is declared already, but has no value yet. -/
def superclassResolutions (layout : Layout) (name : String) : Option Reference → List Resolution
  | none => []
  | some parent => [⟨.variable (parent.bindName layout.names), layout, some name⟩]

mutual

/-- The uses of names in a statement, in the order of binding. -/
def Stmt.resolutions (layout : Layout) : Stmt → List Resolution
  | .expression value => value.resolutions layout
  | .print value => value.resolutions layout
  | .declare _ none => []
  | .declare _ (some value) => value.resolutions layout
  | .block body =>
    Stmt.resolutionsAll (layout.openBlock (Stmt.bindAll ([] :: layout.names) body)) body
  | .ifThen condition body => condition.resolutions layout ++ body.resolutions layout
  | .ifElse condition body alternative =>
    condition.resolutions layout ++ body.resolutions layout ++
      alternative.resolutions (body.layoutAfter layout)
  | .loop condition body => condition.resolutions layout ++ body.resolutions layout
  | .function declaration => declaration.resolutions (layout.declare declaration.name)
  | .returning none => []
  | .returning (some value) => value.resolutions layout
  | .classDecl name superclass methods =>
    superclassResolutions (layout.declare name) name superclass ++
      FunctionDecl.resolutionsAll ((layout.declare name).openClass superclass) methods

/-- The uses of names in statements in turn. -/
def Stmt.resolutionsAll (layout : Layout) : List Stmt → List Resolution
  | [] => []
  | s :: rest => s.resolutions layout ++ Stmt.resolutionsAll (s.layoutAfter layout) rest

/-- The uses of names in a function. Parameters and body share one scope. -/
def FunctionDecl.resolutions (layout : Layout) : FunctionDecl → List Resolution
  | .mk name params body anchor =>
    let bound := FunctionDecl.mk name params (Stmt.bindAll (params :: layout.names) body) anchor
    Stmt.resolutionsAll (layout.openCall bound) body

/-- The uses of names in functions. -/
def FunctionDecl.resolutionsAll (layout : Layout) : List FunctionDecl → List Resolution
  | [] => []
  | f :: rest => f.resolutions layout ++ FunctionDecl.resolutionsAll layout rest

end

/-- The uses of names in a program, in the order of binding. -/
def Program.resolutions (program : Program) : List Resolution :=
  Stmt.resolutionsAll [] program

/-! ### Layouts and binding -/

theorem Stmt.names_layoutAfter (layout : Layout) (s : Stmt) :
    (s.layoutAfter layout).names = (s.bindNames layout.names).2 := by
  match s with
  | .declare _ _ | .function _ | .classDecl _ _ _ =>
    exact Layout.names_declare layout _
  | .ifThen _ body | .loop _ body => exact body.names_layoutAfter layout
  | .ifElse _ body alternative =>
    simp only [layoutAfter, bindNames]
    rw [alternative.names_layoutAfter, body.names_layoutAfter]
  | .expression _ | .print _ | .block _ | .returning _ => rfl

/-- Binding its names does not change what a statement declares. -/
theorem Stmt.layoutAfter_bindNames (layout : Layout) (scopes : StaticScopes) (s : Stmt) :
    (s.bindNames scopes).1.layoutAfter layout = s.layoutAfter layout := by
  match s with
  | .ifThen _ body | .loop _ body => exact body.layoutAfter_bindNames layout scopes
  | .ifElse _ body alternative =>
    simp only [layoutAfter, bindNames]
    rw [body.layoutAfter_bindNames, alternative.layoutAfter_bindNames]
  | .function (.mk _ _ _ _) => rfl
  | .declare _ _ | .classDecl _ _ _ | .expression _ | .print _ | .block _ | .returning _ => rfl

/-- The branches of an `if` and the body of a loop declare nothing. -/
theorem Stmt.layoutAfter_eq_of_plain {place : Place} {s : Stmt} (hlegal : s.Legal place)
    (hplain : s.Plain) (layout : Layout) : s.layoutAfter layout = layout := by
  match s with
  | .declare _ _ | .function _ | .classDecl _ _ _ => exact hplain.elim
  | .ifThen _ body | .loop _ body =>
    obtain ⟨_, hbody, hlegal⟩ := hlegal
    exact layoutAfter_eq_of_plain hlegal hbody layout
  | .ifElse _ body alternative =>
    obtain ⟨_, hbody, hlegal, halternative, hlegal'⟩ := hlegal
    rw [layoutAfter, layoutAfter_eq_of_plain hlegal hbody,
      layoutAfter_eq_of_plain hlegal' halternative]
  | .expression _ | .print _ | .block _ | .returning _ => rfl

namespace StaticScopes

theorem binding_cons (scope : List String) (scopes : StaticScopes) (name : String) :
    binding (scope :: scopes) name =
      if name ∈ scope then .enclosing 0
      else match scopes.binding name with
        | .global => .global
        | .enclosing hops => .enclosing (hops + 1) := by
  unfold binding
  rw [List.findIdx?_cons]
  by_cases hname : name ∈ scope
  · simp [hname]
  · have hcontains : scope.contains name = false := by simpa using hname
    rw [hcontains, if_neg hname]
    cases scopes.findIdx? (·.contains name) <;> rfl

/-- A name is bound to the nearest scope that declares it. -/
theorem getElem?_of_binding {scopes : StaticScopes} {name : String} {hops : Nat}
    (h : scopes.binding name = .enclosing hops) :
    (∃ scope, scopes[hops]? = some scope ∧ name ∈ scope) ∧
      ∀ nearer < hops, ∀ scope, scopes[nearer]? = some scope → name ∉ scope := by
  induction scopes generalizing hops with
  | nil => cases h
  | cons scope scopes ih =>
    rw [binding_cons] at h
    split at h
    · rename_i hname
      cases h
      exact ⟨⟨scope, rfl, hname⟩, fun nearer hnearer => absurd hnearer (Nat.not_lt_zero _)⟩
    · rename_i hname
      split at h
      · cases h
      · rename_i outer houter
        cases h
        obtain ⟨hfound, hnearest⟩ := ih houter
        -- the scopes nearer than the one found are the innermost one and those the induction covers
        refine ⟨by simpa using hfound, fun nearer hnearer other hother => ?_⟩
        cases nearer with
        | zero =>
          cases hother
          exact hname
        | succ nearer => exact hnearest nearer (by omega) other hother

/-- No scope declares a name that is global. -/
theorem not_mem_of_binding_global {scopes : StaticScopes} {name : String}
    (h : scopes.binding name = .global) : ∀ scope ∈ scopes, name ∉ scope := by
  induction scopes with
  | nil => exact fun scope hscope => absurd hscope List.not_mem_nil
  | cons first scopes ih =>
    rw [binding_cons] at h
    split at h
    · cases h
    · rename_i hfirst
      split at h
      · rename_i hrest
        exact List.forall_mem_cons.mpr ⟨hfirst, ih hrest⟩
      · cases h

end StaticScopes

/-! ### Layouts around the code of a class -/

/-- A scope that a block or a call opens. Its names are ones that a program can declare. -/
structure StaticScope.IsLocal (scope : StaticScope) : Prop where
  origin : (∃ body, scope.origin = .block body) ∨ ∃ f, scope.origin = .call f
  names : ∀ name ∈ scope.names, IsName name

namespace Layout

/-- The layouts that surround code in a class of a kind, or outside every class. -/
inductive Fits : ClassKind → Layout → Prop where
  | session : Fits .none []
  | inner {enclosing : ClassKind} {scope : StaticScope} {layout : Layout}
    (hscope : scope.IsLocal) (h : Fits enclosing layout) : Fits enclosing (scope :: layout)
  | class {enclosing : ClassKind} {layout : Layout} (superclass : Option Reference)
    (h : Fits enclosing layout) : Fits (classKind superclass) (layout.openClass superclass)

/-- Statements can declare names here: outside all scopes, or inside a block or call. -/
def Accepts (layout : Layout) : Prop :=
  ∀ scope ∈ layout.head?, scope.IsLocal

theorem accepts_cons {scope : StaticScope} {layout : Layout} (h : scope.IsLocal) :
    Accepts (scope :: layout) := by
  rintro _ ⟨⟩
  exact h

theorem Accepts.declare {layout : Layout} {name : String} (h : layout.Accepts)
    (hname : IsName name) : (layout.declare name).Accepts := by
  cases layout with
  | nil => exact h
  | cons scope layout =>
    have hscope := h scope rfl
    exact accepts_cons ⟨hscope.origin, List.forall_mem_cons.mpr ⟨hname, hscope.names⟩⟩

theorem Fits.declare {enclosing : ClassKind} {layout : Layout} {name : String}
    (h : Fits enclosing layout) (haccepts : layout.Accepts) (hname : IsName name) :
    Fits enclosing (layout.declare name) := by
  have haccepts' := haccepts.declare hname
  cases h with
  | session => exact .session
  | inner _ h => exact .inner (haccepts' _ rfl) h
  | «class» superclass _ =>
    -- the receiver of a method is no scope of a block or call
    cases superclass with
    | none => rcases (haccepts _ rfl).origin with ⟨_, horigin⟩ | ⟨_, horigin⟩ <;> cases horigin
    | some => rcases (haccepts _ rfl).origin with ⟨_, horigin⟩ | ⟨_, horigin⟩ <;> cases horigin

/-- Around code in a class there is a receiver, and between the two only blocks and functions. So
`this` is bound to that receiver, and in a class with a superclass `super` is bound to the scope
just outside it. -/
theorem Fits.receiver {enclosing : ClassKind} {layout : Layout} (h : Fits enclosing layout)
    (hclass : enclosing ≠ .none) :
    ∃ inner outer, layout = inner ++ ⟨.receiver, ["this"]⟩ :: outer ∧
      (∀ scope ∈ inner, scope.IsLocal) ∧
      layout.names.binding "this" = .enclosing inner.length ∧
      (enclosing = .subclass →
        (∃ rest, outer = ⟨.superclass, ["super"]⟩ :: rest) ∧
          layout.names.binding "super" = .enclosing (inner.length + 1)) := by
  induction h with
  | session => exact absurd rfl hclass
  | @inner _ scope layout hscope _ ih =>
    obtain ⟨inner, outer, hlayout, hinner, hthis, hsuper⟩ := ih hclass
    -- a block or call declares neither name, so the search goes on outward
    have hnotThis : "this" ∉ scope.names := fun hmem => (hscope.names _ hmem).1 rfl
    have hnotSuper : "super" ∉ scope.names := fun hmem => (hscope.names _ hmem).2 rfl
    refine ⟨scope :: inner, outer, by rw [hlayout, List.cons_append],
      List.forall_mem_cons.mpr ⟨hscope, hinner⟩, ?_, fun hsubclass => ?_⟩
    · rw [names_cons, StaticScopes.binding_cons, if_neg hnotThis, hthis]
      rfl
    · obtain ⟨hrest, hbinding⟩ := hsuper hsubclass
      refine ⟨hrest, ?_⟩
      rw [names_cons, StaticScopes.binding_cons, if_neg hnotSuper, hbinding]
      rfl
  | @«class» _ layout superclass _ _ =>
    cases superclass with
    | none =>
      refine ⟨[], layout, rfl, fun scope hscope => absurd hscope List.not_mem_nil, ?_, ?_⟩
      · simp [openClass, StaticScopes.binding_cons]
      · exact fun hsubclass => by cases hsubclass
    | some parent =>
      refine ⟨[], ⟨.superclass, ["super"]⟩ :: layout, rfl,
        fun scope hscope => absurd hscope List.not_mem_nil, ?_, fun _ => ⟨⟨layout, rfl⟩, ?_⟩⟩
      · simp [openClass, StaticScopes.binding_cons]
      · simp [openClass, StaticScopes.binding_cons]

/-- In a class with a superclass, `super` is bound to the scope just outside the receiver. -/
theorem Fits.binding_super {layout : Layout} (h : Fits .subclass layout) :
    ∃ hops, layout.names.binding "super" = .enclosing (hops + 1) ∧
      layout[hops]? = some ⟨.receiver, ["this"]⟩ ∧
      layout[hops + 1]? = some ⟨.superclass, ["super"]⟩ := by
  have hclass : ClassKind.subclass ≠ .none := by decide
  obtain ⟨inner, outer, hlayout, _, _, hsuper⟩ := h.receiver hclass
  obtain ⟨⟨rest, rfl⟩, hbinding⟩ := hsuper rfl
  exact ⟨inner.length, hbinding, by simp [hlayout], by simp [hlayout]⟩

end Layout

end Treewalk
