import Treewalk.Proofs.Binding.Layout
import Treewalk.Proofs.Grammar.Vocabulary

/-!
# Code that is ready to run

Bound code is ready in a layout when every use of a name in it is bound as that layout says, every
construct is in its place, and the resolutions of its uses and the words that an error may quote are
among those that are known. This is all that evaluation relies on. Code of the grammar is ready once
its names are bound.
-/

namespace Treewalk

open Grammar (FunctionKind ClassKind Place bodyKind classKind)

/-- What is known of code before it runs: its vocabulary, and the resolutions of its uses. -/
structure Known extends Vocabulary where
  resolution : Resolution → Prop

/-- What is known of all code. -/
def Known.any : Known := ⟨.any, fun _ => True⟩

/-- A use of a name is bound as a layout says. -/
structure Reference.Resolved (known : Known) (layout : Layout) (reference : Reference) : Prop where
  isName : IsName reference.name
  word : known.word reference.name
  binding : reference.binding = layout.names.binding reference.name

mutual

/-- An expression that is ready in a layout, in a class of a kind. -/
def Expr.Ready (known : Known) (enclosing : ClassKind) (layout : Layout) : Expr → Prop
  | .literal _ => True
  | .variable reference =>
    reference.Resolved known layout ∧ known.resolution ⟨.variable reference, layout, none⟩
  | .assign target value =>
    target.Resolved known layout ∧ known.resolution ⟨.assign target value, layout, none⟩ ∧
      value.Ready known enclosing layout
  | .unary _ operand _ => operand.Ready known enclosing layout
  | .binary op left right _ =>
    op ∈ BinaryOp.known ∧ left.Ready known enclosing layout ∧ right.Ready known enclosing layout
  | .logical _ left right =>
    left.Ready known enclosing layout ∧ right.Ready known enclosing layout
  | .grouping inner => inner.Ready known enclosing layout
  | .call callee arguments _ =>
    callee.Ready known enclosing layout ∧ Expr.AllReady known enclosing layout arguments
  | .get object name _ => object.Ready known enclosing layout ∧ known.word name
  | .set object _ value _ =>
    object.Ready known enclosing layout ∧ value.Ready known enclosing layout
  | .this anchor binding =>
    enclosing ≠ .none ∧ binding = layout.names.binding "this" ∧
      known.resolution ⟨.this anchor binding, layout, none⟩
  | .super method anchor binding =>
    enclosing = .subclass ∧ binding = layout.names.binding "super" ∧
      known.resolution ⟨.super method anchor binding, layout, none⟩ ∧ known.word method

/-- Expressions that are ready in a layout. -/
def Expr.AllReady (known : Known) (enclosing : ClassKind) (layout : Layout) :
    List Expr → Prop
  | [] => True
  | e :: rest => e.Ready known enclosing layout ∧ Expr.AllReady known enclosing layout rest

end

/-- A superclass that is ready in the layout of a class whose name is declared already. -/
def SuperclassReady (known : Known) (layout : Layout) (name : String) :
    Option Reference → Prop
  | none => True
  | some parent =>
    parent.name ≠ name ∧ parent.Resolved known layout ∧
      known.resolution ⟨.variable parent, layout, some name⟩

mutual

/-- A statement that is ready at a place in a layout. -/
def Stmt.Ready (known : Known) (place : Place) (layout : Layout) : Stmt → Prop
  | .expression value => value.Ready known place.enclosing layout
  | .print value => value.Ready known place.enclosing layout
  | .declare name none => IsName name
  | .declare name (some value) => IsName name ∧ value.Ready known place.enclosing layout
  | .block body => Stmt.AllReady known place (layout.openBlock body) body
  | .ifThen condition body =>
    condition.Ready known place.enclosing layout ∧ body.Ready known place layout ∧
      body.layoutAfter layout = layout
  | .ifElse condition body alternative =>
    condition.Ready known place.enclosing layout ∧
      (body.Ready known place layout ∧ body.layoutAfter layout = layout) ∧
      alternative.Ready known place layout ∧ alternative.layoutAfter layout = layout
  | .loop condition body =>
    condition.Ready known place.enclosing layout ∧ body.Ready known place layout ∧
      body.layoutAfter layout = layout
  | .function declaration =>
    IsName declaration.name ∧
      declaration.Ready known place false (layout.declare declaration.name)
  | .returning none => place.function ≠ .none
  | .returning (some value) =>
    place.function ≠ .none ∧ value.Ready known place.enclosing layout
  | .classDecl name superclass methods =>
    (IsName name ∧ known.word name) ∧
      SuperclassReady known (layout.declare name) name superclass ∧
      FunctionDecl.AllReady known { place with enclosing := classKind superclass } true
        ((layout.declare name).openClass superclass) methods

/-- Statements that are ready in turn. -/
def Stmt.AllReady (known : Known) (place : Place) (layout : Layout) :
    List Stmt → Prop
  | [] => True
  | s :: rest =>
    s.Ready known place layout ∧ Stmt.AllReady known place (s.layoutAfter layout) rest

/-- A function, or a method, whose body is ready inside its call. -/
def FunctionDecl.Ready (known : Known) (place : Place) (method : Bool)
    (layout : Layout) : FunctionDecl → Prop
  | .mk name params body anchor =>
    known.word name ∧ (∀ param ∈ params, IsName param) ∧
      Stmt.AllReady known { place with function := bodyKind method name }
        (layout.openCall (.mk name params body anchor)) body

/-- Functions or methods that are ready. -/
def FunctionDecl.AllReady (known : Known) (place : Place) (method : Bool)
    (layout : Layout) : List FunctionDecl → Prop
  | [] => True
  | f :: rest =>
    f.Ready known place method layout ∧ FunctionDecl.AllReady known place method layout rest

end

/-! ### Binding makes code ready -/

section Binding

variable {known : Known}

mutual

/-- Binding the names of a legal expression makes it ready. -/
theorem Expr.ready_bindNames {enclosing : ClassKind} {layout : Layout} :
    ∀ e : Expr, e.Legal enclosing → e.Over known.toVocabulary →
      (∀ r ∈ e.resolutions layout, known.resolution r) →
      (e.bindNames layout.names).Ready known enclosing layout
  | .literal _, _, _, _ => trivial
  | .variable _, hlegal, hover, hknown =>
    ⟨⟨hlegal, hover.word, rfl⟩, hknown _ List.mem_cons_self⟩
  | .assign _ value, ⟨hname, hvalue⟩, ⟨hover, hover'⟩, hknown => by
    obtain ⟨hsub, hself⟩ := List.forall_mem_append.mp hknown
    exact ⟨⟨hname, hover.word, rfl⟩, hself _ List.mem_cons_self,
      value.ready_bindNames hvalue hover' hsub⟩
  | .unary _ operand _, hlegal, ⟨_, hover, _⟩, hknown =>
    operand.ready_bindNames hlegal hover hknown
  | .binary _ left right _, ⟨hop, hleft, hright⟩, ⟨_, hover, hover', _⟩, hknown => by
    obtain ⟨hknown, hknown'⟩ := List.forall_mem_append.mp hknown
    exact ⟨hop, left.ready_bindNames hleft hover hknown,
      right.ready_bindNames hright hover' hknown'⟩
  | .logical _ left right, ⟨hleft, hright⟩, ⟨_, hover, hover'⟩, hknown => by
    obtain ⟨hknown, hknown'⟩ := List.forall_mem_append.mp hknown
    exact ⟨left.ready_bindNames hleft hover hknown, right.ready_bindNames hright hover' hknown'⟩
  | .grouping inner, hlegal, hover, hknown => inner.ready_bindNames hlegal hover hknown
  | .call callee arguments _, ⟨hcallee, harguments⟩, ⟨hover, hover', _⟩, hknown => by
    obtain ⟨hknown, hknown'⟩ := List.forall_mem_append.mp hknown
    exact ⟨callee.ready_bindNames hcallee hover hknown,
      Expr.ready_bindAll arguments harguments hover' hknown'⟩
  | .get object _ _, hlegal, ⟨hover, hname, _⟩, hknown =>
    ⟨object.ready_bindNames hlegal hover hknown, hname⟩
  | .set object _ value _, ⟨hobject, hvalue⟩, ⟨hover, _, hover', _⟩, hknown => by
    obtain ⟨hknown, hknown'⟩ := List.forall_mem_append.mp hknown
    exact ⟨object.ready_bindNames hobject hover hknown,
      value.ready_bindNames hvalue hover' hknown'⟩
  | .this _ _, hlegal, _, hknown => ⟨hlegal, rfl, hknown _ List.mem_cons_self⟩
  | .super _ _ _, hlegal, ⟨hmethod, _⟩, hknown =>
    ⟨hlegal, rfl, hknown _ List.mem_cons_self, hmethod⟩

theorem Expr.ready_bindAll {enclosing : ClassKind} {layout : Layout} :
    ∀ es : List Expr, Expr.AllLegal enclosing es → Expr.AllOver known.toVocabulary es →
      (∀ r ∈ Expr.resolutionsAll layout es, known.resolution r) →
      Expr.AllReady known enclosing layout (Expr.bindAll layout.names es)
  | [], _, _, _ => trivial
  | e :: rest, ⟨he, hrest⟩, ⟨hover, hover'⟩, hknown => by
    obtain ⟨hknown, hknown'⟩ := List.forall_mem_append.mp hknown
    exact ⟨e.ready_bindNames he hover hknown, Expr.ready_bindAll rest hrest hover' hknown'⟩

end

theorem superclassReady_bindName {layout : Layout} {name : String}
    {superclass : Option Reference}
    (hlegal : ∀ parent ∈ superclass, IsName parent.name ∧ parent.name ≠ name)
    (hover : ∀ parent ∈ superclass, parent.Over known.toVocabulary)
    (hknown : ∀ r ∈ superclassResolutions layout name superclass, known.resolution r) :
    SuperclassReady known layout name (superclass.map (·.bindName layout.names)) := by
  cases superclass with
  | none => trivial
  | some parent =>
    obtain ⟨hname, hother⟩ := hlegal parent rfl
    exact ⟨hother, ⟨hname, (hover parent rfl).word, rfl⟩, hknown _ List.mem_cons_self⟩

/-- The layout after a statement is the one in which binding goes on. -/
theorem Stmt.names_of_layoutAfter_eq {s : Stmt} {layout : Layout}
    (h : s.layoutAfter layout = layout) : (s.bindNames layout.names).2 = layout.names := by
  rw [← s.names_layoutAfter, h]

mutual

/-- Binding the names of a legal statement makes it ready. -/
theorem Stmt.ready_bindNames {place : Place} {layout : Layout} :
    ∀ s : Stmt, s.Legal place → s.Over known.toVocabulary →
      (∀ r ∈ s.resolutions layout, known.resolution r) →
      (s.bindNames layout.names).1.Ready known place layout
  | .expression value, hlegal, hover, hknown => value.ready_bindNames hlegal hover hknown
  | .print value, hlegal, hover, hknown => value.ready_bindNames hlegal hover hknown
  | .declare _ none, hlegal, _, _ => hlegal
  | .declare _ (some value), ⟨hname, hvalue⟩, ⟨_, hover⟩, hknown =>
    ⟨hname, value.ready_bindNames hvalue (hover value rfl) hknown⟩
  | .block body, hlegal, hover, hknown => Stmt.ready_bindAll body hlegal hover hknown
  | .ifThen condition body, ⟨hcondition, hplain, hbody⟩, ⟨hover, hover'⟩, hknown => by
    obtain ⟨hknown, hknown'⟩ := List.forall_mem_append.mp hknown
    refine ⟨condition.ready_bindNames hcondition hover hknown,
      body.ready_bindNames hbody hover' hknown', ?_⟩
    exact (body.layoutAfter_bindNames _ _).trans (Stmt.layoutAfter_eq_of_plain hbody hplain layout)
  | .ifElse condition body alternative, ⟨hcondition, hplain, hbody, hplain', halternative⟩,
    ⟨hover, hover', hover''⟩, hknown => by
    obtain ⟨hknown, hknown''⟩ := List.forall_mem_append.mp hknown
    obtain ⟨hknown, hknown'⟩ := List.forall_mem_append.mp hknown
    -- neither branch declares anything, so both are bound in the scopes around the `if`
    have hafter := Stmt.layoutAfter_eq_of_plain hbody hplain layout
    have hafter' := Stmt.layoutAfter_eq_of_plain halternative hplain' layout
    rw [hafter] at hknown''
    have hready := alternative.ready_bindNames halternative hover'' hknown''
    simp only [Stmt.bindNames, Stmt.names_of_layoutAfter_eq hafter]
    exact ⟨condition.ready_bindNames hcondition hover hknown,
      ⟨body.ready_bindNames hbody hover' hknown', (body.layoutAfter_bindNames _ _).trans hafter⟩,
      hready, (alternative.layoutAfter_bindNames _ _).trans hafter'⟩
  | .loop condition body, ⟨hcondition, hplain, hbody⟩, ⟨hover, hover'⟩, hknown => by
    obtain ⟨hknown, hknown'⟩ := List.forall_mem_append.mp hknown
    refine ⟨condition.ready_bindNames hcondition hover hknown,
      body.ready_bindNames hbody hover' hknown', ?_⟩
    exact (body.layoutAfter_bindNames _ _).trans (Stmt.layoutAfter_eq_of_plain hbody hplain layout)
  | .function (.mk name params body anchor), hlegal, hover, hknown => by
    -- the name is declared before the body is bound, which may call the function itself
    have hready : (FunctionDecl.bindNames (layout.declare name).names
        (.mk name params body anchor)).Ready known place false (layout.declare name) :=
      FunctionDecl.ready_bindNames _ hlegal hover hknown
    rw [Layout.names_declare] at hready
    exact ⟨hlegal.1, hready⟩
  | .returning none, hlegal, _, _ => hlegal
  | .returning (some value), ⟨hplace, _, hvalue⟩, hover, hknown =>
    ⟨hplace, value.ready_bindNames hvalue (hover value rfl) hknown⟩
  | .classDecl name superclass methods, ⟨hname, hsuperclass, hmethods⟩, ⟨hword, hover, hover'⟩,
    hknown => by
    obtain ⟨hknown, hknown'⟩ := List.forall_mem_append.mp hknown
    -- the name is declared before the superclass is bound, and is another name
    have hparent := superclassReady_bindName hsuperclass hover hknown
    have hready := FunctionDecl.ready_bindAll methods hmethods hover' hknown'
    rw [Layout.names_declare] at hparent
    rw [Layout.names_openClass, Layout.names_declare] at hready
    refine ⟨⟨hname, hword⟩, hparent, ?_⟩
    cases superclass with
    | none => exact hready
    | some parent => exact hready

/-- Binding the names of legal statements in turn makes them ready. -/
theorem Stmt.ready_bindAll {place : Place} {layout : Layout} :
    ∀ body : List Stmt, Stmt.AllLegal place body → Stmt.AllOver known.toVocabulary body →
      (∀ r ∈ Stmt.resolutionsAll layout body, known.resolution r) →
      Stmt.AllReady known place layout (Stmt.bindAll layout.names body)
  | [], _, _, _ => trivial
  | s :: rest, ⟨hs, hrest⟩, ⟨hover, hover'⟩, hknown => by
    obtain ⟨hknown, hknown'⟩ := List.forall_mem_append.mp hknown
    have hready := Stmt.ready_bindAll rest hrest hover' hknown'
    rw [s.names_layoutAfter] at hready
    refine ⟨s.ready_bindNames hs hover hknown, ?_⟩
    rw [s.layoutAfter_bindNames]
    exact hready

theorem FunctionDecl.ready_bindNames {place : Place} {method : Bool} {layout : Layout} :
    ∀ f : FunctionDecl, f.Legal place method → f.Over known.toVocabulary →
      (∀ r ∈ f.resolutions layout, known.resolution r) →
      (f.bindNames layout.names).Ready known place method layout
  | .mk _ _ body _, ⟨_, hparams, hbody⟩, ⟨hword, _, hover, _⟩, hknown =>
    ⟨hword, hparams, Stmt.ready_bindAll body hbody hover hknown⟩

theorem FunctionDecl.ready_bindAll {place : Place} {method : Bool} {layout : Layout} :
    ∀ fs : List FunctionDecl, FunctionDecl.AllLegal place method fs →
      FunctionDecl.AllOver known.toVocabulary fs →
      (∀ r ∈ FunctionDecl.resolutionsAll layout fs, known.resolution r) →
      FunctionDecl.AllReady known place method layout (FunctionDecl.bindAll layout.names fs)
  | [], _, _, _ => trivial
  | f :: rest, ⟨hf, hrest⟩, ⟨hover, hover'⟩, hknown => by
    obtain ⟨hknown, hknown'⟩ := List.forall_mem_append.mp hknown
    exact ⟨f.ready_bindNames hf hover hknown,
      FunctionDecl.ready_bindAll rest hrest hover' hknown'⟩

end

end Binding

end Treewalk
