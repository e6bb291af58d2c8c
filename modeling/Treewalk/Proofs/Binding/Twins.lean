import Mathlib.Data.List.Forall2
import Treewalk.Proofs.Binding.Alike
import Treewalk.Proofs.Binding.Layout

/-!
# Trees that are twins

Two bound trees are twins when they do the same in different surroundings. Where the surroundings
have scopes in common, links say which distances lead to the same scope; other scopes stand in one
surrounding only, and declare nothing. Twins may be the same tree, bound twice. With more leeway,
they may also differ in the places of their nodes and in the names of some of the scopes: a link
says whether its scope is one of those that are renamed.
-/

namespace Treewalk

open Grammar (Place)

/-! ### Leeway -/

/-- How far twins may differ beside their distances: not at all, or in places and in the names of
scopes that are renamed. -/
abbrev Leeway := Option Renaming

namespace Leeway

variable {ρ : Leeway}

/-- Names that correspond in a scope, which may be a renamed one. -/
def Names (ρ : Leeway) (marked : Bool) (name name' : String) : Prop :=
  match ρ with
  | none => name' = name
  | some ρ => ρ.Admits marked name ∧ name' = ρ.counterpart marked name

/-- Things that differ in their places only are the same, unless there is leeway. -/
def Places {α : Type} (ρ : Leeway) (place place' : α) : Prop := ρ = none → place' = place

theorem Places.refl {α : Type} (ρ : Leeway) (place : α) : ρ.Places place place := fun _ => rfl

theorem Places.map {α β : Type} {place place' : α} (h : ρ.Places place place') (f : α → β) :
    ρ.Places (f place) (f place') :=
  fun hnone => congrArg f (h hnone)

theorem Names.eq {name name' : String} (h : ρ.Names false name name') : name' = name := by
  cases ρ with
  | none => exact h
  | some ρ => exact h.2.trans (ρ.counterpart_false name)

/-- In a scope that is not renamed, every name corresponds to itself. -/
theorem names_false (ρ : Leeway) (name : String) : ρ.Names false name name := by
  cases ρ with
  | none => exact rfl
  | some ρ => exact ⟨ρ.admits_false name, (ρ.counterpart_false name).symm⟩

theorem names_this (ρ : Leeway) (marked : Bool) : ρ.Names marked "this" "this" := by
  cases ρ with
  | none => exact rfl
  | some ρ =>
    exact ⟨ρ.admits_of_ne ρ.this_ne.2 marked, (ρ.counterpart_of_ne ρ.this_ne.1 marked).symm⟩

theorem names_super (ρ : Leeway) (marked : Bool) : ρ.Names marked "super" "super" := by
  cases ρ with
  | none => exact rfl
  | some ρ =>
    exact ⟨ρ.admits_of_ne ρ.super_ne.2 marked, (ρ.counterpart_of_ne ρ.super_ne.1 marked).symm⟩

theorem forall₂_names (ρ : Leeway) (names : List String) :
    List.Forall₂ (ρ.Names false) names names :=
  List.forall₂_same.mpr fun name _ => ρ.names_false name

/-- Different names of a scope correspond to different names. -/
theorem Names.eq_iff {marked : Bool} {a a' b b' : String} (ha : ρ.Names marked a a')
    (hb : ρ.Names marked b b') : a = b ↔ a' = b' := by
  cases ρ with
  | none =>
    obtain rfl : a' = a := ha
    obtain rfl : b' = b := hb
    exact Iff.rfl
  | some ρ =>
    rw [ha.2, hb.2]
    exact (ρ.counterpart_inj ha.1 hb.1).symm

end Leeway

/-! ### Links -/

/-- Which distances in two surroundings lead to the same scope, and whether that is renamed. -/
abbrev Links := Nat → Nat → Bool → Prop

namespace Links

/-- The links in a further scope of both surroundings. -/
def enter (links : Links) (marked : Bool) : Links
  | 0, 0, mark => mark = marked
  | hops + 1, hops' + 1, mark => links hops hops' mark
  | 0, _ + 1, _ | _ + 1, 0, _ => False

/-- The links in a further scope of the first surrounding only. -/
def enterFirst (links : Links) : Links
  | 0, _, _ => False
  | hops + 1, hops', mark => links hops hops' mark

/-- The links in a further scope of the second surrounding only. -/
def enterSecond (links : Links) : Links
  | _, 0, _ => False
  | hops, hops' + 1, mark => links hops hops' mark

/-- The links around the methods of a class, whose scopes are never renamed. -/
def enterClass (links : Links) (superclass : Option Reference) : Links :=
  match superclass with
  | some _ => (links.enter false).enter false
  | none => links.enter false

/-- Every distance is linked to itself, and no scope is renamed. -/
def same : Links := fun hops hops' marked => hops' = hops ∧ marked = false

/-- Every distance is linked to itself. -/
def Reflexive (links : Links) : Prop := ∀ hops, links hops hops false

theorem reflexive_same : Reflexive same := fun _ => ⟨rfl, rfl⟩

theorem Reflexive.enter {links : Links} (h : links.Reflexive) : (links.enter false).Reflexive := by
  intro hops
  cases hops with
  | zero => rfl
  | succ hops => exact h hops

theorem Reflexive.enterClass {links : Links} (h : links.Reflexive)
    (superclass : Option Reference) : (links.enterClass superclass).Reflexive := by
  cases superclass with
  | none => exact h.enter
  | some => exact h.enter.enter

end Links

/-! ### Trees -/

/-- Bindings to the same scope. -/
inductive Binding.Twin (links : Links) : Bool → Binding → Binding → Prop where
  | global : Twin links false .global .global
  | enclosing {hops hops' : Nat} {marked : Bool} (h : links hops hops' marked) :
    Twin links marked (.enclosing hops) (.enclosing hops')

/-- Bindings of `super` to the same scope. The scope just inside is the same too, since it holds the
receiver. -/
inductive Binding.TwinSuper (links : Links) : Binding → Binding → Prop where
  | global : TwinSuper links .global .global
  | here {marked : Bool} (h : links 0 0 marked) : TwinSuper links (.enclosing 0) (.enclosing 0)
  | enclosing {hops hops' : Nat} {marked marked' : Bool} (h : links (hops + 1) (hops' + 1) marked)
    (hthis : links hops hops' marked') :
    TwinSuper links (.enclosing (hops + 1)) (.enclosing (hops' + 1))

/-- Uses of names that correspond in the same scope. -/
structure Reference.Twin (ρ : Leeway) (links : Links) (reference reference' : Reference) :
    Prop where
  anchor : ρ.Places reference.anchor reference'.anchor
  bound : ∃ marked, ρ.Names marked reference.name reference'.name ∧
    reference.binding.Twin links marked reference'.binding

/-- Expressions that are twins. -/
inductive Expr.Twin (ρ : Leeway) (links : Links) : Expr → Expr → Prop where
  | literal (value : Literal) : Twin ρ links (.literal value) (.literal value)
  | variable {reference reference' : Reference} (h : reference.Twin ρ links reference') :
    Twin ρ links (.variable reference) (.variable reference')
  | assign {target target' : Reference} {value value' : Expr}
    (htarget : target.Twin ρ links target') (hvalue : Twin ρ links value value') :
    Twin ρ links (.assign target value) (.assign target' value')
  | unary (op : UnaryOp) {operand operand' : Expr} {anchor anchor' : Anchor}
    (hplace : ρ.Places anchor anchor') (h : Twin ρ links operand operand') :
    Twin ρ links (.unary op operand anchor) (.unary op operand' anchor')
  | binary (op : BinaryOp) {left left' right right' : Expr} {anchor anchor' : Anchor}
    (hplace : ρ.Places anchor anchor') (hleft : Twin ρ links left left')
    (hright : Twin ρ links right right') :
    Twin ρ links (.binary op left right anchor) (.binary op left' right' anchor')
  | logical (op : LogicalOp) {left left' right right' : Expr} (hleft : Twin ρ links left left')
    (hright : Twin ρ links right right') :
    Twin ρ links (.logical op left right) (.logical op left' right')
  | grouping {inner inner' : Expr} (h : Twin ρ links inner inner') :
    Twin ρ links (.grouping inner) (.grouping inner')
  | call {callee callee' : Expr} {arguments arguments' : List Expr} {anchor anchor' : Anchor}
    (hplace : ρ.Places anchor anchor') (hcallee : Twin ρ links callee callee')
    (harguments : List.Forall₂ (Twin ρ links) arguments arguments') :
    Twin ρ links (.call callee arguments anchor) (.call callee' arguments' anchor')
  | get {object object' : Expr} (name : String) {anchor anchor' : Anchor}
    (hplace : ρ.Places anchor anchor') (h : Twin ρ links object object') :
    Twin ρ links (.get object name anchor) (.get object' name anchor')
  | set {object object' value value' : Expr} (name : String) {anchor anchor' : Anchor}
    (hplace : ρ.Places anchor anchor') (hobject : Twin ρ links object object')
    (hvalue : Twin ρ links value value') :
    Twin ρ links (.set object name value anchor) (.set object' name value' anchor')
  | this {anchor anchor' : Anchor} (hplace : ρ.Places anchor anchor') {binding binding' : Binding}
    {marked : Bool} (h : binding.Twin links marked binding') :
    Twin ρ links (.this anchor binding) (.this anchor' binding')
  | super (method : String) {anchor anchor' : Anchor} (hplace : ρ.Places anchor anchor')
    {binding binding' : Binding} (h : binding.TwinSuper links binding') :
    Twin ρ links (.super method anchor binding) (.super method anchor' binding')

mutual

/-- Statements that are twins. What declares a name stands in the same innermost scope, and only
variables and parameters may have other names. -/
inductive Stmt.Twin (ρ : Leeway) : Links → Stmt → Stmt → Prop where
  | expression {links : Links} {value value' : Expr} (h : value.Twin ρ links value') :
    Stmt.Twin ρ links (.expression value) (.expression value')
  | print {links : Links} {value value' : Expr} (h : value.Twin ρ links value') :
    Stmt.Twin ρ links (.print value) (.print value')
  | declare {links : Links} {name name' : String} {initializer initializer' : Option Expr}
    {marked : Bool} (hhere : links 0 0 marked) (hname : ρ.Names marked name name')
    (h : Option.Rel (Expr.Twin ρ links) initializer initializer') :
    Stmt.Twin ρ links (.declare name initializer) (.declare name' initializer')
  | block {links : Links} {body body' : List Stmt} (marked : Bool)
    (h : Stmt.AllTwin ρ (links.enter marked) body body') :
    Stmt.Twin ρ links (.block body) (.block body')
  | ifThen {links : Links} {condition condition' : Expr} {body body' : Stmt}
    (hcondition : condition.Twin ρ links condition') (hbody : Stmt.Twin ρ links body body') :
    Stmt.Twin ρ links (.ifThen condition body) (.ifThen condition' body')
  | ifElse {links : Links} {condition condition' : Expr} {body body' other other' : Stmt}
    (hcondition : condition.Twin ρ links condition') (hbody : Stmt.Twin ρ links body body')
    (hother : Stmt.Twin ρ links other other') :
    Stmt.Twin ρ links (.ifElse condition body other) (.ifElse condition' body' other')
  | loop {links : Links} {condition condition' : Expr} {body body' : Stmt}
    (hcondition : condition.Twin ρ links condition') (hbody : Stmt.Twin ρ links body body') :
    Stmt.Twin ρ links (.loop condition body) (.loop condition' body')
  | function {links : Links} {declaration declaration' : FunctionDecl} {marked : Bool}
    (hhere : links 0 0 marked) (hname : ρ.Names marked declaration.name declaration.name)
    (h : FunctionDecl.Twin ρ links declaration declaration') :
    Stmt.Twin ρ links (.function declaration) (.function declaration')
  | returning {links : Links} {value value' : Option Expr}
    (h : Option.Rel (Expr.Twin ρ links) value value') :
    Stmt.Twin ρ links (.returning value) (.returning value')
  | classDecl {links : Links} {name : String} {superclass superclass' : Option Reference}
    {methods methods' : List FunctionDecl} {marked : Bool} (hhere : links 0 0 marked)
    (hname : ρ.Names marked name name)
    (hsuperclass : Option.Rel (Reference.Twin ρ links) superclass superclass')
    (hmethods : FunctionDecl.AllTwin ρ (links.enterClass superclass) methods methods') :
    Stmt.Twin ρ links (.classDecl name superclass methods) (.classDecl name superclass' methods')

/-- Functions that are twins. Parameters and body share one scope. -/
inductive FunctionDecl.Twin (ρ : Leeway) : Links → FunctionDecl → FunctionDecl → Prop where
  | mk {links : Links} (name : String) {params params' : List String} {body body' : List Stmt}
    {anchor anchor' : Anchor} (marked : Bool)
    (hparams : List.Forall₂ (ρ.Names marked) params params') (hplace : ρ.Places anchor anchor')
    (h : Stmt.AllTwin ρ (links.enter marked) body body') :
    FunctionDecl.Twin ρ links (.mk name params body anchor) (.mk name params' body' anchor')

/-- Lists of statements that are twins. -/
inductive Stmt.AllTwin (ρ : Leeway) : Links → List Stmt → List Stmt → Prop where
  | nil (links : Links) : Stmt.AllTwin ρ links [] []
  | cons {links : Links} {s s' : Stmt} {rest rest' : List Stmt} (h : Stmt.Twin ρ links s s')
    (hrest : Stmt.AllTwin ρ links rest rest') : Stmt.AllTwin ρ links (s :: rest) (s' :: rest')

/-- Lists of functions that are twins. -/
inductive FunctionDecl.AllTwin (ρ : Leeway) :
    Links → List FunctionDecl → List FunctionDecl → Prop where
  | nil (links : Links) : FunctionDecl.AllTwin ρ links [] []
  | cons {links : Links} {f f' : FunctionDecl} {rest rest' : List FunctionDecl}
    (h : FunctionDecl.Twin ρ links f f') (hrest : FunctionDecl.AllTwin ρ links rest rest') :
    FunctionDecl.AllTwin ρ links (f :: rest) (f' :: rest')

end

variable {ρ : Leeway}

theorem FunctionDecl.Twin.name_eq {links : Links} {f f' : FunctionDecl} (h : f.Twin ρ links f') :
    f'.name = f.name := by
  cases h with
  | mk => rfl

theorem FunctionDecl.Twin.length_params {links : Links} {f f' : FunctionDecl}
    (h : f.Twin ρ links f') : f'.params.length = f.params.length := by
  cases h with
  | mk _ _ hparams => exact hparams.length_eq.symm

theorem FunctionDecl.Twin.anchor {links : Links} {f f' : FunctionDecl} (h : f.Twin ρ links f') :
    ρ.Places f.anchor f'.anchor := by
  cases h with
  | mk _ _ _ hplace => exact hplace

/-- The scope of a call may be a renamed one. -/
theorem FunctionDecl.Twin.body {links : Links} {f f' : FunctionDecl} (h : f.Twin ρ links f') :
    ∃ marked, List.Forall₂ (ρ.Names marked) f.params f'.params ∧
      Stmt.AllTwin ρ (links.enter marked) f.body f'.body := by
  cases h with
  | mk _ marked hparams _ h => exact ⟨marked, hparams, h⟩

/-! ### A tree is its own twin -/

section Reflexivity

theorem Binding.twin_refl {links : Links} (h : links.Reflexive) (binding : Binding) :
    binding.Twin links false binding := by
  cases binding with
  | global => exact .global
  | enclosing hops => exact .enclosing (h hops)

theorem Binding.twinSuper_refl {links : Links} (h : links.Reflexive) (binding : Binding) :
    binding.TwinSuper links binding := by
  cases binding with
  | global => exact .global
  | enclosing hops =>
    cases hops with
    | zero => exact .here (h 0)
    | succ hops => exact .enclosing (h _) (h _)

theorem Reference.twin_refl {links : Links} (h : links.Reflexive) (reference : Reference) :
    reference.Twin ρ links reference :=
  ⟨.refl ρ _, false, ρ.names_false _, reference.binding.twin_refl h⟩

mutual

theorem Expr.twin_refl {links : Links} (h : links.Reflexive) (e : Expr) : e.Twin ρ links e := by
  cases e with
  | literal value => exact .literal value
  | «variable» reference => exact .variable (reference.twin_refl h)
  | assign target value => exact .assign (target.twin_refl h) (value.twin_refl h)
  | unary op operand anchor => exact .unary op (.refl ρ anchor) (operand.twin_refl h)
  | binary op left right anchor =>
    exact .binary op (.refl ρ anchor) (left.twin_refl h) (right.twin_refl h)
  | logical op left right => exact .logical op (left.twin_refl h) (right.twin_refl h)
  | grouping inner => exact .grouping (inner.twin_refl h)
  | call callee arguments anchor =>
    exact .call (.refl ρ anchor) (callee.twin_refl h) (Expr.allTwin_refl h arguments)
  | get object name anchor => exact .get name (.refl ρ anchor) (object.twin_refl h)
  | set object name value anchor =>
    exact .set name (.refl ρ anchor) (object.twin_refl h) (value.twin_refl h)
  | this anchor binding => exact .this (.refl ρ anchor) (binding.twin_refl h)
  | super method anchor binding =>
    exact .super method (.refl ρ anchor) (binding.twinSuper_refl h)

theorem Expr.allTwin_refl {links : Links} (h : links.Reflexive) (es : List Expr) :
    List.Forall₂ (Expr.Twin ρ links) es es := by
  cases es with
  | nil => exact .nil
  | cons e rest => exact .cons (e.twin_refl h) (Expr.allTwin_refl h rest)

end

theorem Option.rel_refl_of_forall {α : Type} {R : α → α → Prop} (h : ∀ x, R x x)
    (value : Option α) : Option.Rel R value value := by
  cases value with
  | none => exact .none
  | some x => exact .some (h x)

mutual

theorem Stmt.twin_refl {links : Links} (h : links.Reflexive) (s : Stmt) : s.Twin ρ links s := by
  cases s with
  | expression value => exact .expression (value.twin_refl h)
  | print value => exact .print (value.twin_refl h)
  | declare name initializer =>
    exact .declare (h 0) (ρ.names_false name)
      (Option.rel_refl_of_forall (Expr.twin_refl h) initializer)
  | block body => exact .block false (Stmt.allTwin_refl h.enter body)
  | ifThen condition body => exact .ifThen (condition.twin_refl h) (body.twin_refl h)
  | ifElse condition body other =>
    exact .ifElse (condition.twin_refl h) (body.twin_refl h) (other.twin_refl h)
  | loop condition body => exact .loop (condition.twin_refl h) (body.twin_refl h)
  | function declaration =>
    exact .function (h 0) (ρ.names_false _) (declaration.twin_refl h)
  | returning value => exact .returning (Option.rel_refl_of_forall (Expr.twin_refl h) value)
  | classDecl name superclass methods =>
    exact .classDecl (h 0) (ρ.names_false name)
      (Option.rel_refl_of_forall (Reference.twin_refl h) superclass)
      (FunctionDecl.allTwin_refl (h.enterClass superclass) methods)

theorem Stmt.allTwin_refl {links : Links} (h : links.Reflexive) (body : List Stmt) :
    Stmt.AllTwin ρ links body body := by
  cases body with
  | nil => exact .nil links
  | cons s rest => exact .cons (s.twin_refl h) (Stmt.allTwin_refl h rest)

theorem FunctionDecl.twin_refl {links : Links} (h : links.Reflexive) (f : FunctionDecl) :
    f.Twin ρ links f := by
  cases f with
  | mk name params body anchor =>
    exact .mk name false (ρ.forall₂_names params) (.refl ρ anchor)
      (Stmt.allTwin_refl h.enter body)

theorem FunctionDecl.allTwin_refl {links : Links} (h : links.Reflexive)
    (fs : List FunctionDecl) : FunctionDecl.AllTwin ρ links fs fs := by
  cases fs with
  | nil => exact .nil links
  | cons f rest => exact .cons (f.twin_refl h) (FunctionDecl.allTwin_refl h rest)

end

end Reflexivity

/-! ### Scopes that agree -/

/-- A binding as it is seen from one scope further inside. -/
def Binding.further : Binding → Binding
  | .global => .global
  | .enclosing hops => .enclosing (hops + 1)

section Further

variable {links : Links} {marked : Bool} {binding binding' : Binding}

theorem Binding.Twin.enter (h : binding.Twin links marked binding') (mark : Bool) :
    binding.further.Twin (links.enter mark) marked binding'.further := by
  cases h with
  | global => exact .global
  | enclosing hlinks => exact .enclosing hlinks

theorem Binding.Twin.enterFirst (h : binding.Twin links marked binding') :
    binding.further.Twin links.enterFirst marked binding' := by
  cases h with
  | global => exact .global
  | enclosing hlinks => exact .enclosing hlinks

theorem Binding.Twin.enterSecond (h : binding.Twin links marked binding') :
    binding.Twin links.enterSecond marked binding'.further := by
  cases h with
  | global => exact .global
  | enclosing hlinks => exact .enclosing hlinks

theorem Binding.TwinSuper.enter (h : binding.TwinSuper links binding') (mark : Bool) :
    binding.further.TwinSuper (links.enter mark) binding'.further := by
  cases h with
  | global => exact .global
  | here hlinks => exact .enclosing hlinks (rfl : mark = mark)
  | enclosing hlinks hthis => exact .enclosing hlinks hthis

theorem Binding.TwinSuper.enterFirst (h : binding.TwinSuper links binding')
    (hhere : binding ≠ .enclosing 0) : binding.further.TwinSuper links.enterFirst binding' := by
  cases h with
  | global => exact .global
  -- here the new scope would come between `super` and the receiver, and it is linked to nothing
  | here => exact absurd rfl hhere
  | enclosing hlinks hthis => exact .enclosing hlinks hthis

theorem Binding.TwinSuper.enterSecond (h : binding.TwinSuper links binding')
    (hhere : binding' ≠ .enclosing 0) : binding.TwinSuper links.enterSecond binding'.further := by
  cases h with
  | global => exact .global
  | here => exact absurd rfl hhere
  | enclosing hlinks hthis => exact .enclosing hlinks hthis

end Further

namespace StaticScopes

/-- Every name has linked bindings, to scopes that are not renamed. -/
structure Agree (links : Links) (scopes scopes' : StaticScopes) : Prop where
  names : ∀ name, (scopes.binding name).Twin links false (scopes'.binding name)
  super : (scopes.binding "super").TwinSuper links (scopes'.binding "super")

/-- Scopes that agree, of which the innermost is the same. -/
structure Share (links : Links) (scopes scopes' : StaticScopes) : Prop
    extends Agree links scopes scopes' where
  here : links 0 0 false
  outside : scopes = [] ↔ scopes' = []

/-- A name that is not declared in the innermost scope. -/
def NotHere (scopes : StaticScopes) (name : String) : Prop := scopes.binding name ≠ .enclosing 0

variable {links : Links} {scopes scopes' : StaticScopes}

theorem binding_of_mem {scope : List String} {name : String} (h : name ∈ scope)
    (scopes : StaticScopes) : binding (scope :: scopes) name = .enclosing 0 := by
  rw [binding_cons, if_pos h]

theorem binding_of_not_mem {scope : List String} {name : String} (h : name ∉ scope)
    (scopes : StaticScopes) : binding (scope :: scopes) name = (scopes.binding name).further := by
  rw [binding_cons, if_neg h]
  cases scopes.binding name <;> rfl

theorem share_refl (h : links.Reflexive) (scopes : StaticScopes) : Share links scopes scopes where
  names _ := Binding.twin_refl h _
  super := Binding.twinSuper_refl h _
  here := h 0
  outside := Iff.rfl

/-- A further scope of both surroundings is shared. -/
theorem Agree.enter (h : Agree links scopes scopes') (inner : List String) :
    Share (links.enter false) (inner :: scopes) (inner :: scopes') where
  here := rfl
  outside := by simp
  names := by
    intro name
    by_cases hname : name ∈ inner
    · rw [binding_of_mem hname, binding_of_mem hname]
      exact .enclosing (rfl : false = false)
    · rw [binding_of_not_mem hname, binding_of_not_mem hname]
      exact (h.names name).enter false
  super := by
    by_cases hname : "super" ∈ inner
    · rw [binding_of_mem hname, binding_of_mem hname]
      exact .here (rfl : false = false)
    · rw [binding_of_not_mem hname, binding_of_not_mem hname]
      exact h.super.enter false

/-- A further scope without names in the first surrounding. -/
theorem Agree.enterFirst (h : Agree links scopes scopes') (hsuper : scopes.NotHere "super") :
    Agree links.enterFirst ([] :: scopes) scopes' where
  names name := by
    rw [binding_of_not_mem List.not_mem_nil]
    exact (h.names name).enterFirst
  super := by
    rw [binding_of_not_mem List.not_mem_nil]
    exact h.super.enterFirst hsuper

/-- A further scope without names in the second surrounding. -/
theorem Agree.enterSecond (h : Agree links scopes scopes') (hsuper : scopes'.NotHere "super") :
    Agree links.enterSecond scopes ([] :: scopes') where
  names name := by
    rw [binding_of_not_mem List.not_mem_nil]
    exact (h.names name).enterSecond
  super := by
    rw [binding_of_not_mem List.not_mem_nil]
    exact h.super.enterSecond hsuper

/-- The scopes around the methods of a class. -/
theorem Agree.enterClass (h : Agree links scopes scopes') (superclass : Option Reference) :
    Agree (links.enterClass superclass) (methodScopes scopes superclass)
      (methodScopes scopes' superclass) := by
  cases superclass with
  | none => exact (h.enter ["this"]).toAgree
  | some _ => exact ((h.enter ["super"]).enter ["this"]).toAgree

theorem binding_declare_of_ne {name other : String} (h : other ≠ name) (scopes : StaticScopes) :
    (scopes.declare name).binding other = scopes.binding other := by
  cases scopes with
  | nil => rfl
  | cons scope outer =>
    rw [declare, binding_cons, binding_cons]
    simp [h]

theorem binding_declare_self {scopes : StaticScopes} (h : scopes ≠ []) (name : String) :
    (scopes.declare name).binding name = .enclosing 0 := by
  cases scopes with
  | nil => exact absurd rfl h
  | cons scope outer => exact binding_of_mem List.mem_cons_self outer

/-- A declaration in the shared scope is made on both sides. -/
theorem Share.declare (h : Share links scopes scopes') (name : String) :
    Share links (scopes.declare name) (scopes'.declare name) := by
  by_cases houtside : scopes = []
  · -- nothing is recorded outside all scopes
    have houtside' := h.outside.mp houtside
    subst houtside houtside'
    exact h
  · have houtside' : scopes' ≠ [] := fun hscopes' => houtside (h.outside.mpr hscopes')
    refine ⟨⟨fun other => ?_, ?_⟩, h.here, ?_⟩
    · by_cases hother : other = name
      · rw [hother, binding_declare_self houtside, binding_declare_self houtside']
        exact .enclosing h.here
      · rw [binding_declare_of_ne hother, binding_declare_of_ne hother]
        exact h.names other
    · by_cases hname : "super" = name
      · rw [← hname, binding_declare_self houtside, binding_declare_self houtside']
        exact .here h.here
      · rw [binding_declare_of_ne hname, binding_declare_of_ne hname]
        exact h.super
    · cases scopes with
      | nil => exact absurd rfl houtside
      | cons => cases scopes' with
        | nil => exact absurd rfl houtside'
        | cons => simp [StaticScopes.declare]

end StaticScopes

/-! ### Binding a tree twice -/

section Binding

variable {links : Links} {scopes scopes' : StaticScopes}

theorem Reference.twin_bindName (h : scopes.Agree links scopes') (reference : Reference) :
    (reference.bindName scopes).Twin ρ links (reference.bindName scopes') :=
  ⟨.refl ρ _, false, ρ.names_false _, h.names reference.name⟩

mutual

theorem Expr.twin_bindNames (h : scopes.Agree links scopes') (e : Expr) :
    (e.bindNames scopes).Twin ρ links (e.bindNames scopes') := by
  cases e with
  | literal value => exact .literal value
  | «variable» reference => exact .variable (reference.twin_bindName h)
  | assign target value => exact .assign (target.twin_bindName h) (value.twin_bindNames h)
  | unary op operand anchor => exact .unary op (.refl ρ anchor) (operand.twin_bindNames h)
  | binary op left right anchor =>
    exact .binary op (.refl ρ anchor) (left.twin_bindNames h) (right.twin_bindNames h)
  | logical op left right => exact .logical op (left.twin_bindNames h) (right.twin_bindNames h)
  | grouping inner => exact .grouping (inner.twin_bindNames h)
  | call callee arguments anchor =>
    exact .call (.refl ρ anchor) (callee.twin_bindNames h) (Expr.allTwin_bindAll h arguments)
  | get object name anchor => exact .get name (.refl ρ anchor) (object.twin_bindNames h)
  | set object name value anchor =>
    exact .set name (.refl ρ anchor) (object.twin_bindNames h) (value.twin_bindNames h)
  | this anchor binding => exact .this (.refl ρ anchor) (h.names "this")
  | super method anchor binding => exact .super method (.refl ρ anchor) h.super

theorem Expr.allTwin_bindAll (h : scopes.Agree links scopes') (es : List Expr) :
    List.Forall₂ (Expr.Twin ρ links) (Expr.bindAll scopes es) (Expr.bindAll scopes' es) := by
  cases es with
  | nil => exact .nil
  | cons e rest => exact .cons (e.twin_bindNames h) (Expr.allTwin_bindAll h rest)

end

theorem Option.rel_map_of_forall {α β : Type} {R : β → β → Prop} {f g : α → β}
    (h : ∀ x, R (f x) (g x)) (value : Option α) : Option.Rel R (value.map f) (value.map g) := by
  cases value with
  | none => exact .none
  | some x => exact .some (h x)

theorem Links.enterClass_map (links : Links) (superclass : Option Reference)
    (f : Reference → Reference) :
    links.enterClass (superclass.map f) = links.enterClass superclass := by
  cases superclass <;> rfl

mutual

/-- A statement that is bound in scopes that share the innermost one gives twins, and the scopes
after it agree again. -/
theorem Stmt.twin_bindNames {links : Links} {scopes scopes' : StaticScopes}
    (h : scopes.Share links scopes') (s : Stmt) :
    (s.bindNames scopes).1.Twin ρ links (s.bindNames scopes').1 ∧
      (s.bindNames scopes).2.Share links (s.bindNames scopes').2 := by
  cases s with
  | expression value => exact ⟨.expression (value.twin_bindNames h.toAgree), h⟩
  | print value => exact ⟨.print (value.twin_bindNames h.toAgree), h⟩
  | declare name initializer =>
    exact ⟨.declare h.here (ρ.names_false name)
      (Option.rel_map_of_forall (Expr.twin_bindNames h.toAgree) initializer), h.declare name⟩
  | block body => exact ⟨.block false (Stmt.allTwin_bindAll (h.enter []) body), h⟩
  | ifThen condition body =>
    have hbody := body.twin_bindNames h
    exact ⟨.ifThen (condition.twin_bindNames h.toAgree) hbody.1, hbody.2⟩
  | ifElse condition body alternative =>
    have hbody := body.twin_bindNames h
    have halternative := alternative.twin_bindNames hbody.2
    exact ⟨.ifElse (condition.twin_bindNames h.toAgree) hbody.1 halternative.1, halternative.2⟩
  | loop condition body =>
    have hbody := body.twin_bindNames h
    exact ⟨.loop (condition.twin_bindNames h.toAgree) hbody.1, hbody.2⟩
  | function declaration =>
    -- a function is declared before its own body is bound
    have hnamed := h.declare declaration.name
    exact ⟨.function h.here (ρ.names_false _) (declaration.twin_bindNames hnamed.toAgree), hnamed⟩
  | returning value =>
    exact ⟨.returning (Option.rel_map_of_forall (Expr.twin_bindNames h.toAgree) value), h⟩
  | classDecl name superclass methods =>
    -- a class is declared before its superclass and its methods are bound
    have hnamed := h.declare name
    have hmethods := FunctionDecl.allTwin_bindAll (hnamed.enterClass superclass) methods
    refine ⟨.classDecl h.here (ρ.names_false name)
      (Option.rel_map_of_forall (Reference.twin_bindName hnamed.toAgree) superclass) ?_, hnamed⟩
    rw [Links.enterClass_map]
    exact hmethods

theorem Stmt.allTwin_bindAll {links : Links} {scopes scopes' : StaticScopes}
    (h : scopes.Share links scopes') (body : List Stmt) :
    Stmt.AllTwin ρ links (Stmt.bindAll scopes body) (Stmt.bindAll scopes' body) := by
  cases body with
  | nil => exact .nil links
  | cons s rest =>
    have hfirst := s.twin_bindNames h
    exact .cons hfirst.1 (Stmt.allTwin_bindAll hfirst.2 rest)

theorem FunctionDecl.twin_bindNames {links : Links} {scopes scopes' : StaticScopes}
    (h : scopes.Agree links scopes') (f : FunctionDecl) :
    (f.bindNames scopes).Twin ρ links (f.bindNames scopes') := by
  cases f with
  | mk name params body anchor =>
    exact .mk name false (ρ.forall₂_names params) (.refl ρ anchor)
      (Stmt.allTwin_bindAll (h.enter params) body)

theorem FunctionDecl.allTwin_bindAll {links : Links} {scopes scopes' : StaticScopes}
    (h : scopes.Agree links scopes') (fs : List FunctionDecl) :
    FunctionDecl.AllTwin ρ links (FunctionDecl.bindAll scopes fs)
      (FunctionDecl.bindAll scopes' fs) := by
  cases fs with
  | nil => exact .nil links
  | cons f rest => exact .cons (f.twin_bindNames h) (FunctionDecl.allTwin_bindAll h rest)

end

/-! ### Statements that declare nothing -/

theorem Stmt.scopes_bindNames_of_plain {place : Place} (scopes : StaticScopes) (s : Stmt)
    (hplain : s.Plain) (hlegal : s.Legal place) : (s.bindNames scopes).2 = scopes := by
  cases s with
  | expression | print | block | returning => rfl
  | declare | function | classDecl => exact hplain.elim
  | ifThen condition body =>
    obtain ⟨_, hbody, hbodyLegal⟩ := hlegal
    exact body.scopes_bindNames_of_plain scopes hbody hbodyLegal
  | loop condition body =>
    obtain ⟨_, hbody, hbodyLegal⟩ := hlegal
    exact body.scopes_bindNames_of_plain scopes hbody hbodyLegal
  | ifElse condition body alternative =>
    obtain ⟨_, hbody, hbodyLegal, hother, hotherLegal⟩ := hlegal
    exact (alternative.scopes_bindNames_of_plain _ hother hotherLegal).trans
      (body.scopes_bindNames_of_plain scopes hbody hbodyLegal)

/-- A statement that declares nothing here gives twins also where the innermost scopes differ. -/
theorem Stmt.twin_bindNames_of_plain {place : Place} (h : scopes.Agree links scopes') (s : Stmt)
    (hplain : s.Plain) (hlegal : s.Legal place) :
    (s.bindNames scopes).1.Twin ρ links (s.bindNames scopes').1 := by
  cases s with
  | expression value => exact .expression (value.twin_bindNames h)
  | print value => exact .print (value.twin_bindNames h)
  | block body => exact .block false (Stmt.allTwin_bindAll (h.enter []) body)
  | returning value =>
    exact .returning (Option.rel_map_of_forall (Expr.twin_bindNames h) value)
  | declare | function | classDecl => exact hplain.elim
  | ifThen condition body =>
    obtain ⟨_, hbody, hbodyLegal⟩ := hlegal
    exact .ifThen (condition.twin_bindNames h) (body.twin_bindNames_of_plain h hbody hbodyLegal)
  | loop condition body =>
    obtain ⟨_, hbody, hbodyLegal⟩ := hlegal
    exact .loop (condition.twin_bindNames h) (body.twin_bindNames_of_plain h hbody hbodyLegal)
  | ifElse condition body alternative =>
    obtain ⟨_, hbody, hbodyLegal, hother, hotherLegal⟩ := hlegal
    have hafter := body.scopes_bindNames_of_plain scopes hbody hbodyLegal
    have hafter' := body.scopes_bindNames_of_plain scopes' hbody hbodyLegal
    refine .ifElse (condition.twin_bindNames h)
      (body.twin_bindNames_of_plain h hbody hbodyLegal) ?_
    -- the alternative is bound after the body, which has left the scopes as they were
    rw [hafter, hafter']
    exact alternative.twin_bindNames_of_plain h hother hotherLegal

end Binding

end Treewalk
