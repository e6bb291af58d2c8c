import Treewalk.Proofs.Grammar.Legality
import Treewalk.Tree.Binding

/-!
# Trees that are alike

Two trees are alike when they are the same but for the places of their nodes and the names of some
local variables. Which names may differ depends on the scopes around a node, so trees are compared
along a correspondence: it says how the uses of names match in a context, and how the context
changes from scope to scope and from statement to statement.

A renaming puts a new name in the place of an old one in the scopes that are marked.
-/

namespace Treewalk

/-- How the names of two trees match, in a context that describes the scopes around a node. -/
structure Correspondence (Context : Type) where
  /-- A use of a name, and the use at the same node of the other tree. -/
  uses : Context → Reference → Reference → Prop
  /-- The binding of `this` or `super`, and the one in the other tree. -/
  keyword : Context → Binding → Binding → Prop
  /-- The names that may be declared in the innermost scope. -/
  admits : Context → String → Prop
  /-- What stands for a name that is declared in the innermost scope. -/
  counterpart : Context → String → String
  /-- The context after a declaration in the innermost scope. -/
  declare : Context → String → Context
  /-- The context in a scope that begins with some names; it may be marked for renaming. -/
  enter : Context → (marked : Bool) → List String → Context

section Trees

variable {Context : Type} (K : Correspondence Context)

/-- The context around the methods of a class. Its scopes are never marked. -/
def Correspondence.enterClass (c : Context) (superclass : Option Reference) : Context :=
  match superclass with
  | some _ => K.enter (K.enter c false ["super"]) false ["this"]
  | none => K.enter c false ["this"]

/-- A name that is declared in the innermost scope and stays as it is. -/
def Correspondence.Keeps (c : Context) (name : String) : Prop :=
  K.admits c name ∧ K.counterpart c name = name

mutual

/-- Expressions that are alike. -/
def Expr.Alike (c : Context) : Expr → Expr → Prop
  | .literal value, e' => e' = .literal value
  | .variable reference, e' =>
    ∃ reference', e' = .variable reference' ∧ K.uses c reference reference'
  | .assign target value, e' =>
    ∃ target' value', e' = .assign target' value' ∧ K.uses c target target' ∧
      value.Alike c value'
  | .unary op operand _, e' =>
    ∃ operand' anchor', e' = .unary op operand' anchor' ∧ operand.Alike c operand'
  | .binary op left right _, e' =>
    ∃ left' right' anchor', e' = .binary op left' right' anchor' ∧
      left.Alike c left' ∧ right.Alike c right'
  | .logical op left right, e' =>
    ∃ left' right', e' = .logical op left' right' ∧ left.Alike c left' ∧
      right.Alike c right'
  | .grouping inner, e' => ∃ inner', e' = .grouping inner' ∧ inner.Alike c inner'
  | .call callee arguments _, e' =>
    ∃ callee' arguments' anchor', e' = .call callee' arguments' anchor' ∧
      callee.Alike c callee' ∧ Expr.AllAlike c arguments arguments'
  | .get object name _, e' =>
    ∃ object' anchor', e' = .get object' name anchor' ∧ object.Alike c object'
  | .set object name value _, e' =>
    ∃ object' value' anchor', e' = .set object' name value' anchor' ∧
      object.Alike c object' ∧ value.Alike c value'
  | .this _ binding, e' => ∃ anchor' binding', e' = .this anchor' binding' ∧
      K.keyword c binding binding'
  | .super method _ binding, e' => ∃ anchor' binding', e' = .super method anchor' binding' ∧
      K.keyword c binding binding'

/-- Lists of expressions that are alike. -/
def Expr.AllAlike (c : Context) : List Expr → List Expr → Prop
  | [], es' => es' = []
  | e :: rest, es' =>
    ∃ e' rest', es' = e' :: rest' ∧ e.Alike c e' ∧ Expr.AllAlike c rest rest'

end

/-- The context after a statement. -/
def Stmt.contextAfter (c : Context) : Stmt → Context
  | .declare name _ => K.declare c name
  | .function declaration => K.declare c declaration.name
  | .classDecl name _ _ => K.declare c name
  | .ifThen _ body => body.contextAfter c
  | .ifElse _ body alternative => alternative.contextAfter (body.contextAfter c)
  | .loop _ body => body.contextAfter c
  | _ => c

mutual

/-- Statements that are alike. A block may be one whose scope is marked. -/
def Stmt.Alike (c : Context) : Stmt → Stmt → Prop
  | .expression value, s' => ∃ value', s' = .expression value' ∧ value.Alike K c value'
  | .print value, s' => ∃ value', s' = .print value' ∧ value.Alike K c value'
  | .declare name none, s' => s' = .declare (K.counterpart c name) none ∧ K.admits c name
  | .declare name (some value), s' =>
    ∃ value', s' = .declare (K.counterpart c name) (some value') ∧ K.admits c name ∧
      value.Alike K c value'
  | .block body, s' =>
    ∃ marked body', s' = .block body' ∧ Stmt.AllAlike (K.enter c marked []) body body'
  | .ifThen condition body, s' =>
    ∃ condition' body', s' = .ifThen condition' body' ∧ condition.Alike K c condition' ∧
      body.Alike c body'
  | .ifElse condition body alternative, s' =>
    ∃ condition' body' alternative', s' = .ifElse condition' body' alternative' ∧
      condition.Alike K c condition' ∧ body.Alike c body' ∧
      alternative.Alike (body.contextAfter K c) alternative'
  | .loop condition body, s' =>
    ∃ condition' body', s' = .loop condition' body' ∧ condition.Alike K c condition' ∧
      body.Alike c body'
  | .function declaration, s' =>
    ∃ declaration', s' = .function declaration' ∧ K.Keeps c declaration.name ∧
      declaration.Alike (K.declare c declaration.name) declaration'
  | .returning none, s' => s' = .returning none
  | .returning (some value), s' => ∃ value', s' = .returning (some value') ∧ value.Alike K c value'
  | .classDecl name none methods, s' =>
    ∃ methods', s' = .classDecl name none methods' ∧ K.Keeps c name ∧
      FunctionDecl.AllAlike (K.enterClass (K.declare c name) none) methods methods'
  | .classDecl name (some parent) methods, s' =>
    ∃ parent' methods', s' = .classDecl name (some parent') methods' ∧ K.Keeps c name ∧
      K.uses (K.declare c name) parent parent' ∧
      FunctionDecl.AllAlike (K.enterClass (K.declare c name) (some parent)) methods methods'
termination_by structural s => s

/-- Lists of statements that are alike, each in the context after those before it. -/
def Stmt.AllAlike (c : Context) : List Stmt → List Stmt → Prop
  | [], body' => body' = []
  | s :: rest, body' =>
    ∃ s' rest', body' = s' :: rest' ∧ s.Alike c s' ∧
      Stmt.AllAlike (s.contextAfter K c) rest rest'
termination_by structural body => body

/-- Functions that are alike. Parameters and body share one scope, which may be marked. -/
def FunctionDecl.Alike (c : Context) : FunctionDecl → FunctionDecl → Prop
  | .mk name params body _, f' =>
    ∃ marked body' anchor',
      f' = .mk name (params.map (K.counterpart (K.enter c marked params))) body' anchor' ∧
      (∀ param ∈ params, K.admits (K.enter c marked params) param) ∧
      Stmt.AllAlike (K.enter c marked params) body body'
termination_by structural f => f

/-- Lists of functions that are alike. -/
def FunctionDecl.AllAlike (c : Context) : List FunctionDecl → List FunctionDecl → Prop
  | [], fs' => fs' = []
  | f :: rest, fs' =>
    ∃ f' rest', fs' = f' :: rest' ∧ f.Alike c f' ∧ FunctionDecl.AllAlike c rest rest'
termination_by structural fs => fs

end

variable {K}

theorem FunctionDecl.Alike.name_eq {c : Context} {f f' : FunctionDecl} (h : f.Alike K c f') :
    f'.name = f.name := by
  obtain ⟨name, params, body, anchor⟩ := f
  obtain ⟨_, _, _, rfl, _⟩ := h
  rfl

end Trees

/-! ### Renamings -/

/-- A name and the one that takes its place. -/
structure Renaming where
  old : String
  new : String
  isName_old : IsName old
  isName_new : IsName new

namespace Renaming

variable (ρ : Renaming)

/-- What stands for a name of a scope: the new name for the old one, if the scope is marked. -/
def counterpart (marked : Bool) (name : String) : String :=
  if marked = true ∧ name = ρ.old then ρ.new else name

/-- A name that a scope may declare: in a marked scope, the new name stands for the old one. -/
def Admits (marked : Bool) (name : String) : Prop :=
  marked = true → name ≠ ρ.new

theorem admits_false (name : String) : ρ.Admits false name := nofun

theorem admits_of_ne {name : String} (h : name ≠ ρ.new) (marked : Bool) : ρ.Admits marked name :=
  fun _ => h

@[simp] theorem counterpart_false (name : String) : ρ.counterpart false name = name := by
  rw [counterpart, if_neg]
  exact fun h => Bool.false_ne_true h.1

theorem counterpart_of_ne {name : String} (h : name ≠ ρ.old) (marked : Bool) :
    ρ.counterpart marked name = name := by
  rw [counterpart, if_neg]
  exact fun hold => h hold.2

theorem counterpart_old : ρ.counterpart true ρ.old = ρ.new := if_pos ⟨rfl, rfl⟩

/-- A name stays as it is, unless it is the old one. -/
theorem counterpart_eq_or (marked : Bool) (name : String) :
    ρ.counterpart marked name = name ∨ name = ρ.old ∧ ρ.counterpart marked name = ρ.new := by
  by_cases h : marked = true ∧ name = ρ.old
  · exact .inr ⟨h.2, if_pos h⟩
  · exact .inl (if_neg h)

/-- Different names of a scope have different counterparts. -/
theorem counterpart_inj {marked : Bool} {a b : String} (ha : ρ.Admits marked a)
    (hb : ρ.Admits marked b) : ρ.counterpart marked a = ρ.counterpart marked b ↔ a = b := by
  constructor
  · intro heq
    cases marked with
    | false => simpa using heq
    | true =>
      -- of the two names, neither, one or both are the old one
      by_cases haold : a = ρ.old
      · by_cases hbold : b = ρ.old
        · exact haold.trans hbold.symm
        · rw [haold, counterpart_old, counterpart_of_ne ρ hbold] at heq
          exact absurd heq.symm (hb rfl)
      · rw [counterpart_of_ne ρ haold] at heq
        by_cases hbold : b = ρ.old
        · rw [hbold, counterpart_old] at heq
          exact absurd heq (ha rfl)
        · rwa [counterpart_of_ne ρ hbold] at heq
  · exact fun heq => heq ▸ rfl

theorem this_ne : "this" ≠ ρ.old ∧ "this" ≠ ρ.new :=
  ⟨ρ.isName_old.1.symm, ρ.isName_new.1.symm⟩

theorem super_ne : "super" ≠ ρ.old ∧ "super" ≠ ρ.new :=
  ⟨ρ.isName_old.2.symm, ρ.isName_new.2.symm⟩

end Renaming

end Treewalk
