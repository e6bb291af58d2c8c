import Treewalk.Machine.Table
import Treewalk.Tree.Basic
import Treewalk.Number.Display

/-!
# Values

What a program computes with. Functions, builtins and classes are values that never change, so they
carry their parts; each also carries a number of its own, since two of them are equal only if they
are one and the same. An instance carries its class, and its fields live in the store under its
number.

An environment names the scopes around a piece of code, innermost first. A closure keeps the
environment in which it was made.

## Main definitions

* `Env` — a chain of scopes
* `Closure`, `Class`, `Instance`, `Value`
* `Class.findMethod?` — the nearest method of a name, going up the superclasses
* `Value.same`, `Value.truthy`, `Value.text`
-/

namespace Treewalk

/-- The number of a scope in the store. -/
abbrev ScopeId := Nat

/-- A chain of scopes: the innermost one and those around it, from the inside out. -/
structure Env where
  scope : ScopeId
  enclosing : List ScopeId := []
deriving DecidableEq, Repr

namespace Env

/-- The scopes of a chain, innermost first. -/
def chain (env : Env) : List ScopeId := env.scope :: env.enclosing

/-- The chain with one more scope inside. -/
def push (env : Env) (scope : ScopeId) : Env := ⟨scope, env.chain⟩

/-- The scopes that are left after a number of steps outward. One step past the outermost scope
leaves none; a further step cannot be made. -/
def outward (env : Env) (hops : Nat) : Option (List ScopeId) :=
  if hops ≤ env.chain.length then some (env.chain.drop hops) else none

end Env

/-- A function together with the environment in which it was made. -/
structure Closure where
  id : Nat
  declaration : FunctionDecl
  env : Env
  initializer : Bool

/-- A class, with or without a superclass. -/
inductive Class where
  | base (id : Nat) (name : String) (methods : Table Closure)
  | derived (id : Nat) (name : String) (methods : Table Closure) (superclass : Class)

namespace Class

/-- The number of a class. -/
def id : Class → Nat
  | .base id _ _ | .derived id _ _ _ => id

/-- The name of a class. -/
def name : Class → String
  | .base _ name _ | .derived _ name _ _ => name

/-- The class with given parts. -/
def make (id : Nat) (name : String) (superclass : Option Class) (methods : Table Closure) : Class :=
  match superclass with
  | none => .base id name methods
  | some superclass => .derived id name methods superclass

/-- The nearest method of a name, going up the superclasses. -/
def findMethod? (name : String) : Class → Option Closure
  | .base _ _ methods => methods.find? name
  | .derived _ _ methods superclass =>
    match methods.find? name with
    | some method => some method
    | none => superclass.findMethod? name

end Class

/-- An object of a class; its fields are in the store. -/
structure Instance where
  id : Nat
  cls : Class

/-- What a builtin function may come to: a plain value, or one of its arguments. -/
inductive Answer where
  | plain (value : Literal)
  | argument (index : Nat)

/-- What a builtin function does: it gives a fixed value, or computes an answer from the time and
from the plain values among its arguments. -/
inductive BuiltinBody (α : Type) where
  | constant (value : α)
  | computed (answer : Float → List (Option Literal) → Answer)

/-- The builtin function that tells the time. -/
def BuiltinBody.clock {α : Type} : BuiltinBody α := .computed fun now _ => .plain (.number now)

/-- A value of the language. -/
inductive Value where
  | nil
  | bool (value : Bool)
  | number (value : Float)
  | string (value : String)
  | function (closure : Closure)
  | builtin (id : Nat) (name : String) (arity : Int) (body : BuiltinBody Value)
  | class (cls : Class)
  | object (inst : Instance)

namespace Value

/-- The value of a constant. -/
def ofLiteral : Literal → Value
  | .nil => .nil
  | .bool value => .bool value
  | .number value => .number value
  | .string value => .string value

/-- The constant for a plain value. -/
def literal? : Value → Option Literal
  | .nil => some .nil
  | .bool value => some (.bool value)
  | .number value => some (.number value)
  | .string value => some (.string value)
  | .function _ | .builtin _ _ _ _ | .class _ | .object _ => none

/-- Only nil and false count as false. -/
def truthy : Value → Bool
  | .nil => false
  | .bool value => value
  | _ => true

/-- Equality: by content for plain values, by identity for the others, never across kinds. -/
def same : Value → Value → Bool
  | .nil, .nil => true
  | .bool a, .bool b => a == b
  | .number a, .number b => a == b
  | .string a, .string b => a == b
  | .function a, .function b => a.id == b.id
  | .builtin a _ _ _, .builtin b _ _ _ => a == b
  | .class a, .class b => a.id == b.id
  | .object a, .object b => a.id == b.id
  | _, _ => false

/-- The kind of a value, as messages name it. -/
def kind : Value → String
  | .nil => "nil"
  | .bool _ => "boolean"
  | .number _ => "number"
  | .string _ => "string"
  | .function _ | .builtin _ _ _ _ => "function"
  | .class _ => "class"
  | .object _ => "instance"

/-- The text that printing a value gives. -/
def text : Value → String
  | .nil => "nil"
  | .bool true => "true"
  | .bool false => "false"
  | .number value => Number.display value
  | .string value => value
  | .function closure => s!"<fn {closure.declaration.name}>"
  | .builtin _ name _ _ => s!"<native fn {name}>"
  | .class cls => s!"<class {cls.name}>"
  | .object inst => s!"{inst.cls.name} instance"

end Value

/-- The value of an answer, given the arguments. An argument that is missing is nil. -/
def Answer.value (arguments : List Value) : Answer → Value
  | .plain value => .ofLiteral value
  | .argument index => arguments.getD index .nil

/-- The number of parameters of a function. -/
def Closure.arity (closure : Closure) : Nat := closure.declaration.params.length

/-- What a call needs to know of a callee: how many arguments it takes, its name, and where its
parameters are declared. -/
structure Signature where
  arity : Int
  name : String
  declaredAt : Option Span

/-- The signature of a value that can be called. A class takes the arguments of its initializer. -/
def Value.signature? : Value → Option Signature
  | .function closure =>
    some ⟨closure.arity, closure.declaration.name, closure.declaration.anchor.span⟩
  | .builtin _ name arity _ => some ⟨arity, name, none⟩
  | .class cls =>
    match cls.findMethod? "init" with
    | some init => some ⟨init.arity, cls.name, init.declaration.anchor.span⟩
    | none => some ⟨0, cls.name, none⟩
  | _ => none

end Treewalk
