import Treewalk.Diagnostic.Cause
import Treewalk.Machine.Value

/-!
# Scopes

The store keeps every scope that was ever opened. A scope knows what opened it and gives values to
names. Names are looked up along a chain of scopes from the inside out, or in the one scope that is
a given number of steps outward.

## Main definitions

* `ScopeOrigin` — what opened a scope
* `Scopes.find?`, `Scopes.get`, `Scopes.assign?` — along a chain
* `Scopes.getAt`, `Scopes.assignAt` — a number of steps outward
-/

namespace Treewalk

/-- What opened a scope. -/
inductive ScopeOrigin where
  | session
  | block (body : List Stmt)
  | call (declaration : FunctionDecl)
  | receiver
  | superclass

/-- A scope: what opened it, and the values of its names. -/
structure Scope where
  origin : ScopeOrigin
  bindings : Table Value := {}

/-- Why a name cannot be reached by counting scopes. -/
inductive ReachFault where
  | noScope
  | noName
deriving DecidableEq, Repr

/-- Every scope opened so far, by number. -/
structure Scopes where
  cells : Array Scope := #[]

namespace Scopes

/-- Opens a scope. -/
def add (scopes : Scopes) (origin : ScopeOrigin) : ScopeId × Scopes :=
  (scopes.cells.size, ⟨scopes.cells.push { origin }⟩)

/-- The names of a scope with their values. -/
def bindings (scopes : Scopes) (id : ScopeId) : Table Value :=
  match scopes.cells[id]? with
  | some scope => scope.bindings
  | none => {}

/-- Gives a name a value in a scope. -/
def define (scopes : Scopes) (id : ScopeId) (name : String) (value : Value) : Scopes :=
  ⟨scopes.cells.modify id fun scope =>
    { scope with bindings := scope.bindings.insert name value }⟩

/-- Whether a scope itself gives a name a value. -/
def defines (scopes : Scopes) (id : ScopeId) (name : String) : Bool :=
  (scopes.bindings id).contains name

/-- The value of a name in the innermost scope of a chain that has one. -/
def find? (scopes : Scopes) (name : String) : List ScopeId → Option Value
  | [] => none
  | id :: outer =>
    match (scopes.bindings id).find? name with
    | some value => some value
    | none => scopes.find? name outer

/-- The value of a name along a chain, or the error that it has none. -/
def get (scopes : Scopes) (env : Env) (name : String) (site : Site) : Except RuntimeError Value :=
  match scopes.find? name env.chain with
  | some value => .ok value
  | none => .error (.undefinedVariable name site)

/-- The innermost scope of a chain that gives a name a value. -/
def holder? (scopes : Scopes) (name : String) (chain : List ScopeId) : Option ScopeId :=
  chain.find? fun id => scopes.defines id name

/-- Gives a name a new value in the innermost scope of a chain that has one. No name is created. -/
def assign? (scopes : Scopes) (name : String) (value : Value) (chain : List ScopeId) :
    Option Scopes :=
  (scopes.holder? name chain).map fun id => scopes.define id name value

/-- The scope a number of steps outward. -/
def reach (env : Env) (hops : Nat) : Except ReachFault ScopeId :=
  match env.outward hops with
  | some (id :: _) => .ok id
  | _ => .error .noScope

/-- The value of a name in the scope a number of steps outward. -/
def getAt (scopes : Scopes) (env : Env) (hops : Nat) (name : String) :
    Except ReachFault Value := do
  let id ← reach env hops
  match (scopes.bindings id).find? name with
  | some value => return value
  | none => .error .noName

/-- Gives a name a value in the scope a number of steps outward. -/
def assignAt (scopes : Scopes) (env : Env) (hops : Nat) (name : String) (value : Value) :
    Except ReachFault Scopes := do
  let id ← reach env hops
  return scopes.define id name value

end Scopes

end Treewalk
