import Treewalk.Machine.Scope

/-!
# The store and computations on it

The store holds the scopes, the fields of instances, the environment in force, and the lines
printed so far. A computation changes the store and ends normally or is cut short. Whatever cuts it
short, the store keeps the changes made until then.

## Main definitions

* `Clock` — what the clock will show
* `Store` — the state of a session
* `Halt` — why a computation was cut short
* `EvalM` — computations
* `within` — a computation in another environment, which is left again however it ends
* `catchReturn` — a computation that a `return` may end
* `whileTrue` — a loop
* `Env.assign`, `Env.assignAt` — new values for names, along a chain or a number of steps outward
-/

namespace Treewalk

/-- What the clock will show, each time that it is looked at. -/
structure Clock where
  readings : Nat → Float

/-- A clock that stands still. -/
instance (time : Nat) : OfNat Clock time := ⟨⟨fun _ => .ofNat time⟩⟩

/-- The clock after it was looked at. -/
def Clock.later (clock : Clock) : Clock := ⟨fun n => clock.readings (n + 1)⟩

/-- The state of a session. The scope with number zero holds the globals. -/
structure Store where
  scopes : Scopes
  fields : Array (Table Value)
  /-- The number of the next function, builtin or class. -/
  nextId : Nat
  current : Env
  /-- The lines printed so far. -/
  printed : Array String
  time : Clock

/-- The environment outside every local scope. -/
def globalEnv : Env := ⟨0, []⟩

/-- A flaw in a tree that recognised programs do not have. -/
inductive Fault where
  | reach (fault : ReachFault)
  | unboundSuper
  | superNotAClass
  | unknownOperator (symbol : String)
deriving DecidableEq, Repr

/-- The description of a flaw, for those that have one. -/
def Fault.message? : Fault → Option String
  | .unknownOperator symbol => some s!"Unknown binary operator: {symbol}"
  | _ => none

/-- Why a computation was cut short. -/
inductive Halt where
  | returned (value : Value)
  | failed (error : RuntimeError)
  | fault (fault : Fault)
  | stackExhausted
  | loopExhausted

/-- A computation on the store. -/
abbrev EvalM := EStateM Halt Store

/-- Ends a computation with a runtime error. -/
def fail {α : Type} (error : RuntimeError) : EvalM α := throw (.failed error)

/-- The result of reaching for a scope. -/
def reaching {α : Type} : Except ReachFault α → EvalM α
  | .ok value => pure value
  | .error fault => throw (.fault (.reach fault))

/-- The result of looking something up, which may end in a runtime error. -/
def raising {α : Type} : Except RuntimeError α → EvalM α
  | .ok value => pure value
  | .error error => fail error

/-- A number that no function, builtin or class has yet. -/
def freshId : EvalM Nat := do
  let store ← get
  set { store with nextId := store.nextId + 1 }
  return store.nextId

/-- Opens a scope inside an environment. -/
def openScope (env : Env) (origin : ScopeOrigin) : EvalM Env := do
  let store ← get
  let (id, scopes) := store.scopes.add origin
  set { store with scopes }
  return env.push id

/-- Gives a name a value in a scope. -/
def defineAt (id : ScopeId) (name : String) (value : Value) : EvalM Unit :=
  modify fun store => { store with scopes := store.scopes.define id name value }

/-- Gives a name a value in the innermost scope of an environment. -/
def defineIn (env : Env) (name : String) (value : Value) : EvalM Unit :=
  defineAt env.scope name value

/-- Gives a name a value in the scope in force. -/
def defineHere (name : String) (value : Value) : EvalM Unit := do
  defineIn (← get).current name value

/-- Looks at the clock. -/
def readClock : EvalM Float := do
  let store ← get
  set { store with time := store.time.later }
  return store.time.readings 0

/-- Prints a line. -/
def printLine (line : String) : EvalM Unit :=
  modify fun store => { store with printed := store.printed.push line }

/-- A computation in another environment. The environment in force before is in force again
afterwards, however the computation ends. -/
def within {α : Type} (env : Env) (x : EvalM α) : EvalM α := fun store =>
  match x { store with current := env } with
  | .ok value after => .ok value { after with current := store.current }
  | .error halt after => .error halt { after with current := store.current }

/-- A computation that a `return` may end; gives the returned value if one did. -/
def catchReturn (x : EvalM Unit) : EvalM (Option Value) := fun store =>
  match x store with
  | .ok _ after => .ok none after
  | .error (.returned value) after => .ok (some value) after
  | .error halt after => .error halt after

/-- Repeats a body while a condition holds, at most `limit` times. -/
def whileTrue : (limit : Nat) → (condition : EvalM Bool) → (body : EvalM Unit) → EvalM Unit
  | 0, _, _ => throw .loopExhausted
  | limit + 1, condition, body => do
    if ← condition then
      body
      whileTrue limit condition body

/-- Gives a name a new value in the innermost scope of an environment that has one. -/
def Env.assign (env : Env) (name : String) (site : Site) (value : Value) : EvalM Unit := do
  let store ← get
  match store.scopes.assign? name value env.chain with
  | some scopes => set { store with scopes }
  | none => fail (.undefinedVariable name site)

/-- Gives a name a value in the scope a number of steps outward. -/
def Env.assignAt (env : Env) (hops : Nat) (name : String) (value : Value) : EvalM Unit := do
  let store ← get
  let scopes ← reaching (store.scopes.assignAt env hops name value)
  set { store with scopes }

/-- The value of a name with a binding. -/
def readName (name : String) (binding : Binding) (site : Site) : EvalM Value := do
  let store ← get
  match binding with
  | .enclosing hops => reaching (store.scopes.getAt store.current hops name)
  | .global => raising (store.scopes.get globalEnv name site)

/-- Gives a name with a binding a new value. -/
def writeName (name : String) (binding : Binding) (site : Site) (value : Value) : EvalM Unit := do
  match binding with
  | .enclosing hops => (← get).current.assignAt hops name value
  | .global => globalEnv.assign name site value

/-- The fields of an instance. -/
def Store.fieldsOf (store : Store) (inst : Instance) : Table Value :=
  store.fields.getD inst.id {}

/-- Gives a field of an instance a value. Methods stay as they are. -/
def setField (inst : Instance) (name : String) (value : Value) : EvalM Unit :=
  modify fun store =>
    { store with fields := store.fields.modify inst.id fun table => table.insert name value }

/-- A new instance without fields. -/
def newInstance (cls : Class) : EvalM Instance := do
  let id := (← get).fields.size
  modify fun store => { store with fields := store.fields.push {} }
  return ⟨id, cls⟩

/-- A function closed over an environment. -/
def newClosure (declaration : FunctionDecl) (env : Env) (initializer : Bool) : EvalM Closure := do
  return ⟨← freshId, declaration, env, initializer⟩

/-- A method with `this` bound to a receiver. -/
def Closure.bindTo (closure : Closure) (receiver : Value) : EvalM Closure := do
  let env ← openScope closure.env .receiver
  defineIn env "this" receiver
  newClosure closure.declaration env closure.initializer

/-- A field of an instance, or a method bound to it. -/
def getProperty (inst : Instance) (name : String) (site : Site) : EvalM Value := do
  match ((← get).fieldsOf inst).find? name with
  | some value => return value
  | none =>
    match inst.cls.findMethod? name with
    | some method => return .function (← method.bindTo (.object inst))
    | none => fail (.undefinedProperty name site)

end Treewalk
