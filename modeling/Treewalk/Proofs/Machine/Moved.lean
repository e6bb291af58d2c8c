import Treewalk.Machine.Evaluate
import Treewalk.Proofs.Tree.Move

/-!
# Values and stores of moved code

A move acts on everything that holds code: the closures, classes and instances that values are made
of, the scopes and fields of a store, and the places that a runtime error names. It also takes a
store into a longer run, in which some lines were printed earlier.

Nothing that a value is asked for depends on places, and looking up or changing a name gives the
same before and after a move.
-/

namespace Treewalk

/-! ### Tables -/

namespace Table

variable {α β : Type} (f : α → β)

/-- A table with other values. -/
def map (table : Table α) : Table β := ⟨table.entries.map fun entry => (entry.1, f entry.2)⟩

theorem findIn_map (name : String) (entries : List (String × α)) :
    findIn name (entries.map fun entry => (entry.1, f entry.2)) = (findIn name entries).map f := by
  induction entries with
  | nil => rfl
  | cons entry rest ih =>
    simp only [List.map_cons, findIn, ih]
    by_cases h : entry.1 = name
    · rw [if_pos h, if_pos h, Option.map_some]
    · rw [if_neg h, if_neg h]

@[simp] theorem find?_map (table : Table α) (name : String) :
    (table.map f).find? name = (table.find? name).map f :=
  findIn_map f name table.entries

@[simp] theorem contains_map (table : Table α) (name : String) :
    (table.map f).contains name = table.contains name := by
  simp only [contains, find?_map, Option.isSome_map]

theorem insertIn_map (name : String) (value : α) (entries : List (String × α)) :
    insertIn name (f value) (entries.map fun entry => (entry.1, f entry.2)) =
      (insertIn name value entries).map fun entry => (entry.1, f entry.2) := by
  induction entries with
  | nil => rfl
  | cons entry rest ih =>
    simp only [List.map_cons, insertIn, ih]
    by_cases h : entry.1 = name
    · rw [if_pos h, if_pos h, List.map_cons]
    · rw [if_neg h, if_neg h, List.map_cons]

theorem insert_map (table : Table α) (name : String) (value : α) :
    (table.map f).insert name (f value) = (table.insert name value).map f :=
  congrArg Table.mk (insertIn_map f name value table.entries)

theorem ofList_map (entries : List (String × α)) :
    ofList (entries.map fun entry => (entry.1, f entry.2)) = (ofList entries).map f := by
  have hfold : ∀ (entries : List (String × α)) (table : Table α),
      (entries.map fun entry => (entry.1, f entry.2)).foldl
        (fun table entry => table.insert entry.1 entry.2) (table.map f) =
      (entries.foldl (fun table entry => table.insert entry.1 entry.2) table).map f := by
    intro entries
    induction entries with
    | nil => exact fun table => rfl
    | cons entry rest ih =>
      intro table
      simp only [List.map_cons, List.foldl_cons, insert_map, ih]
  exact hfold entries {}

end Table

variable (m : Move)

/-! ### Values -/

/-- A function whose code stands elsewhere. -/
def Closure.move (closure : Closure) : Closure :=
  { closure with declaration := closure.declaration.move m }

/-- A class whose code stands elsewhere. -/
def Class.move : Class → Class
  | .base id name methods => .base id name (methods.map (Closure.move m))
  | .derived id name methods superclass =>
    .derived id name (methods.map (Closure.move m)) superclass.move

/-- An object of a class whose code stands elsewhere. -/
def Instance.move (inst : Instance) : Instance := { inst with cls := inst.cls.move m }

mutual

/-- A value whose code stands elsewhere. -/
def Value.move : Value → Value
  | .nil => .nil
  | .bool value => .bool value
  | .number value => .number value
  | .string value => .string value
  | .function closure => .function (closure.move m)
  | .builtin id name arity body => .builtin id name arity (BuiltinBody.move body)
  | .class cls => .class (cls.move m)
  | .object inst => .object (inst.move m)

/-- A builtin function whose code stands elsewhere. -/
def BuiltinBody.move : BuiltinBody Value → BuiltinBody Value
  | .constant value => .constant value.move
  | .computed answer => .computed answer

end

namespace Class

variable (cls : Class)

@[simp] theorem id_move : (cls.move m).id = cls.id := by
  cases cls <;> rfl

@[simp] theorem name_move : (cls.move m).name = cls.name := by
  cases cls <;> rfl

@[simp] theorem findMethod?_move (name : String) :
    (cls.move m).findMethod? name = (cls.findMethod? name).map (Closure.move m) := by
  induction cls with
  | base id className methods => exact Table.find?_map _ _ _
  | derived id className methods superclass ih =>
    simp only [Class.move, findMethod?, Table.find?_map, ih]
    cases methods.find? name <;> rfl

theorem make_move (id : Nat) (name : String) (superclass : Option Class) (methods : Table Closure) :
    Class.make id name (superclass.map (Class.move m)) (methods.map (Closure.move m)) =
      (Class.make id name superclass methods).move m := by
  cases superclass <;> rfl

end Class

namespace Value

variable (value : Value)

@[simp] theorem ofLiteral_move (literal : Literal) :
    (Value.ofLiteral literal).move m = .ofLiteral literal := by
  cases literal <;> rfl

@[simp] theorem truthy_move : (value.move m).truthy = value.truthy := by
  cases value <;> rfl

@[simp] theorem literal?_move : (value.move m).literal? = value.literal? := by
  cases value <;> rfl

@[simp] theorem kind_move : (value.move m).kind = value.kind := by
  cases value <;> rfl

@[simp] theorem text_move : (value.move m).text = value.text := by
  cases value with
  | bool b => cases b <;> rfl
  | function closure => simp only [Value.move, Closure.move, Value.text, FunctionDecl.name_move]
  | «class» cls => simp only [Value.move, Value.text, Class.name_move]
  | object inst => simp only [Value.move, Instance.move, Value.text, Class.name_move]
  | nil | number | string | builtin => rfl

@[simp] theorem same_move (other : Value) :
    (value.move m).same (other.move m) = value.same other := by
  cases value with
  | «class» cls =>
    cases other with
    | «class» other => simp only [Value.move, Value.same, Class.id_move]
    | _ => rfl
  | _ => cases other <;> rfl

end Value

/-- A signature whose declaration stands elsewhere. -/
def Signature.move (signature : Signature) : Signature :=
  { signature with declaredAt := signature.declaredAt.map m.span }

@[simp] theorem Closure.arity_move (closure : Closure) :
    (closure.move m).arity = closure.arity := by
  simp only [Closure.move, Closure.arity, FunctionDecl.params_move]

@[simp] theorem Value.signature?_move (value : Value) :
    (value.move m).signature? = value.signature?.map (Signature.move m) := by
  cases value with
  | function closure =>
    simp only [Value.move, Value.signature?, Closure.arity_move, Option.map_some]
    simp only [Closure.move, Signature.move, FunctionDecl.name_move, FunctionDecl.anchor_move,
      Move.span_anchor]
  | «class» cls =>
    simp only [Value.move, Value.signature?, Class.findMethod?_move, Class.name_move]
    cases cls.findMethod? "init" with
    | none => rfl
    | some init =>
      simp only [Option.map_some, Closure.arity_move]
      simp only [Closure.move, Signature.move, FunctionDecl.anchor_move, Move.span_anchor]
  | nil | bool | number | string | builtin | object => rfl

/-! ### Stores -/

/-- Changing an element before or after a map. -/
theorem map_modify {α β : Type} (cells : Array α) (f : α → β) {g : α → α} {g' : β → β}
    (h : ∀ a, g' (f a) = f (g a)) (id : Nat) :
    (cells.map f).modify id g' = (cells.modify id g).map f := by
  apply Array.ext_getElem?
  intro i
  simp only [Array.getElem?_modify, Array.getElem?_map]
  by_cases hi : id = i
  · simp only [if_pos hi, Option.map_map, Function.comp_def, h]
  · simp only [if_neg hi]

/-- What opened a scope, if its code stands elsewhere. -/
def ScopeOrigin.move : ScopeOrigin → ScopeOrigin
  | .session => .session
  | .block body => .block (Stmt.moveAll m body)
  | .call declaration => .call (declaration.move m)
  | .receiver => .receiver
  | .superclass => .superclass

/-- A scope of moved code. -/
def Scope.move (scope : Scope) : Scope := ⟨scope.origin.move m, scope.bindings.map (Value.move m)⟩

/-- Scopes of moved code. -/
def Scopes.move (scopes : Scopes) : Scopes := ⟨scopes.cells.map (Scope.move m)⟩

/-- A store of moved code, in a run in which some lines were printed earlier. -/
def Store.move (earlier : Array String) (store : Store) : Store :=
  { store with
    scopes := store.scopes.move m
    fields := store.fields.map (Table.map (Value.move m))
    printed := earlier ++ store.printed }

namespace Scopes

variable (scopes : Scopes)

@[simp] theorem size_move : (scopes.move m).cells.size = scopes.cells.size :=
  Array.size_map

@[simp] theorem bindings_move (id : ScopeId) :
    (scopes.move m).bindings id = (scopes.bindings id).map (Value.move m) := by
  unfold Scopes.bindings Scopes.move
  rw [Array.getElem?_map]
  cases scopes.cells[id]? <;> rfl

@[simp] theorem defines_move (id : ScopeId) (name : String) :
    (scopes.move m).defines id name = scopes.defines id name := by
  simp only [defines, bindings_move, Table.contains_map]

@[simp] theorem find?_move (name : String) (chain : List ScopeId) :
    (scopes.move m).find? name chain = (scopes.find? name chain).map (Value.move m) := by
  induction chain with
  | nil => rfl
  | cons id outer ih =>
    simp only [Scopes.find?, bindings_move, Table.find?_map, ih]
    cases (scopes.bindings id).find? name <;> rfl

@[simp] theorem holder?_move (name : String) (chain : List ScopeId) :
    (scopes.move m).holder? name chain = scopes.holder? name chain := by
  simp only [holder?, defines_move]

@[simp] theorem getAt_move (env : Env) (hops : Nat) (name : String) :
    (scopes.move m).getAt env hops name = (scopes.getAt env hops name).map (Value.move m) := by
  unfold getAt
  cases reach env hops with
  | error fault => rfl
  | ok id =>
    simp only [bind, Except.bind, bindings_move, Table.find?_map]
    cases (scopes.bindings id).find? name <;> rfl

theorem add_move (origin : ScopeOrigin) :
    (scopes.move m).add (origin.move m) =
      ((scopes.add origin).1, (scopes.add origin).2.move m) := by
  simp only [Scopes.add, size_move]
  simp only [Scopes.move, Array.map_push]
  rfl

theorem define_move (id : ScopeId) (name : String) (value : Value) :
    (scopes.move m).define id name (value.move m) = (scopes.define id name value).move m := by
  simp only [Scopes.define, Scopes.move, Scopes.mk.injEq]
  apply map_modify
  intro scope
  simp only [Scope.move, Table.insert_map]

end Scopes

namespace Store

variable (earlier : Array String) (store : Store)

@[simp] theorem fieldsOf_move (inst : Instance) :
    (store.move m earlier).fieldsOf (inst.move m) =
      (store.fieldsOf inst).map (Value.move m) := by
  simp only [fieldsOf, Store.move, Instance.move, Array.getD_eq_getD_getElem?, Array.getElem?_map]
  cases store.fields[inst.id]? <;> rfl

/-- A move keeps the environment in force. -/
@[simp] theorem current_move : (store.move m earlier).current = store.current := rfl

@[simp] theorem scopes_move : (store.move m earlier).scopes = store.scopes.move m := rfl

theorem withCurrent_move (env : Env) :
    { store.move m earlier with current := env } =
      Store.move m earlier { store with current := env } := rfl

end Store

/-! ### What cuts a computation short -/

/-- A runtime error in code that stands elsewhere. -/
def RuntimeError.move : RuntimeError → RuntimeError
  | .undefinedVariable name site => .undefinedVariable name (m.site site)
  | .binaryOperands operator left right site => .binaryOperands operator left right (m.site site)
  | .unaryOperand operator operand site => .unaryOperand operator operand (m.site site)
  | .invalidSuperclass name kind site => .invalidSuperclass name kind (m.site site)
  | .notAnInstance rule kind site => .notAnInstance rule kind (m.site site)
  | .divisionByZero site => .divisionByZero (m.site site)
  | .wrongArity expected got site callee declaredAt =>
    .wrongArity expected got (m.site site) callee (declaredAt.map m.span)
  | .notCallable kind site => .notCallable kind (m.site site)
  | .undefinedProperty name site => .undefinedProperty name (m.site site)

/-- What cuts a computation short, if its code stands elsewhere. -/
def Halt.move : Halt → Halt
  | .returned value => .returned (value.move m)
  | .failed error => .failed (error.move m)
  | .fault flaw => .fault flaw
  | .stackExhausted => .stackExhausted
  | .loopExhausted => .loopExhausted

/-- What a computation gives once its code is moved, with values that follow. -/
def Move.result {α β : Type} (earlier : Array String) (φ : α → β) :
    EStateM.Result Halt Store α → EStateM.Result Halt Store β
  | .ok value store => .ok (φ value) (store.move m earlier)
  | .error halt store => .error (halt.move m) (store.move m earlier)

end Treewalk
