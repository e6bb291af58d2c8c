import Treewalk.Machine.Store

/-!
# Evaluation

The meaning of bound trees as computations on the store. Evaluation nests: an expression evaluates
its operands, a call runs the body of its callee. The stack is bounded, so evaluation takes the
number of levels that may still be nested, and at zero the stack is exhausted. A loop takes a limit
on its rounds besides, which only keeps it from running forever.

## Main definitions

* `applyBinary`, `applyUnary` — operators on values
* `Closure.call`, `Value.invoke` — calls, given how statements are executed
* `Expr.evalWith`, `Stmt.execWith` — one level of evaluation, given how the parts are evaluated
* `Expr.eval`, `Stmt.exec` — expressions and statements
-/

namespace Treewalk

/-- A comparison or calculation on two numbers. -/
def applyNumbers (op : BinaryOp) (a b : Float) (site : Site) : EvalM Value :=
  match op with
  | .add => return .number (a + b)
  | .subtract => return .number (a - b)
  | .multiply => return .number (a * b)
  | .divide => if b == 0 then fail (.divisionByZero site) else return .number (a / b)
  | .greater => return .bool (b < a)
  | .greaterEqual => return .bool (b ≤ a)
  | .less => return .bool (a < b)
  | .lessEqual => return .bool (a ≤ b)
  | .equal => return .bool (a == b)
  | .notEqual => return .bool (a != b)
  | .other symbol => throw (.fault (.unknownOperator symbol))

/-- A binary operator on two values. Equality is defined on all values, addition also on two
strings, and everything else on numbers only. -/
def applyBinary (op : BinaryOp) (left right : Value) (site : Site) : EvalM Value :=
  match op, left, right with
  | .equal, a, b => return .bool (a.same b)
  | .notEqual, a, b => return .bool (!a.same b)
  | op, .number a, .number b => applyNumbers op a b site
  | .add, .string a, .string b => return .string (a ++ b)
  | op, a, b => fail (.binaryOperands op.symbol a.kind b.kind site)

/-- A prefix operator on a value. Only the minus sign looks at more than truth. -/
def applyUnary (op : UnaryOp) (operand : Value) (site : Site) : EvalM Value :=
  match op, operand with
  | .negate, .number a => return .number (-a)
  | .negate, a => fail (.unaryOperand op.symbol a.kind site)
  | _, a => return .bool (!a.truthy)

/-- Whether the left operand of a logical operator decides the result. -/
def LogicalOp.decides (op : LogicalOp) (left : Value) : Bool :=
  match op with
  | .or => left.truthy
  | .and | .other _ => !left.truthy

/-- Gives parameters their arguments. -/
def defineParams (env : Env) : List String → List Value → EvalM Unit
  | param :: params, argument :: arguments => do
    defineIn env param argument
    defineParams env params arguments
  | _, _ => pure ()

/-- Calls a function, given how statements are executed. An initializer gives back its receiver,
whatever its body does. -/
def Closure.call (exec : Stmt → EvalM Unit) (closure : Closure) (arguments : List Value) :
    EvalM Value := do
  let env ← openScope closure.env (.call closure.declaration)
  defineParams env closure.declaration.params arguments
  let returned ← catchReturn (within env (closure.declaration.body.forM exec))
  if closure.initializer then
    reaching ((← get).scopes.getAt closure.env 0 "this")
  else return returned.getD .nil

/-- Constructs an instance and runs its initializer, if the class has one. -/
def Class.construct (exec : Stmt → EvalM Unit) (cls : Class) (arguments : List Value) :
    EvalM Value := do
  let inst ← newInstance cls
  if let some init := cls.findMethod? "init" then
    let _ ← (← init.bindTo (.object inst)).call exec arguments
  return .object inst

/-- The result of a builtin function. -/
def BuiltinBody.run (body : BuiltinBody Value) (arguments : List Value) : EvalM Value := do
  match body with
  | .constant value => return value
  | .computed answer =>
    let now ← readClock
    return (answer now (arguments.map Value.literal?)).value arguments

/-- Calls a value that can be called; any other gives nil. -/
def Value.invoke (exec : Stmt → EvalM Unit) (callee : Value) (arguments : List Value) :
    EvalM Value :=
  match callee with
  | .function closure => closure.call exec arguments
  | .builtin _ _ _ body => body.run arguments
  | .class cls => cls.construct exec arguments
  | _ => return .nil

/-- Calls a value with as many arguments as it takes. -/
def Value.apply (exec : Stmt → EvalM Unit) (callee : Value) (arguments : List Value)
    (site : Site) : EvalM Value :=
  match callee.signature? with
  | none => fail (.notCallable callee.kind site)
  | some signature =>
    if (arguments.length : Int) = signature.arity then callee.invoke exec arguments
    else
      fail (.wrongArity signature.arity arguments.length site (some signature.name)
        signature.declaredAt)

/-- The method that `super` finds: it starts above the class whose method is running, and is bound
to the receiver, which the scope just inside holds. -/
def superMethod (method : String) (binding : Binding) (site : Site) : EvalM Value := do
  match binding with
  | .global => throw (.fault .unboundSuper)
  | .enclosing hops =>
    let store ← get
    let superclass ← reaching (store.scopes.getAt store.current hops "super")
    let receiver ← reaching (store.scopes.getAt store.current (hops - 1) "this")
    match superclass with
    | .class cls =>
      match cls.findMethod? method with
      | some found => return .function (← found.bindTo receiver)
      | none => fail (.undefinedProperty method site)
    | _ => throw (.fault .superNotAClass)

/-- The superclass of a class that is being declared, given its value. -/
def checkSuperclass (reference : Reference) : Value → EvalM Class
  | .class cls => return cls
  | value => fail (.invalidSuperclass reference.name value.kind reference.anchor.site)

/-- Declares a class in the scope in force. Its methods close over that scope, with `super` in
between if there is a superclass. -/
def declareClass (name : String) (superclass : Option Class) (methods : List FunctionDecl) :
    EvalM Unit := do
  defineHere name .nil
  let mut env := (← get).current
  if let some cls := superclass then
    env ← openScope env .superclass
    defineIn env "super" (.class cls)
  let closures ← methods.mapM fun method => newClosure method env (method.name == "init")
  let table := Table.ofList (closures.map fun closure => (closure.declaration.name, closure))
  defineHere name (.class (.make (← freshId) name superclass table))

/-- The value of an expression, given how its parts are evaluated and how statements are
executed. -/
def Expr.evalWith (eval : Expr → EvalM Value) (exec : Stmt → EvalM Unit) (e : Expr) :
    EvalM Value := do
  match e with
  | .literal value => return .ofLiteral value
  | .variable reference => readName reference.name reference.binding reference.anchor.site
  | .assign target value =>
    let value ← eval value
    writeName target.name target.binding target.anchor.site value
    return value
  | .unary op operand anchor => applyUnary op (← eval operand) anchor.site
  | .binary op left right anchor =>
    let left ← eval left
    let right ← eval right
    applyBinary op left right anchor.site
  | .logical op left right =>
    let left ← eval left
    if op.decides left then return left else eval right
  | .grouping inner => eval inner
  | .call callee arguments anchor =>
    let callee ← eval callee
    let arguments ← arguments.mapM eval
    callee.apply exec arguments anchor.site
  | .get object name anchor =>
    match ← eval object with
    | .object inst => getProperty inst name anchor.site
    | value => fail (.notAnInstance "Only instances have properties" value.kind anchor.site)
  | .set object name value anchor =>
    match ← eval object with
    | .object inst =>
      let value ← eval value
      setField inst name value
      return value
    | value => fail (.notAnInstance "Only instances have fields" value.kind anchor.site)
  | .this anchor binding => readName "this" binding anchor.site
  | .super method anchor binding => superMethod method binding anchor.site

/-- The effect of a statement, given how expressions are evaluated and how its parts are
executed. -/
def Stmt.execWith (rounds : Nat) (eval : Expr → EvalM Value) (exec : Stmt → EvalM Unit)
    (s : Stmt) : EvalM Unit := do
  match s with
  | .expression value => discard (eval value)
  | .print value => printLine (← eval value).text
  | .declare name none => defineHere name .nil
  | .declare name (some value) => defineHere name (← eval value)
  | .block body =>
    let env ← openScope (← get).current (.block body)
    within env (body.forM exec)
  | .ifThen condition body =>
    if (← eval condition).truthy then exec body
  | .ifElse condition body alternative =>
    if (← eval condition).truthy then exec body
    else exec alternative
  | .loop condition body => whileTrue rounds (return (← eval condition).truthy) (exec body)
  | .function declaration =>
    let closure ← newClosure declaration (← get).current false
    defineHere declaration.name (.function closure)
  | .returning none => throw (.returned .nil)
  | .returning (some value) => throw (.returned (← eval value))
  | .classDecl name none methods => declareClass name none methods
  | .classDecl name (some reference) methods =>
    let value ← eval (.variable reference)
    let cls ← checkSuperclass reference value
    declareClass name (some cls) methods

mutual

/-- The value of an expression. -/
def Expr.eval (rounds : Nat) : (depth : Nat) → Expr → EvalM Value
  | 0, _ => throw .stackExhausted
  | depth + 1, e => e.evalWith (Expr.eval rounds depth) (Stmt.exec rounds depth)
termination_by structural depth => depth

/-- The effect of a statement. -/
def Stmt.exec (rounds : Nat) : (depth : Nat) → Stmt → EvalM Unit
  | 0, _ => throw .stackExhausted
  | depth + 1, s => s.execWith rounds (Expr.eval rounds depth) (Stmt.exec rounds depth)
termination_by structural depth => depth

end

/-- The effect of a program whose names are bound. -/
def Program.exec (rounds depth : Nat) (program : Program) : EvalM Unit :=
  program.forM (Stmt.exec rounds depth)

end Treewalk
