import Treewalk.Proofs.Grammar.Derivation
import Treewalk.Proofs.Grammar.Remainder

/-!
# Violations

A program can have the shape that the grammar asks for and still break a rule that is not about
shape: a `return`, `this` or `super` that may not stand where it does, a class that names itself as
its superclass, an argument or a parameter too many, or an assignment to something that is neither a
variable nor a property. A loose derivation leaves these rules out. In their place it lists the
violations, each with the token that it is blamed on.

The rules are those of the strict grammar, apart from assignment: there an equals sign may follow
any expression of the loosest level. Where the target is wrong the tree is that of the target alone.
-/

namespace Treewalk.Grammar

/-- A broken rule, and the token it is blamed on. -/
inductive Violation where
  /-- A class has its own name as the name of its superclass. -/
  | selfInheritance (parent : Token)
  /-- A `return` stands outside every function. -/
  | strayReturn (keyword : Token)
  /-- A `return` in an initializer has a value. -/
  | initializerValue (keyword : Token)
  /-- A `this` stands outside every class. -/
  | strayThis (keyword : Token)
  /-- A `super` stands outside every class. -/
  | straySuper (keyword : Token)
  /-- The class around a `super` has no superclass. -/
  | superlessSuper (keyword : Token)
  /-- An argument stands behind 255 others; it starts with the token. -/
  | extraArgument (first : Token)
  /-- A parameter stands behind 255 others. -/
  | extraParameter (name : Token)
  /-- What stands before an equals sign is neither a variable nor a property. -/
  | wrongTarget (equals : Token)
deriving DecidableEq

namespace Violation

/-- The token that a violation is blamed on. -/
def token : Violation → Token
  | .selfInheritance token | .strayReturn token | .initializerValue token | .strayThis token
  | .straySuper token | .superlessSuper token | .extraArgument token | .extraParameter token
  | .wrongTarget token => token

/-- The problem that is reported for a violation. -/
def error : Violation → GrammarError
  | .selfInheritance parent => .misplacedKeyword parent.found "A class can't inherit from itself."
  | .strayReturn keyword => .misplacedKeyword keyword.found "Can't return from top-level code."
  | .initializerValue keyword =>
    .misplacedKeyword keyword.found "Can't return a value from an initializer."
  | .strayThis keyword => .misplacedKeyword keyword.found "Can't use 'this' outside of a class."
  | .straySuper keyword => .misplacedKeyword keyword.found "Can't use 'super' outside of a class."
  | .superlessSuper keyword =>
    .misplacedKeyword keyword.found "Can't use 'super' in a class with no superclass."
  | .extraArgument first => .tooManyArguments first.found
  | .extraParameter name => .tooManyParameters name.found
  | .wrongTarget equals => .invalidAssignmentTarget equals.found

theorem found_error (v : Violation) : v.error.found = v.token.found := by
  cases v <;> rfl

theorem stops_error (v : Violation) : v.error.stops = false := by
  cases v <;> rfl

/-- A violation, if a condition holds. -/
def breach (broken : Prop) [Decidable broken] (v : Violation) : List Violation :=
  if broken then [v] else []

@[grind →]
theorem eq_of_mem_breach {broken : Prop} [Decidable broken] {v w : Violation}
    (h : w ∈ breach broken v) : w = v := by
  unfold breach at h
  split at h
  · exact List.mem_singleton.mp h
  · exact absurd h List.not_mem_nil

end Violation

namespace Loose

open Violation (breach)

/-! ### Expressions -/

/-- What a nonterminal of expressions derives: an expression, or the items of an argument list with
the first token of each. -/
inductive ExprPhrase where
  | one (e : Expr)
  | many (items : List (Token × Expr))

/-- The arguments beyond a limit. -/
def extraArguments (limit : Nat) (items : List (Token × Expr)) : List Violation :=
  (items.drop limit).map fun item => .extraArgument item.1

/-- Loose derivations of expressions in a class of a given kind, or outside every class. -/
inductive DerivesExpr (enclosing : ClassKind) :
    ExprSymbol → List Token → ExprPhrase → List Violation → Prop where
  | assignVariable {equals : Token} {ts rs : List Token} {reference : Reference} {value : Expr}
    {vs ws : List Violation}
    (htarget : DerivesExpr enclosing (.level .disjunction) ts (.one (.variable reference)) vs)
    (hequals : equals.kind = .equal)
    (hvalue : DerivesExpr enclosing .assignment rs (.one value) ws) :
    DerivesExpr enclosing .assignment (ts ++ equals :: rs) (.one (.assign reference value))
      (vs ++ ws)
  | assignProperty {equals : Token} {ts rs : List Token} {object value : Expr} {name : String}
    {anchor : Anchor} {vs ws : List Violation}
    (htarget : DerivesExpr enclosing (.level .disjunction) ts (.one (.get object name anchor)) vs)
    (hequals : equals.kind = .equal)
    (hvalue : DerivesExpr enclosing .assignment rs (.one value) ws) :
    DerivesExpr enclosing .assignment (ts ++ equals :: rs) (.one (.set object name value anchor))
      (vs ++ ws)
  | assignOther {equals : Token} {ts rs : List Token} {target value : Expr} {vs ws : List Violation}
    (htarget : DerivesExpr enclosing (.level .disjunction) ts (.one target) vs)
    (hvariable : ∀ reference, target ≠ .variable reference)
    (hproperty : ∀ object name anchor, target ≠ .get object name anchor)
    (hequals : equals.kind = .equal)
    (hvalue : DerivesExpr enclosing .assignment rs (.one value) ws) :
    DerivesExpr enclosing .assignment (ts ++ equals :: rs) (.one target)
      (vs ++ .wrongTarget equals :: ws)
  | noAssignment {ts : List Token} {e : Expr} {vs : List Violation}
    (h : DerivesExpr enclosing (.level .disjunction) ts (.one e) vs) :
    DerivesExpr enclosing .assignment ts (.one e) vs
  | operand {level : Precedence} {ts : List Token} {e : Expr} {vs : List Violation}
    (h : DerivesExpr enclosing level.operandSymbol ts (.one e) vs) :
    DerivesExpr enclosing (.level level) ts (.one e) vs
  | join {level : Precedence} {ls rs : List Token} {token : Token} {left right e : Expr}
    {vs ws : List Violation}
    (hleft : DerivesExpr enclosing (.level level) ls (.one left) vs)
    (hjoin : level.Joins token left right e)
    (hright : DerivesExpr enclosing level.operandSymbol rs (.one right) ws) :
    DerivesExpr enclosing (.level level) (ls ++ token :: rs) (.one e) (vs ++ ws)
  | prefixed {token : Token} {op : UnaryOp} {ts : List Token} {operand : Expr}
    {vs : List Violation} (hop : PrefixOf token.kind op)
    (h : DerivesExpr enclosing .unary ts (.one operand) vs) :
    DerivesExpr enclosing .unary (token :: ts) (.one (.unary op operand token.anchor)) vs
  | noPrefix {ts : List Token} {e : Expr} {vs : List Violation}
    (h : DerivesExpr enclosing .call ts (.one e) vs) : DerivesExpr enclosing .unary ts (.one e) vs
  | noCall {ts : List Token} {e : Expr} {vs : List Violation}
    (h : DerivesExpr enclosing .primary ts (.one e) vs) :
    DerivesExpr enclosing .call ts (.one e) vs
  | callEmpty {opening closing : Token} {cs : List Token} {callee : Expr} {vs : List Violation}
    (hcallee : DerivesExpr enclosing .call cs (.one callee) vs)
    (hopening : opening.kind = .leftParen) (hclosing : closing.kind = .rightParen) :
    DerivesExpr enclosing .call (cs ++ [opening, closing]) (.one (.call callee [] closing.anchor))
      vs
  | callItems {opening closing : Token} {cs ts : List Token} {callee : Expr}
    {items : List (Token × Expr)} {vs ws : List Violation}
    (hcallee : DerivesExpr enclosing .call cs (.one callee) vs)
    (hopening : opening.kind = .leftParen)
    (hitems : DerivesExpr enclosing .items ts (.many items) ws)
    (hclosing : closing.kind = .rightParen) :
    DerivesExpr enclosing .call (cs ++ opening :: (ts ++ [closing]))
      (.one (.call callee (items.map Prod.snd) closing.anchor))
      (vs ++ (ws ++ extraArguments 255 items))
  | property {dot name : Token} {os : List Token} {object : Expr} {vs : List Violation}
    (hobject : DerivesExpr enclosing .call os (.one object) vs) (hdot : dot.kind = .dot)
    (hname : name.kind = .identifier) :
    DerivesExpr enclosing .call (os ++ [dot, name]) (.one (.get object name.lexeme name.anchor)) vs
  | literal {token : Token} {value : Literal} (h : Denotes token.kind value) :
    DerivesExpr enclosing .primary [token] (.one (.literal value)) []
  | variable {name : Token} (hname : name.kind = .identifier) :
    DerivesExpr enclosing .primary [name] (.one (.variable name.reference)) []
  | this {keyword : Token} (hkeyword : keyword.kind = .keyword .kwThis) :
    DerivesExpr enclosing .primary [keyword] (.one (.this keyword.anchor .global))
      (breach (enclosing = .none) (.strayThis keyword))
  | super {keyword dot method : Token} (hkeyword : keyword.kind = .keyword .kwSuper)
    (hdot : dot.kind = .dot) (hmethod : method.kind = .identifier) :
    DerivesExpr enclosing .primary [keyword, dot, method]
      (.one (.super method.lexeme keyword.anchor .global))
      (breach (enclosing = .none) (.straySuper keyword) ++
        breach (enclosing = .plain) (.superlessSuper keyword))
  | grouping {opening closing : Token} {ts : List Token} {inner : Expr} {vs : List Violation}
    (hopening : opening.kind = .leftParen)
    (h : DerivesExpr enclosing .assignment ts (.one inner) vs)
    (hclosing : closing.kind = .rightParen) :
    DerivesExpr enclosing .primary (opening :: (ts ++ [closing])) (.one (.grouping inner)) vs
  | lastItem {first : Token} {ts : List Token} {item : Expr} {vs : List Violation}
    (h : DerivesExpr enclosing .assignment (first :: ts) (.one item) vs) :
    DerivesExpr enclosing .items (first :: ts) (.many [(first, item)]) vs
  | consItem {first comma : Token} {ts rs : List Token} {item : Expr}
    {items : List (Token × Expr)} {vs ws : List Violation}
    (hitem : DerivesExpr enclosing .assignment (first :: ts) (.one item) vs)
    (hcomma : comma.kind = .comma) (hitems : DerivesExpr enclosing .items rs (.many items) ws) :
    DerivesExpr enclosing .items (first :: ts ++ comma :: rs) (.many ((first, item) :: items))
      (vs ++ ws)

/-- A call is an operand of every level. -/
theorem DerivesExpr.disjunction_of_call {enclosing : ClassKind} {ts : List Token} {e : Expr}
    {vs : List Violation} (h : DerivesExpr enclosing .call ts (.one e) vs) :
    DerivesExpr enclosing (.level .disjunction) ts (.one e) vs :=
  .operand (.operand (.operand (.operand (.operand (.operand (.noPrefix h))))))

/-! ### Statements -/

/-- A loose derivation of an expression. -/
def Expression (place : Place) (ts : List Token) (e : Expr) (vs : List Violation) : Prop :=
  DerivesExpr place.enclosing .assignment ts (.one e) vs

/-- An expression that may be left out. -/
inductive OptionalExpression (place : Place) :
    List Token → Option Expr → List Violation → Prop where
  | none : OptionalExpression place [] none []
  | some {ts : List Token} {e : Expr} {vs : List Violation} (h : Expression place ts e vs) :
    OptionalExpression place ts (some e) vs

/-- An expression and its semicolon. -/
inductive ExpressionStmt (place : Place) : List Token → Stmt → List Violation → Prop where
  | mk {ts : List Token} {e : Expr} {semicolon : Token} {vs : List Violation}
    (h : Expression place ts e vs) (hsemicolon : semicolon.kind = .semicolon) :
    ExpressionStmt place (ts ++ [semicolon]) (.expression e) vs

/-- The declaration of a variable. -/
inductive VariableDecl (place : Place) : List Token → Stmt → List Violation → Prop where
  | bare {keyword name semicolon : Token} (hkeyword : keyword.kind = .keyword .kwVar)
    (hname : name.kind = .identifier) (hsemicolon : semicolon.kind = .semicolon) :
    VariableDecl place [keyword, name, semicolon] (.declare name.lexeme none) []
  | initialized {keyword name equals semicolon : Token} {ts : List Token} {value : Expr}
    {vs : List Violation} (hkeyword : keyword.kind = .keyword .kwVar)
    (hname : name.kind = .identifier) (hequals : equals.kind = .equal)
    (hvalue : Expression place ts value vs) (hsemicolon : semicolon.kind = .semicolon) :
    VariableDecl place (keyword :: name :: equals :: (ts ++ [semicolon]))
      (.declare name.lexeme (some value)) vs

/-- The first clause of a `for` loop, with its semicolon. -/
inductive LoopStart (place : Place) : List Token → Option Stmt → List Violation → Prop where
  | none {semicolon : Token} (hsemicolon : semicolon.kind = .semicolon) :
    LoopStart place [semicolon] none []
  | variable {ts : List Token} {s : Stmt} {vs : List Violation} (h : VariableDecl place ts s vs) :
    LoopStart place ts (some s) vs
  | expression {ts : List Token} {s : Stmt} {vs : List Violation}
    (h : ExpressionStmt place ts s vs) : LoopStart place ts (some s) vs

/-- The parameters of a function, one or more. -/
inductive ParameterNames : List Token → List Token → Prop where
  | last {name : Token} (hname : name.kind = .identifier) : ParameterNames [name] [name]
  | cons {name comma : Token} {ts names : List Token} (hname : name.kind = .identifier)
    (hcomma : comma.kind = .comma) (h : ParameterNames ts names) :
    ParameterNames (name :: comma :: ts) (name :: names)

/-- The parameters beyond a limit. -/
def extraParameters (limit : Nat) (names : List Token) : List Violation :=
  (names.drop limit).map .extraParameter

/-- The parameters of a function, any number of them. -/
inductive Parameters : List Token → List String → List Violation → Prop where
  | none : Parameters [] [] []
  | some {ts names : List Token} (h : ParameterNames ts names) :
    Parameters ts (names.map Token.lexeme) (extraParameters 255 names)

/-- The superclass of a class with a given name. -/
inductive SuperclassClause (name : Token) :
    List Token → Option Reference → List Violation → Prop where
  | none : SuperclassClause name [] none []
  | some {less parent : Token} (hless : less.kind = .less) (hparent : parent.kind = .identifier) :
    SuperclassClause name [less, parent] (some parent.reference)
      (breach (parent.lexeme = name.lexeme) (.selfInheritance parent))

/-- Loose derivations of statements and declarations at a place. -/
inductive DerivesStmt : Place → StmtSymbol → List Token → StmtPhrase → List Violation → Prop where
  | noDeclarations {place : Place} : DerivesStmt place .declarations [] (.stmts []) []
  | consDeclaration {place : Place} {ts rs : List Token} {s : Stmt} {body : List Stmt}
    {vs ws : List Violation} (hfirst : DerivesStmt place .declaration ts (.stmt s) vs)
    (hrest : DerivesStmt place .declarations rs (.stmts body) ws) :
    DerivesStmt place .declarations (ts ++ rs) (.stmts (s :: body)) (vs ++ ws)
  | classDecl {place : Place} {keyword name opening closing : Token} {cs ms : List Token}
    {superclass : Option Reference} {methods : List FunctionDecl} {vs ws : List Violation}
    (hkeyword : keyword.kind = .keyword .kwClass) (hname : name.kind = .identifier)
    (hsuperclass : SuperclassClause name cs superclass vs) (hopening : opening.kind = .leftBrace)
    (hmethods : DerivesStmt { place with enclosing := classKind superclass } .methods ms
      (.functions methods) ws)
    (hclosing : closing.kind = .rightBrace) :
    DerivesStmt place .declaration (keyword :: name :: (cs ++ opening :: (ms ++ [closing])))
      (.stmt (.classDecl name.lexeme superclass methods)) (vs ++ ws)
  | functionDecl {place : Place} {keyword : Token} {ts : List Token} {declaration : FunctionDecl}
    {vs : List Violation} (hkeyword : keyword.kind = .keyword .kwFun)
    (h : DerivesStmt place (.function false) ts (.function declaration) vs) :
    DerivesStmt place .declaration (keyword :: ts) (.stmt (.function declaration)) vs
  | variableDecl {place : Place} {ts : List Token} {s : Stmt} {vs : List Violation}
    (h : VariableDecl place ts s vs) : DerivesStmt place .declaration ts (.stmt s) vs
  | statement {place : Place} {dangling : Bool} {ts : List Token} {s : Stmt} {vs : List Violation}
    (h : DerivesStmt place (.statement dangling) ts (.stmt s) vs) :
    DerivesStmt place .declaration ts (.stmt s) vs
  | expression {place : Place} {ts : List Token} {s : Stmt} {vs : List Violation}
    (h : ExpressionStmt place ts s vs) : DerivesStmt place (.statement false) ts (.stmt s) vs
  | forLoop {place : Place} {keyword opening semicolon closing : Token}
    {is cs us bs : List Token} {initializer : Option Stmt} {condition increment : Option Expr}
    {body : Stmt} {dangling : Bool} {vs ws xs ys : List Violation}
    (hkeyword : keyword.kind = .keyword .kwFor) (hopening : opening.kind = .leftParen)
    (hinitializer : LoopStart place is initializer vs)
    (hcondition : OptionalExpression place cs condition ws)
    (hsemicolon : semicolon.kind = .semicolon)
    (hincrement : OptionalExpression place us increment xs)
    (hclosing : closing.kind = .rightParen)
    (hbody : DerivesStmt place (.statement dangling) bs (.stmt body) ys) :
    DerivesStmt place (.statement dangling)
      (keyword :: opening :: (is ++ (cs ++ semicolon :: (us ++ closing :: bs))))
      (.stmt (loopTree initializer condition increment body)) (vs ++ (ws ++ (xs ++ ys)))
  | ifThen {place : Place} {keyword opening closing : Token} {cs bs : List Token}
    {condition : Expr} {body : Stmt} {dangling : Bool} {vs ws : List Violation}
    (hkeyword : keyword.kind = .keyword .kwIf) (hopening : opening.kind = .leftParen)
    (hcondition : Expression place cs condition vs) (hclosing : closing.kind = .rightParen)
    (hbody : DerivesStmt place (.statement dangling) bs (.stmt body) ws) :
    DerivesStmt place (.statement true) (keyword :: opening :: (cs ++ closing :: bs))
      (.stmt (.ifThen condition body)) (vs ++ ws)
  | ifElse {place : Place} {keyword opening closing otherwise : Token} {cs bs es : List Token}
    {condition : Expr} {body alternative : Stmt} {dangling : Bool} {vs ws xs : List Violation}
    (hkeyword : keyword.kind = .keyword .kwIf) (hopening : opening.kind = .leftParen)
    (hcondition : Expression place cs condition vs) (hclosing : closing.kind = .rightParen)
    (hbody : DerivesStmt place (.statement false) bs (.stmt body) ws)
    (hotherwise : otherwise.kind = .keyword .kwElse)
    (halternative : DerivesStmt place (.statement dangling) es (.stmt alternative) xs) :
    DerivesStmt place (.statement dangling)
      (keyword :: opening :: (cs ++ closing :: (bs ++ otherwise :: es)))
      (.stmt (.ifElse condition body alternative)) (vs ++ (ws ++ xs))
  | print {place : Place} {keyword semicolon : Token} {ts : List Token} {value : Expr}
    {vs : List Violation} (hkeyword : keyword.kind = .keyword .kwPrint)
    (hvalue : Expression place ts value vs) (hsemicolon : semicolon.kind = .semicolon) :
    DerivesStmt place (.statement false) (keyword :: (ts ++ [semicolon])) (.stmt (.print value)) vs
  | returning {place : Place} {keyword semicolon : Token} {ts : List Token} {value : Option Expr}
    {vs : List Violation} (hkeyword : keyword.kind = .keyword .kwReturn)
    (hvalue : OptionalExpression place ts value vs) (hsemicolon : semicolon.kind = .semicolon) :
    DerivesStmt place (.statement false) (keyword :: (ts ++ [semicolon]))
      (.stmt (.returning value))
      (breach (place.function = .none) (.strayReturn keyword) ++
        (breach (place.function = .initializer ∧ value.isSome) (.initializerValue keyword) ++ vs))
  | whileLoop {place : Place} {keyword opening closing : Token} {cs bs : List Token}
    {condition : Expr} {body : Stmt} {dangling : Bool} {vs ws : List Violation}
    (hkeyword : keyword.kind = .keyword .kwWhile) (hopening : opening.kind = .leftParen)
    (hcondition : Expression place cs condition vs) (hclosing : closing.kind = .rightParen)
    (hbody : DerivesStmt place (.statement dangling) bs (.stmt body) ws) :
    DerivesStmt place (.statement dangling) (keyword :: opening :: (cs ++ closing :: bs))
      (.stmt (.loop condition body)) (vs ++ ws)
  | block {place : Place} {opening closing : Token} {ts : List Token} {body : List Stmt}
    {vs : List Violation} (hopening : opening.kind = .leftBrace)
    (h : DerivesStmt place .declarations ts (.stmts body) vs)
    (hclosing : closing.kind = .rightBrace) :
    DerivesStmt place (.statement false) (opening :: (ts ++ [closing])) (.stmt (.block body)) vs
  | function {place : Place} {method : Bool} {name opening closing start finish : Token}
    {ps bs : List Token} {params : List String} {body : List Stmt} {vs ws : List Violation}
    (hname : name.kind = .identifier) (hopening : opening.kind = .leftParen)
    (hparams : Parameters ps params vs) (hclosing : closing.kind = .rightParen)
    (hstart : start.kind = .leftBrace)
    (hbody : DerivesStmt { place with function := bodyKind method name.lexeme } .declarations bs
      (.stmts body) ws)
    (hfinish : finish.kind = .rightBrace) :
    DerivesStmt place (.function method)
      (name :: opening :: (ps ++ closing :: start :: (bs ++ [finish])))
      (.function (.mk name.lexeme params body name.anchor)) (vs ++ ws)
  | noMethods {place : Place} : DerivesStmt place .methods [] (.functions []) []
  | consMethod {place : Place} {ts rs : List Token} {method : FunctionDecl}
    {methods : List FunctionDecl} {vs ws : List Violation}
    (hfirst : DerivesStmt place (.function true) ts (.function method) vs)
    (hrest : DerivesStmt place .methods rs (.functions methods) ws) :
    DerivesStmt place .methods (ts ++ rs) (.functions (method :: methods)) (vs ++ ws)

/-- A token list spells a program with some violations: declarations outside every function and
class. -/
def DerivesProgram (ts : List Token) (program : Program) (vs : List Violation) : Prop :=
  DerivesStmt {} .declarations ts (.stmts program) vs

/-! ### The tokens of violations -/

/-- The first tokens of the items of an argument list. -/
def ExprPhrase.firsts : ExprPhrase → List Token
  | .one _ => []
  | .many items => items.map Prod.fst

section Tokens

variable {ts : List Token} {v : Violation} {vs : List Violation}

@[grind →]
theorem exists_of_mem_extraArguments {limit : Nat} {items : List (Token × Expr)}
    (h : v ∈ extraArguments limit items) : ∃ item ∈ items, v = .extraArgument item.1 := by
  obtain ⟨item, hitem, rfl⟩ := List.mem_map.mp h
  exact ⟨item, List.mem_of_mem_drop hitem, rfl⟩

@[grind →]
theorem exists_of_mem_extraParameters {limit : Nat} {names : List Token}
    (h : v ∈ extraParameters limit names) : ∃ name ∈ names, v = .extraParameter name := by
  obtain ⟨name, hname, rfl⟩ := List.mem_map.mp h
  exact ⟨name, List.mem_of_mem_drop hname, rfl⟩

/-- Every violation in an expression is blamed on one of its tokens. -/
theorem DerivesExpr.token_mem {enclosing : ClassKind} {symbol : ExprSymbol} {phrase : ExprPhrase}
    (h : DerivesExpr enclosing symbol ts phrase vs) :
    (∀ v ∈ vs, v.token ∈ ts) ∧ ∀ first ∈ phrase.firsts, first ∈ ts := by
  -- an argument beyond the limit is blamed on its first token, so these are carried along
  induction h with
  | noAssignment _ ih | operand _ ih | noPrefix _ ih | noCall _ ih => exact ih
  | _ => grind [ExprPhrase.firsts, Violation.token]

theorem OptionalExpression.token_mem {place : Place} {value : Option Expr}
    (h : OptionalExpression place ts value vs) : ∀ v ∈ vs, v.token ∈ ts := by
  cases h with
  | none => simp
  | some h => exact h.token_mem.1

theorem ExpressionStmt.token_mem {place : Place} {s : Stmt} (h : ExpressionStmt place ts s vs) :
    ∀ v ∈ vs, v.token ∈ ts := by
  cases h with
  | mk h _ => exact fun v hv => List.mem_append_left _ (h.token_mem.1 v hv)

theorem VariableDecl.token_mem {place : Place} {s : Stmt} (h : VariableDecl place ts s vs) :
    ∀ v ∈ vs, v.token ∈ ts := by
  cases h with
  | bare => simp
  | initialized _ _ _ hvalue _ =>
    have := hvalue.token_mem.1
    grind

theorem LoopStart.token_mem {place : Place} {initializer : Option Stmt}
    (h : LoopStart place ts initializer vs) : ∀ v ∈ vs, v.token ∈ ts := by
  cases h with
  | none => simp
  | «variable» h => exact h.token_mem
  | expression h => exact h.token_mem

theorem ParameterNames.subset {names : List Token} (h : ParameterNames ts names) :
    names ⊆ ts := by
  induction h with
  | last => exact List.Subset.refl _
  | cons => grind

theorem Parameters.token_mem {names : List String} (h : Parameters ts names vs) :
    ∀ v ∈ vs, v.token ∈ ts := by
  cases h with
  | none => simp
  | some h =>
    have := h.subset
    grind [Violation.token]

theorem SuperclassClause.token_mem {name : Token} {superclass : Option Reference}
    (h : SuperclassClause name ts superclass vs) : ∀ v ∈ vs, v.token ∈ ts := by
  cases h with
  | none => simp
  | some => grind [Violation.token]

/-- Every violation in a construct is blamed on one of its tokens. -/
theorem DerivesStmt.token_mem {place : Place} {symbol : StmtSymbol} {phrase : StmtPhrase}
    (h : DerivesStmt place symbol ts phrase vs) : ∀ v ∈ vs, v.token ∈ ts := by
  induction h with
  | variableDecl h => exact h.token_mem
  | expression h => exact h.token_mem
  | statement _ ih => exact ih
  -- elsewhere a violation is that of a part, or is blamed on the keyword of the construct
  | _ =>
    grind [Violation.token, Expression, → DerivesExpr.token_mem, → OptionalExpression.token_mem,
      → LoopStart.token_mem, → Parameters.token_mem, → SuperclassClause.token_mem]

end Tokens

end Loose

end Treewalk.Grammar
