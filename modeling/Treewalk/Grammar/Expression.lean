import Treewalk.Grammar.Parsed

/-!
# The grammar of expressions

Expressions are recognised by recursive descent. Assignment binds loosest and to the right; below
it stand six levels of binary operators that bind to the left, then prefix operators, then calls
and property accesses, then the atoms.

A wrong assignment target, a misplaced `this` or `super` and an argument beyond the limit are
reported without stopping, since the tokens around them are in order.

## Main definitions

* `Precedence` — the levels of binary operators
* `expression` — an expression at the head of a token list
-/

namespace Treewalk.Grammar

/-- The most arguments a call and the most parameters a function can have. -/
def maxArguments : Nat := 255

/-- The levels of binary operators, from the loosest to the tightest. -/
inductive Precedence where
  | disjunction | conjunction | equality | comparison | sum | product
deriving DecidableEq, Repr

namespace Precedence

/-- The next tighter level. -/
def tighter? : Precedence → Option Precedence
  | .disjunction => some .conjunction
  | .conjunction => some .equality
  | .equality => some .comparison
  | .comparison => some .sum
  | .sum => some .product
  | .product => none

/-- How many levels are as tight or tighter. -/
def rank : Precedence → Nat
  | .disjunction => 6
  | .conjunction => 5
  | .equality => 4
  | .comparison => 3
  | .sum => 2
  | .product => 1

theorem rank_lt_of_tighter? {p q : Precedence} (h : p.tighter? = some q) : q.rank < p.rank := by
  cases p <;> cases h <;> decide

theorem rank_pos (p : Precedence) : 0 < p.rank := by
  cases p <;> decide

theorem rank_le (p : Precedence) : p.rank ≤ 6 := by
  cases p <;> decide

/-- How a token of a level joins two operands. -/
def join? (level : Precedence) (token : Token) : Option (Expr → Expr → Expr) :=
  let binary (op : BinaryOp) := some fun left right => Expr.binary op left right token.anchor
  match level, token.kind with
  | .disjunction, .keyword .kwOr => some (Expr.logical .or)
  | .conjunction, .keyword .kwAnd => some (Expr.logical .and)
  | .equality, .bangEqual => binary .notEqual
  | .equality, .equalEqual => binary .equal
  | .comparison, .greater => binary .greater
  | .comparison, .greaterEqual => binary .greaterEqual
  | .comparison, .less => binary .less
  | .comparison, .lessEqual => binary .lessEqual
  | .sum, .minus => binary .subtract
  | .sum, .plus => binary .add
  | .product, .slash => binary .divide
  | .product, .star => binary .multiply
  | _, _ => none

end Precedence

/-- The prefix operator of a token. -/
def unaryOp? (token : Token) : Option UnaryOp :=
  match token.kind with
  | .bang => some .not
  | .minus => some .negate
  | _ => none

/-- The constant of a token. -/
def literal? (token : Token) : Option Literal :=
  match token.kind with
  | .keyword .kwFalse => some (.bool false)
  | .keyword .kwTrue => some (.bool true)
  | .keyword .kwNil => some .nil
  | .number value => some (.number value)
  | .string value => some (.string value)
  | _ => none

/-- The assignment of a value to a target, if it is a variable or a property. -/
def assignTo? (target value : Expr) : Option Expr :=
  match target with
  | .variable reference => some (.assign reference value)
  | .get object name anchor => some (.set object name value anchor)
  | _ => none

/-- Why `super` may not stand here. -/
def superMisuse? : ClassKind → Option String
  | .none => some "Can't use 'super' outside of a class."
  | .plain => some "Can't use 'super' in a class with no superclass."
  | .subclass => none

/-- Why `this` may not stand here. -/
def thisMisuse? : ClassKind → Option String
  | .none => some "Can't use 'this' outside of a class."
  | .plain | .subclass => none

/-- The report of a keyword that may not stand where it does. -/
def misplaced (token : Token) (reason : Option String) : List GrammarError :=
  (reason.map (GrammarError.misplacedKeyword token.found)).toList

/-- The method access after `super`. -/
def superAccess (context : Context) (keyword : Token) (ts : List Token) :
    Parsed Expr ts.length :=
  ((expect context .dot "Expect '.' after 'super'" ts).andThen fun _ rest h =>
    ((expect context .identifier "Expect superclass method name" rest).map fun method =>
      Expr.super method.lexeme keyword.anchor .global).widen (le_of_shorter h)).after
    (misplaced keyword (superMisuse? context.enclosing))

/-- The report of an item beyond the limit. -/
def beyondLimit (report : Found → GrammarError) (context : Context) (count : Nat)
    (ts : List Token) : List GrammarError :=
  if maxArguments ≤ count then [report (context.here ts)] else []

mutual

/-- An assignment, or an expression of a tighter level. -/
def assignment (context : Context) (ts : List Token) : Parsed Expr ts.length :=
  (binary context .disjunction ts).andThen fun target rest h =>
    match rest, h with
    | [], h => .ok target [] [] h
    | token :: rest, h =>
      if token.kind = .equal then
        ((assignment context rest).widen (tail_le_of_shorter h)).andThen fun value rest h =>
          match assignTo? target value with
          | some assigned => .ok assigned rest [] h
          | none => .ok target rest [.invalidAssignmentTarget token.found] h
      else .ok target (token :: rest) [] h
termination_by ts.length * 32 + 15
decreasing_by all_goals grind [Precedence.rank_pos, Precedence.rank_le]

/-- Operands of one level joined from the left. -/
def binary (context : Context) (level : Precedence) (ts : List Token) : Parsed Expr ts.length :=
  (operand context level ts).andThen fun left rest h =>
    (binaryTail context level left rest).widen h
termination_by ts.length * 32 + 2 * level.rank + 2
decreasing_by all_goals grind [Precedence.rank_pos, Precedence.rank_le]

/-- The operators of one level and their right operands, after a left operand. -/
def binaryTail (context : Context) (level : Precedence) (left : Expr) (ts : List Token) :
    Parsed Expr (ts.length + 1) :=
  match ts with
  | [] => .ok left [] [] length_nil_lt_succ
  | token :: rest =>
    match level.join? token with
    | none => .ok left (token :: rest) [] (length_cons_lt_succ token rest)
    | some join =>
      ((operand context level rest).andThen fun right rest h =>
        (binaryTail context level (join left right) rest).widen h).widen
        (length_le_cons_succ token rest)
termination_by ts.length * 32 + 15
decreasing_by all_goals grind [Precedence.rank_pos, Precedence.rank_le]

/-- An operand of one level. -/
def operand (context : Context) (level : Precedence) (ts : List Token) : Parsed Expr ts.length :=
  match h : level.tighter? with
  | some next =>
    have := Precedence.rank_lt_of_tighter? h
    binary context next ts
  | none => unary context ts
termination_by ts.length * 32 + 2 * level.rank + 1
decreasing_by all_goals grind [Precedence.rank_pos, Precedence.rank_le]

/-- Prefix operators before a call. -/
def unary (context : Context) (ts : List Token) : Parsed Expr ts.length :=
  match ts with
  | [] => call context []
  | token :: rest =>
    match unaryOp? token with
    | some op =>
      ((unary context rest).map (Expr.unary op · token.anchor)).widen (length_le_cons token rest)
    | none => call context (token :: rest)
termination_by ts.length * 32 + 2
decreasing_by all_goals grind [Precedence.rank_pos, Precedence.rank_le]

/-- An atom with calls and property accesses. -/
def call (context : Context) (ts : List Token) : Parsed Expr ts.length :=
  (atom context ts).andThen fun callee rest h => (callTail context callee rest).widen h
termination_by ts.length * 32 + 1
decreasing_by all_goals grind [Precedence.rank_pos, Precedence.rank_le]

/-- The calls and property accesses after a callee. -/
def callTail (context : Context) (callee : Expr) (ts : List Token) :
    Parsed Expr (ts.length + 1) :=
  match ts with
  | [] => .ok callee [] [] length_nil_lt_succ
  | token :: rest =>
    if token.kind = .leftParen then
      ((arguments context rest).andThen fun (items, paren) rest h =>
        (callTail context (.call callee items paren.anchor) rest).widen h).widen
        (length_le_cons_succ token rest)
    else if token.kind = .dot then
      ((expect context .identifier "Expect property name after '.'" rest).andThen fun name rest h =>
        (callTail context (.get callee name.lexeme name.anchor) rest).widen h).widen
        (length_le_cons_succ token rest)
    else .ok callee (token :: rest) [] (length_cons_lt_succ token rest)
termination_by ts.length * 32 + 15
decreasing_by all_goals grind [Precedence.rank_pos, Precedence.rank_le]

/-- The arguments of a call and its closing parenthesis. -/
def arguments (context : Context) (ts : List Token) : Parsed (List Expr × Token) ts.length :=
  match ts with
  | [] => .panic (.expectedExpression context.ending) [] [] (Nat.le_refl _)
  | token :: rest =>
    if token.kind = .rightParen then .ok ([], token) rest [] (length_lt_cons token rest)
    else
      (argumentItems context 0 (token :: rest)).andThen fun items rest h =>
        ((expect context .rightParen "Expect ')' after arguments" rest).map (items, ·)).widen
          (le_of_shorter h)
termination_by ts.length * 32 + 17
decreasing_by all_goals grind [Precedence.rank_pos, Precedence.rank_le]

/-- One argument or more, after `count` others. -/
def argumentItems (context : Context) (count : Nat) (ts : List Token) :
    Parsed (List Expr) ts.length :=
  ((assignment context ts).andThen fun item rest h =>
    match rest, h with
    | [], h => .ok [item] [] [] h
    | token :: rest, h =>
      if token.kind = .comma then
        ((argumentItems context (count + 1) rest).map (item :: ·)).widen (tail_le_of_shorter h)
      else .ok [item] (token :: rest) [] h).after
    (beyondLimit .tooManyArguments context count ts)
termination_by ts.length * 32 + 16
decreasing_by all_goals grind [Precedence.rank_pos, Precedence.rank_le]

/-- A constant, a name, `this`, an access through `super`, or an expression in parentheses. -/
def atom (context : Context) (ts : List Token) : Parsed Expr ts.length :=
  match ts with
  | [] => .panic (.expectedExpression context.ending) [] [] (Nat.le_refl _)
  | token :: rest =>
    match literal? token with
    | some value => .ok (.literal value) rest [] (length_lt_cons token rest)
    | none =>
      match token.kind with
      | .keyword .kwSuper => (superAccess context token rest).widen (length_le_cons token rest)
      | .keyword .kwThis =>
        .ok (.this token.anchor .global) rest (misplaced token (thisMisuse? context.enclosing))
          (length_lt_cons token rest)
      | .identifier =>
        .ok (.variable ⟨token.lexeme, token.anchor, .global⟩) rest [] (length_lt_cons token rest)
      | .leftParen =>
        ((assignment context rest).widen (length_le_cons token rest)).andThen fun inner rest h =>
          ((expect context .rightParen "Expect ')' after expression" rest).map fun _ =>
            Expr.grouping inner).widen (le_of_shorter h)
      | _ => .panic (.expectedExpression token.found) (token :: rest) [] (Nat.le_refl _)
termination_by ts.length * 32
decreasing_by all_goals grind [Precedence.rank_pos, Precedence.rank_le]

end

/-- An expression at the head of a token list. -/
def expression (context : Context) (ts : List Token) : Parsed Expr ts.length :=
  assignment context ts

end Treewalk.Grammar
