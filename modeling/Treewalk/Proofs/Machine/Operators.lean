import Mathlib.Data.List.Forall2
import Treewalk.Machine.Evaluate

/-!
# Operators and builtin functions

Of its operands an operator sees no more than the numbers and strings among them, their kinds and
whether they are the same, so operands that look alike are treated alike. What a binary operator
does with them is one of a few things: it gives a plain value, or it refuses them. A builtin
function that computes its answer sees the time and the plain values among its arguments, and gives
an argument or a plain value.
-/

namespace Treewalk

/-- What an operator sees of a value. -/
inductive Operand
  | number (value : Float)
  | string (value : String)
  | other (kind : String)

def Operand.kind : Operand → String
  | .number _ => "number"
  | .string _ => "string"
  | .other kind => kind

def Value.operand : Value → Operand
  | .number value => .number value
  | .string value => .string value
  | value => .other value.kind

/-- A binary operator on what it sees of its operands. -/
def applyOperands (op : BinaryOp) (left right : Operand) (same : Bool) (site : Site) :
    EvalM Value :=
  match op, left, right with
  | .equal, _, _ => return .bool same
  | .notEqual, _, _ => return .bool !same
  | op, .number a, .number b => applyNumbers op a b site
  | .add, .string a, .string b => return .string (a ++ b)
  | op, a, b => fail (.binaryOperands op.symbol a.kind b.kind site)

theorem applyBinary_eq (op : BinaryOp) (left right : Value) :
    applyBinary op left right =
      applyOperands op left.operand right.operand (left.same right) := by
  cases left <;> cases right <;> cases op <;> rfl

theorem applyBinary_congr {left left' right right' : Value} (hleft : left'.operand = left.operand)
    (hright : right'.operand = right.operand) (hsame : left'.same right' = left.same right)
    (op : BinaryOp) : applyBinary op left' right' = applyBinary op left right := by
  rw [applyBinary_eq, applyBinary_eq, hleft, hright, hsame]

/-- What a binary operator can do with two operands, at whatever site. -/
inductive BinaryOutcome (op : BinaryOp) (left right : Value) : (Site → EvalM Value) → Prop
  | plain (literal : Literal) : BinaryOutcome op left right fun _ => pure (.ofLiteral literal)
  | divisionByZero : BinaryOutcome op left right fun site => fail (.divisionByZero site)
  | operands : BinaryOutcome op left right fun site =>
      fail (.binaryOperands op.symbol left.kind right.kind site)
  | unknown (symbol : String) (h : op = .other symbol) : BinaryOutcome op left right fun _ =>
      throw (.fault (.unknownOperator symbol))

theorem divide_outcome (a b : Float) (left right : Value) :
    BinaryOutcome .divide left right (applyNumbers .divide a b) := by
  unfold applyNumbers
  by_cases hzero : (b == 0) = true
  · simp only [if_pos hzero]
    exact .divisionByZero
  · simp only [if_neg hzero]
    exact .plain (.number (a / b))

theorem applyBinary_outcome (op : BinaryOp) (left right : Value) :
    BinaryOutcome op left right (applyBinary op left right) := by
  -- the kinds of the operands and the operator decide, but for a division, which looks at zero
  cases left <;> cases right <;> cases op <;>
    first
    | exact .plain (.bool _)
    | exact .operands
    | exact .plain (.number _)
    | exact .plain (.string _)
    | exact .unknown _ rfl
    | exact divide_outcome _ _ _ _

theorem LogicalOp.decides_congr {value value' : Value} (h : value'.truthy = value.truthy)
    (op : LogicalOp) : op.decides value' = op.decides value := by
  cases op <;> simp only [decides, h]

/-! ### Answers of builtin functions -/

section Answers

variable {arguments arguments' : List Value}

theorem Answer.value_of_forall {P : Value → Prop} (hplain : ∀ literal, P (.ofLiteral literal))
    (harguments : ∀ value ∈ arguments, P value) (answer : Answer) : P (answer.value arguments) := by
  cases answer with
  | plain literal => exact hplain literal
  | argument index =>
    rw [Answer.value, List.getD_eq_getElem?_getD]
    cases hget : arguments[index]? with
    | none => exact hplain .nil
    | some value => exact harguments value (List.mem_of_getElem? hget)

/-- Arguments that are related look alike, so the answers are related. -/
theorem Answer.value_rel {R : Value → Value → Prop}
    (hplain : ∀ literal, R (.ofLiteral literal) (.ofLiteral literal))
    (hlooks : ∀ value value', R value value' → value'.literal? = value.literal?)
    (harguments : List.Forall₂ R arguments arguments') (answer : List (Option Literal) → Answer) :
    R ((answer (arguments.map Value.literal?)).value arguments)
      ((answer (arguments'.map Value.literal?)).value arguments') := by
  have hsame : arguments'.map Value.literal? = arguments.map Value.literal? := by
    induction harguments with
    | nil => rfl
    | cons hargument _ ih => rw [List.map_cons, List.map_cons, hlooks _ _ hargument, ih]
  rw [hsame]
  cases answer (arguments.map Value.literal?) with
  | plain literal => exact hplain literal
  | argument index =>
    clear hsame
    unfold value
    -- an argument that is missing is nil on both sides
    induction harguments generalizing index with
    | nil => exact hplain .nil
    | cons hargument _ ih =>
      cases index with
      | zero => exact hargument
      | succ index => exact ih index

end Answers

end Treewalk
