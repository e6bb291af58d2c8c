import Treewalk.Proofs.Tree.Forms

/-!
# Texts of trees are forms

The text of a tree has the characters of a form: a constant or a name is a word or a string, and any
other node is a list of a head and the forms of its parts. The head of a node with names in it, such
as an assignment, is more than one word; the head of a function ends with the list of its
parameters.
-/

namespace Treewalk

/-! ### Forms of trees -/

/-- The form of a constant. -/
def Literal.form : Literal → Form
  | .string value => .quoted value
  | value => .word value.text

mutual

/-- The form of an expression. -/
def Expr.form : Expr → Form
  | .literal value => value.form
  | .variable reference => .word reference.name
  | .assign target value => .list "" [.word "=", .word target.name, value.form]
  | .unary op operand _ => .list "" [.word op.symbol, operand.form]
  | .binary op left right _ => .list "" [.word op.symbol, left.form, right.form]
  | .logical op left right => .list "" [.word op.symbol, left.form, right.form]
  | .grouping inner => .list "" [.word "group", inner.form]
  | .call callee arguments _ => .list "" (.word "call" :: callee.form :: Expr.forms arguments)
  | .get object name _ => .list "" [.word ".", .word name, object.form]
  | .set object name value _ => .list "" [.word ".=", .word name, object.form, value.form]
  | .this _ _ => .word "this"
  | .super method _ _ => .list "" [.word "super", .word method]

/-- The forms of expressions. -/
def Expr.forms : List Expr → List Form
  | [] => []
  | e :: rest => e.form :: Expr.forms rest

end

mutual

/-- The form of a statement. -/
def Stmt.form : Stmt → Form
  | .expression value => .list "" [.word ";", value.form]
  | .print value => .list "" [.word "print", value.form]
  | .declare name none => .list "" [.word "var", .word name]
  | .declare name (some value) => .list "" [.word "var", .word name, value.form]
  | .block body => .list "" (.word "block" :: Stmt.forms body)
  | .ifThen condition body => .list "" [.word "if", condition.form, body.form]
  | .ifElse condition body alternative =>
    .list "" [.word "if-else", condition.form, body.form, alternative.form]
  | .loop condition body => .list "" [.word "while", condition.form, body.form]
  | .function declaration => declaration.form
  | .returning none => .list "" [.word "return"]
  | .returning (some value) => .list "" [.word "return", value.form]
  | .classDecl name none methods =>
    .list "" (.word "class" :: .word name :: FunctionDecl.forms methods)
  | .classDecl name (some superclass) methods =>
    .list "" (.word "class" :: .word name :: .word "<" :: .word superclass.name ::
      FunctionDecl.forms methods)

/-- The forms of statements. -/
def Stmt.forms : List Stmt → List Form
  | [] => []
  | s :: rest => s.form :: Stmt.forms rest

/-- The form of a function: its name leads its parameters. -/
def FunctionDecl.form : FunctionDecl → Form
  | .mk name params body _ =>
    .list "" (.word "fun" :: .list name (params.map .word) :: Stmt.forms body)

/-- The forms of functions. -/
def FunctionDecl.forms : List FunctionDecl → List Form
  | [] => []
  | f :: rest => f.form :: FunctionDecl.forms rest

end

/-! ### Texts -/

/-- The characters of texts, with a separator before each of them. -/
def spaced (separator : Char) (texts : List String) : List Char :=
  texts.flatMap fun text => separator :: text.toList

/-- Texts are forms in a row, if the first one is a form and the others are forms in a row. -/
theorem spaced_cons {separator : Char} {text : String} {texts : List String} {f : Form}
    {fs : List Form} (h : text.toList = f.chars)
    (hrest : spaced separator texts = Form.separated separator fs) :
    spaced separator (text :: texts) = Form.separated separator (f :: fs) := by
  rw [Form.separated, ← h, ← hrest]
  rfl

theorem toList_intercalate (separator : Char) (texts : List String) :
    ((String.singleton separator).intercalate texts).toList = (spaced separator texts).drop 1 := by
  induction texts with
  | nil => rfl
  | cons text rest ih =>
    cases rest with
    | nil => simp [spaced]
    | cons next rest =>
      rw [String.intercalate_cons_cons, String.toList_append, String.toList_append, ih]
      simp [spaced]

theorem Form.separated_append (separator : Char) (fs gs : List Form) :
    Form.separated separator (fs ++ gs) =
      Form.separated separator fs ++ Form.separated separator gs := by
  induction fs with
  | nil => rfl
  | cons f fs ih => simp [Form.separated, ih]

/-- A head and its parts between parentheses are a list, if the head consists of forms and the parts
are forms. -/
theorem toList_parenthesised {head : String} {parts : List String} (words : List Form)
    {items : List Form} (hhead : spaced ' ' [head] = Form.separated ' ' words)
    (hparts : spaced ' ' parts = Form.separated ' ' items) :
    (parenthesised head parts).toList = (Form.list "" (words ++ items)).chars := by
  have hspaced : spaced ' ' (head :: parts) = spaced ' ' [head] ++ spaced ' ' parts := by
    simp [spaced]
  have hjoined := toList_intercalate ' ' (head :: parts)
  rw [hspaced, hhead, hparts, ← Form.separated_append] at hjoined
  have hblank : String.singleton ' ' = " " := by decide
  rw [parenthesised, Form.chars, ← hjoined, hblank]
  simp

theorem Literal.toList_text (value : Literal) : value.text.toList = value.form.chars := by
  cases value with
  | string value => simp [Literal.text, Literal.form, Form.chars, Text.doubleQuote]
  | nil | bool | number => rfl

mutual

/-- The text of an expression has the characters of its form. -/
theorem Expr.toList_text (e : Expr) : e.text.toList = e.form.chars := by
  -- a head with a name in it is two words of the form, and any other head is one
  match e with
  | .literal value => exact value.toList_text
  | .variable _ | .this _ _ => rfl
  | .assign target value =>
    exact toList_parenthesised [.word "=", .word target.name]
      (by simp [spaced, Form.separated, Form.chars, toString]) (spaced_cons value.toList_text rfl)
  | .unary op operand _ =>
    exact toList_parenthesised [.word op.symbol] rfl (spaced_cons operand.toList_text rfl)
  | .binary op left right _ =>
    exact toList_parenthesised [.word op.symbol] rfl
      (spaced_cons left.toList_text (spaced_cons right.toList_text rfl))
  | .logical op left right =>
    exact toList_parenthesised [.word op.symbol] rfl
      (spaced_cons left.toList_text (spaced_cons right.toList_text rfl))
  | .grouping inner =>
    exact toList_parenthesised [.word "group"] rfl (spaced_cons inner.toList_text rfl)
  | .call callee arguments _ =>
    exact toList_parenthesised [.word "call"] rfl
      (spaced_cons callee.toList_text (Expr.spaced_texts arguments))
  | .get object name _ =>
    exact toList_parenthesised [.word ".", .word name]
      (by simp [spaced, Form.separated, Form.chars, toString]) (spaced_cons object.toList_text rfl)
  | .set object name value _ =>
    exact toList_parenthesised [.word ".=", .word name]
      (by simp [spaced, Form.separated, Form.chars, toString])
      (spaced_cons object.toList_text (spaced_cons value.toList_text rfl))
  | .super method _ _ =>
    simp [Expr.text, Expr.form, Form.chars, Form.separated, toString]

theorem Expr.spaced_texts (es : List Expr) :
    spaced ' ' (Expr.texts es) = Form.separated ' ' (Expr.forms es) := by
  match es with
  | [] => rfl
  | e :: rest => exact spaced_cons e.toList_text (Expr.spaced_texts rest)

end

mutual

/-- The text of a statement has the characters of its form. -/
theorem Stmt.toList_text (s : Stmt) : s.text.toList = s.form.chars := by
  match s with
  | .expression value =>
    exact toList_parenthesised [.word ";"] rfl (spaced_cons value.toList_text rfl)
  | .print value =>
    exact toList_parenthesised [.word "print"] rfl (spaced_cons value.toList_text rfl)
  | .declare name none => simp [Stmt.text, Stmt.form, Form.chars, Form.separated, toString]
  | .declare name (some value) =>
    exact toList_parenthesised [.word "var", .word name]
      (by simp [spaced, Form.separated, Form.chars, toString]) (spaced_cons value.toList_text rfl)
  | .block body => exact toList_parenthesised [.word "block"] rfl (Stmt.spaced_texts ' ' body)
  | .ifThen condition body =>
    exact toList_parenthesised [.word "if"] rfl
      (spaced_cons condition.toList_text (spaced_cons body.toList_text rfl))
  | .ifElse condition body alternative =>
    exact toList_parenthesised [.word "if-else"] rfl (spaced_cons condition.toList_text
      (spaced_cons body.toList_text (spaced_cons alternative.toList_text rfl)))
  | .loop condition body =>
    exact toList_parenthesised [.word "while"] rfl
      (spaced_cons condition.toList_text (spaced_cons body.toList_text rfl))
  | .function declaration => exact declaration.toList_text
  | .returning none => simp [Stmt.text, Stmt.form, Form.chars, Form.separated]
  | .returning (some value) =>
    exact toList_parenthesised [.word "return"] rfl (spaced_cons value.toList_text rfl)
  | .classDecl name none methods =>
    exact toList_parenthesised [.word "class", .word name]
      (by simp [spaced, Form.separated, Form.chars, toString]) (FunctionDecl.spaced_texts methods)
  | .classDecl name (some superclass) methods =>
    exact toList_parenthesised [.word "class", .word name, .word "<", .word superclass.name]
      (by simp [spaced, Form.separated, Form.chars, toString]) (FunctionDecl.spaced_texts methods)

theorem Stmt.spaced_texts (separator : Char) (body : List Stmt) :
    spaced separator (Stmt.texts body) = Form.separated separator (Stmt.forms body) := by
  match body with
  | [] => rfl
  | s :: rest => exact spaced_cons s.toList_text (Stmt.spaced_texts separator rest)

/-- The text of a function has the characters of its form. -/
theorem FunctionDecl.toList_text (f : FunctionDecl) : f.text.toList = f.form.chars := by
  match f with
  | .mk name params body _ =>
    -- the parameters belong to the head, right behind the name
    refine toList_parenthesised [.word "fun", .list name (params.map .word)] ?_
      (Stmt.spaced_texts ' ' body)
    have hparams : spaced ' ' params = Form.separated ' ' (params.map .word) := by
      induction params with
      | nil => rfl
      | cons param rest ih => exact spaced_cons rfl ih
    have hjoined := toList_intercalate ' ' params
    rw [hparams, show String.singleton ' ' = " " by decide] at hjoined
    simp [spaced, Form.separated, Form.chars, toString, hjoined]

theorem FunctionDecl.spaced_texts (fs : List FunctionDecl) :
    spaced ' ' (FunctionDecl.texts fs) = Form.separated ' ' (FunctionDecl.forms fs) := by
  match fs with
  | [] => rfl
  | f :: rest => exact spaced_cons f.toList_text (FunctionDecl.spaced_texts rest)

end

/-- The text of a program has the forms of its statements, one on a line. -/
theorem Program.toList_text (program : Program) :
    program.text.toList = Form.joined '\n' (Stmt.forms program) := by
  have hjoined := toList_intercalate '\n' (Stmt.texts program)
  rw [Stmt.spaced_texts, show String.singleton '\n' = "\n" by decide] at hjoined
  exact hjoined

end Treewalk
