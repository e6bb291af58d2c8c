import Treewalk.Proofs.Grammar.Vocabulary
import Treewalk.Proofs.Tree.Move
import Treewalk.Proofs.Tree.Reader

/-!
# The text of a tree determines the tree

A tree of a program has names that are identifiers, operators of the language, strings without
quotes and names that are not bound yet. If its numbers are finite too, then its form is read back
as the tree, and the form can be read off its characters in one way only. So programs with the same
text are the same, up to the places of their nodes.
-/

namespace Treewalk

/-! ### Trees that can be read back -/

section Printable

variable (m : Move) (place : Anchor)

/-- A constant that can be written in a program, and no infinity. -/
def Literal.Printable : Literal → Prop
  | .nil | .bool _ => True
  | .number value => value.isFinite = true
  | .string value => Text.doubleQuote ∉ value.toList

/-- Names are identifiers, constants can be written, and every node goes to a place. -/
abbrev Vocabulary.printable : Vocabulary :=
  ⟨IsIdentifier, Literal.Printable, fun anchor => m.anchor anchor = place, trivial⟩

variable {m place}

theorem Literal.expr?_form {value : Literal} (h : value.Printable) :
    value.form.expr? place = some (.literal value) := by
  cases value with
  | nil => rfl
  | bool value => cases value <;> rfl
  | number value => exact congrArg some (exprOfWord_display h)
  | string value => rfl

theorem Reference.Over.move_eq {reference : Reference} (h : reference.Over (.printable m place)) :
    reference.move m = ⟨reference.name, place, .global⟩ := by
  rw [Reference.move, h.anchor, h.binding]

/-- An operator is known by its symbol, which is the head of nothing else with as many parts. -/
theorem UnaryOp.ofSymbol_symbol {op : UnaryOp} (h : op = .negate ∨ op = .not) :
    UnaryOp.ofSymbol op.symbol = op ∧ op.symbol ∉ ["call", "super", "=", ".", ".="] ∧
      op.symbol ≠ "group" := by
  rcases h with rfl | rfl <;> decide

theorem BinaryOp.ofSymbol_symbol : ∀ op ∈ BinaryOp.known, BinaryOp.ofSymbol op.symbol = op ∧
    op.symbol ∉ ["call", "super", "=", ".", ".="] ∧ ¬ (op.symbol = "or" ∨ op.symbol = "and") := by
  decide

theorem LogicalOp.ofSymbol_symbol {op : LogicalOp} (h : op = .or ∨ op = .and) :
    LogicalOp.ofSymbol op.symbol = op ∧ op.symbol ∉ ["call", "super", "=", ".", ".="] ∧
      (op.symbol = "or" ∨ op.symbol = "and") := by
  rcases h with rfl | rfl <;> decide

mutual

/-- The form of an expression of a program is read as that expression, with its nodes moved. -/
theorem Expr.expr?_form (e : Expr) (h : e.Over (.printable m place)) :
    e.form.expr? place = some (e.move m) := by
  -- the parts are read by induction, and then the list that they stand in is read by its head
  match e with
  | .literal value => exact value.expr?_form h
  | .variable reference =>
    rw [Expr.form, Form.expr?, h.word.exprOfWord_eq, Expr.move, h.move_eq]
  | .assign target value =>
    obtain ⟨htarget, hvalue⟩ := h
    have hparts := Form.exprs_cons (value.expr?_form hvalue) Form.exprs_nil
    rw [Expr.form, Form.expr?_named (by decide) hparts, Expr.ofNamed?, if_pos rfl, Expr.move,
      htarget.move_eq]
  | .unary op operand _ =>
    obtain ⟨hop, hoperand, hanchor⟩ := h
    obtain ⟨hsymbol, hhead, hgroup⟩ := UnaryOp.ofSymbol_symbol hop
    have hparts := Form.exprs_cons (operand.expr?_form hoperand) Form.exprs_nil
    rw [Expr.form, Form.expr?_parts hhead hparts, Expr.ofParts?, if_neg hgroup, hsymbol, Expr.move,
      hanchor]
  | .binary op left right _ =>
    obtain ⟨hop, hleft, hright, hanchor⟩ := h
    obtain ⟨hsymbol, hhead, hlogical⟩ := BinaryOp.ofSymbol_symbol op hop
    have hparts := Form.exprs_cons (left.expr?_form hleft)
      (Form.exprs_cons (right.expr?_form hright) Form.exprs_nil)
    rw [Expr.form, Form.expr?_parts hhead hparts, Expr.ofParts?, if_neg hlogical, hsymbol,
      Expr.move, hanchor]
  | .logical op left right =>
    obtain ⟨hop, hleft, hright⟩ := h
    obtain ⟨hsymbol, hhead, hlogical⟩ := LogicalOp.ofSymbol_symbol hop
    have hparts := Form.exprs_cons (left.expr?_form hleft)
      (Form.exprs_cons (right.expr?_form hright) Form.exprs_nil)
    rw [Expr.form, Form.expr?_parts hhead hparts, Expr.ofParts?, if_pos hlogical, hsymbol,
      Expr.move]
  | .grouping inner =>
    have hparts := Form.exprs_cons (inner.expr?_form h) Form.exprs_nil
    rw [Expr.form, Form.expr?_parts (by decide) hparts, Expr.ofParts?, if_pos rfl, Expr.move]
  | .call callee arguments _ =>
    obtain ⟨hcallee, harguments, hanchor⟩ := h
    have hparts := Form.exprs_cons (callee.expr?_form hcallee)
      (Expr.exprs_forms arguments harguments)
    rw [Expr.form, Form.expr?_call hparts, Expr.move, hanchor]
    rfl
  | .get object name _ =>
    obtain ⟨hobject, _, hanchor⟩ := h
    have hparts := Form.exprs_cons (object.expr?_form hobject) Form.exprs_nil
    rw [Expr.form, Form.expr?_named (by decide) hparts, Expr.ofNamed?, if_neg (by decide),
      Expr.move, hanchor]
  | .set object name value _ =>
    obtain ⟨hobject, _, hvalue, hanchor⟩ := h
    have hparts := Form.exprs_cons (object.expr?_form hobject)
      (Form.exprs_cons (value.expr?_form hvalue) Form.exprs_nil)
    rw [Expr.form, Form.expr?_named (by decide) hparts, Expr.move, hanchor]
    rfl
  | .this _ _ =>
    obtain ⟨hanchor, hbinding⟩ := h
    rw [Expr.move, hanchor, hbinding]
    rfl
  | .super method _ _ =>
    obtain ⟨_, hanchor, hbinding⟩ := h
    rw [Expr.form, Form.expr?_named (by decide) Form.exprs_nil, Expr.move, hanchor, hbinding]
    rfl

theorem Expr.exprs_forms (es : List Expr) (h : Expr.AllOver (.printable m place) es) :
    Form.exprs place (Expr.forms es) = (Expr.moveAll m es).map some := by
  match es with
  | [] => rfl
  | e :: rest => exact Form.exprs_cons (e.expr?_form h.1) (Expr.exprs_forms rest h.2)

end

mutual

/-- The form of a statement of a program is read as that statement, with its nodes moved. -/
theorem Stmt.stmt?_form (s : Stmt) (h : s.Over (.printable m place)) :
    s.form.stmt? place = some (s.move m) := by
  match s with
  | .expression value =>
    have hvalues := Form.exprs_cons (value.expr?_form h) Form.exprs_nil
    rw [Stmt.form, Form.stmt?_values (by decide) hvalues, Stmt.ofValues?, if_pos rfl, Stmt.move]
  | .print value =>
    have hvalues := Form.exprs_cons (value.expr?_form h) Form.exprs_nil
    rw [Stmt.form, Form.stmt?_values (by decide) hvalues, Stmt.ofValues?, if_neg (by decide),
      if_pos rfl, Stmt.move]
  | .declare name none => exact Form.stmt?_var Form.exprs_nil
  | .declare name (some value) =>
    exact Form.stmt?_var (Form.exprs_cons (value.expr?_form (h.2 value rfl)) Form.exprs_nil)
  | .block body => exact Form.stmt?_block (Stmt.stmts_forms body h)
  | .ifThen condition body =>
    have hparts := Form.stmts_cons (body.stmt?_form h.2) Form.stmts_nil
    rw [Stmt.form, Form.stmt?_condition (by decide) (condition.expr?_form h.1) hparts,
      Stmt.ofCondition?, if_pos rfl, Stmt.move]
  | .ifElse condition body alternative =>
    have hparts := Form.stmts_cons (body.stmt?_form h.2.1)
      (Form.stmts_cons (alternative.stmt?_form h.2.2) Form.stmts_nil)
    exact Form.stmt?_condition (by decide) (condition.expr?_form h.1) hparts
  | .loop condition body =>
    have hparts := Form.stmts_cons (body.stmt?_form h.2) Form.stmts_nil
    rw [Stmt.form, Form.stmt?_condition (by decide) (condition.expr?_form h.1) hparts,
      Stmt.ofCondition?, if_neg (by decide), Stmt.move]
  | .function declaration => exact declaration.stmt?_form h
  | .returning none => exact Form.stmt?_values (by decide) Form.exprs_nil
  | .returning (some value) =>
    have hvalues := Form.exprs_cons (value.expr?_form (h value rfl)) Form.exprs_nil
    rw [Stmt.form, Form.stmt?_values (by decide) hvalues, Stmt.ofValues?, if_neg (by decide),
      if_neg (by decide)]
    rfl
  | .classDecl name none methods =>
    have hparts := FunctionDecl.stmts_forms methods h.2.2
    exact Form.stmt?_class hparts
  | .classDecl name (some superclass) methods =>
    have hparts := FunctionDecl.stmts_forms methods h.2.2
    rw [Stmt.move, Option.map_some, (h.2.1 superclass rfl).move_eq]
    exact Form.stmt?_subclass hparts

theorem Stmt.stmts_forms (body : List Stmt) (h : Stmt.AllOver (.printable m place) body) :
    Form.stmts place (Stmt.forms body) = (Stmt.moveAll m body).map some := by
  match body with
  | [] => rfl
  | s :: rest => exact Form.stmts_cons (s.stmt?_form h.1) (Stmt.stmts_forms rest h.2)

theorem FunctionDecl.stmt?_form (f : FunctionDecl) (h : f.Over (.printable m place)) :
    f.form.stmt? place = some (.function (f.move m)) := by
  match f with
  | .mk name params body _ =>
    obtain ⟨_, _, hbody, hanchor⟩ := h
    rw [FunctionDecl.form, Form.stmt?_function (Stmt.stmts_forms body hbody), FunctionDecl.move,
      hanchor]

theorem FunctionDecl.stmts_forms (fs : List FunctionDecl)
    (h : FunctionDecl.AllOver (.printable m place) fs) :
    Form.stmts place (FunctionDecl.forms fs) =
      ((FunctionDecl.moveAll m fs).map Stmt.function).map some := by
  match fs with
  | [] => rfl
  | f :: rest => exact Form.stmts_cons (f.stmt?_form h.1) (FunctionDecl.stmts_forms rest h.2)

end

/-! ### Texts that are the same -/

/-- The words with which trees are written, apart from names and numbers. -/
def fixedWords : List String :=
  ["nil", "true", "false", "this", "super", "=", "group", "call", ".", ".=", "or", "and", "!",
    "==", "!=", "+", "-", "*", "/", ">", ">=", "<", "<=", ";", "print", "var", "block", "if",
    "if-else", "while", "fun", "return", "class"]

theorem Form.proper_fixedWord {text : String} (h : text ∈ fixedWords) :
    (Form.word text).Proper := by
  have hall : fixedWords.all (fun text => !text.toList.isEmpty && text.toList.all isInner) =
    true := by decide
  have htext := List.all_eq_true.mp hall text h
  rw [Bool.and_eq_true, Bool.not_eq_true', List.isEmpty_eq_false_iff] at htext
  exact ⟨htext.1, List.all_eq_true.mp htext.2⟩

theorem Form.proper_list {head : String} {items : List Form} (hhead : head ∈ fixedWords)
    (hitems : AllProper items) : (Form.list "" (.word head :: items)).Proper :=
  ⟨by simp, proper_fixedWord hhead, hitems⟩

theorem Literal.proper_form {value : Literal} (h : value.Printable) : value.form.Proper := by
  cases value with
  | nil => exact Form.proper_fixedWord (by decide)
  | bool value => cases value <;> exact Form.proper_fixedWord (by decide)
  | number value => exact Number.proper_display h
  | string value => exact h

theorem BinaryOp.symbol_mem_fixedWords : ∀ op ∈ BinaryOp.known, op.symbol ∈ fixedWords := by
  decide

mutual

/-- The form of an expression of a program can be read in one way only. -/
theorem Expr.proper_form (e : Expr) (h : e.Over (.printable m place)) : e.form.Proper := by
  match e with
  | .literal value => exact value.proper_form h
  | .variable reference => exact h.word.proper
  | .assign target value =>
    exact Form.proper_list (by decide) ⟨h.1.word.proper, value.proper_form h.2, trivial⟩
  | .unary op operand _ =>
    refine Form.proper_list ?_ ⟨operand.proper_form h.2.1, trivial⟩
    rcases h.1 with rfl | rfl <;> decide
  | .binary op left right _ =>
    exact Form.proper_list (BinaryOp.symbol_mem_fixedWords op h.1)
      ⟨left.proper_form h.2.1, right.proper_form h.2.2.1, trivial⟩
  | .logical op left right =>
    refine Form.proper_list ?_ ⟨left.proper_form h.2.1, right.proper_form h.2.2, trivial⟩
    rcases h.1 with rfl | rfl <;> decide
  | .grouping inner => exact Form.proper_list (by decide) ⟨inner.proper_form h, trivial⟩
  | .call callee arguments _ =>
    exact Form.proper_list (by decide)
      ⟨callee.proper_form h.1, Expr.allProper_forms arguments h.2.1⟩
  | .get object name _ =>
    exact Form.proper_list (by decide) ⟨h.2.1.proper, object.proper_form h.1, trivial⟩
  | .set object name value _ =>
    exact Form.proper_list (by decide)
      ⟨h.2.1.proper, object.proper_form h.1, value.proper_form h.2.2.1, trivial⟩
  | .this _ _ => exact Form.proper_fixedWord (by decide)
  | .super method _ _ => exact Form.proper_list (by decide) ⟨h.1.proper, trivial⟩

theorem Expr.allProper_forms (es : List Expr) (h : Expr.AllOver (.printable m place) es) :
    Form.AllProper (Expr.forms es) := by
  match es with
  | [] => trivial
  | e :: rest => exact ⟨e.proper_form h.1, Expr.allProper_forms rest h.2⟩

end

mutual

/-- The form of a statement of a program can be read in one way only. -/
theorem Stmt.proper_form (s : Stmt) (h : s.Over (.printable m place)) : s.form.Proper := by
  match s with
  | .expression value | .print value =>
    exact Form.proper_list (by decide) ⟨value.proper_form h, trivial⟩
  | .declare name none => exact Form.proper_list (by decide) ⟨h.1.proper, trivial⟩
  | .declare name (some value) =>
    exact Form.proper_list (by decide) ⟨h.1.proper, value.proper_form (h.2 value rfl), trivial⟩
  | .block body => exact Form.proper_list (by decide) (Stmt.allProper_forms body h)
  | .ifThen condition body | .loop condition body =>
    exact Form.proper_list (by decide) ⟨condition.proper_form h.1, body.proper_form h.2, trivial⟩
  | .ifElse condition body alternative =>
    exact Form.proper_list (by decide) ⟨condition.proper_form h.1, body.proper_form h.2.1,
      alternative.proper_form h.2.2, trivial⟩
  | .function declaration => exact declaration.proper_form h
  | .returning none => exact Form.proper_list (by decide) trivial
  | .returning (some value) =>
    exact Form.proper_list (by decide) ⟨value.proper_form (h value rfl), trivial⟩
  | .classDecl name none methods =>
    exact Form.proper_list (by decide) ⟨h.1.proper, FunctionDecl.allProper_forms methods h.2.2⟩
  | .classDecl name (some superclass) methods =>
    exact Form.proper_list (by decide) ⟨h.1.proper, Form.proper_fixedWord (by decide),
      (h.2.1 superclass rfl).word.proper, FunctionDecl.allProper_forms methods h.2.2⟩

theorem Stmt.allProper_forms (body : List Stmt) (h : Stmt.AllOver (.printable m place) body) :
    Form.AllProper (Stmt.forms body) := by
  match body with
  | [] => trivial
  | s :: rest => exact ⟨s.proper_form h.1, Stmt.allProper_forms rest h.2⟩

theorem FunctionDecl.proper_form (f : FunctionDecl) (h : f.Over (.printable m place)) :
    f.form.Proper := by
  match f with
  | .mk name params body _ =>
    obtain ⟨hname, hparams, hbody, _⟩ := h
    -- the name leads the list of the parameters, so it need not be a form of its own
    have hlist : Form.AllProper (params.map .word) := by
      clear hbody
      induction params with
      | nil => trivial
      | cons param rest ih =>
        exact ⟨(hparams param List.mem_cons_self).proper, ih fun p hp => hparams p (.tail _ hp)⟩
    exact Form.proper_list (by decide)
      ⟨⟨hname.proper.2, hlist⟩, Stmt.allProper_forms body hbody⟩

theorem FunctionDecl.allProper_forms (fs : List FunctionDecl)
    (h : FunctionDecl.AllOver (.printable m place) fs) :
    Form.AllProper (FunctionDecl.forms fs) := by
  match fs with
  | [] => trivial
  | f :: rest => exact ⟨f.proper_form h.1, FunctionDecl.allProper_forms rest h.2⟩

end

/-- Programs with the same text are the same, once their nodes are moved to one place. -/
theorem Program.move_eq_of_text_eq {program program' : Program}
    (h : Stmt.AllOver (.printable m place) program)
    (h' : Stmt.AllOver (.printable m place) program')
    (htext : program.text = program'.text) : program.move m = program'.move m := by
  -- the characters determine the forms, and reading the forms gives the trees
  have hforms : Stmt.forms program = Stmt.forms program' := by
    refine Form.eq_of_joined_eq (.inr rfl) (Stmt.allProper_forms program h)
      (Stmt.allProper_forms program' h') ?_
    rw [← Program.toList_text, htext, Program.toList_text]
  have hread := Stmt.stmts_forms program h
  rw [hforms, Stmt.stmts_forms program' h'] at hread
  exact (List.map_injective_iff.mpr (fun _ _ => Option.some.inj) hread).symm

end Printable

end Treewalk
