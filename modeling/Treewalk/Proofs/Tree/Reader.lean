import Treewalk.Proofs.Number.ReadBack
import Treewalk.Proofs.Tree.Texts

/-!
# Reading forms

A form is read as an expression or a statement. A word is a number, a constant, `this`, or else a
variable. A list is read by its head and the number of its parts: heads such as `=` and `.` have a
name behind them, `-` is an operator with one or two operands, and a class has a superclass if two
more words stand behind its name. The nodes of the tree that is read all stand at one place.
-/

namespace Treewalk

/-! ### Names and numbers -/

/-- A name that an identifier can have. -/
def IsIdentifier (name : String) : Prop := Spells (.token .identifier) name.toList

theorem IsIdentifier.exists_toList {name : String} (h : IsIdentifier name) :
    ∃ first rest, name.toList = first :: rest ∧ isWordStart first = true ∧
      (∀ c ∈ rest, isWordPart c = true) ∧ ∀ word : Keyword, name ≠ word.word := by
  unfold IsIdentifier at h
  generalize hchars : name.toList = chars at h
  cases h with
  | symbol h => exact absurd h (by simp [symbols])
  | identifier hfirst hrest hfree =>
    refine ⟨_, _, rfl, hfirst, hrest, ?_⟩
    rintro word rfl
    exact hfree word hchars

theorem isInner_of_isWordPart {c : Char} (h : isWordPart c = true) : Form.isInner c = true := by
  have hnone : Form.punctuation.all (fun d => !isWordPart d) = true := by decide
  rw [Form.isInner, Bool.not_eq_true', List.contains_eq_mem, decide_eq_false_iff_not]
  intro hc
  have hfalse := List.all_eq_true.mp hnone c hc
  simp [h] at hfalse

theorem IsIdentifier.proper {name : String} (h : IsIdentifier name) :
    (Form.word name).Proper := by
  obtain ⟨first, rest, hchars, hfirst, hrest, _⟩ := h.exists_toList
  have hpart : isWordPart first = true := by rw [isWordPart, hfirst, Bool.true_or]
  refine ⟨hchars ▸ List.cons_ne_nil _ _, ?_⟩
  rw [hchars, List.forall_mem_cons]
  exact ⟨isInner_of_isWordPart hpart, fun c hc => isInner_of_isWordPart (hrest c hc)⟩

/-- An identifier is no numeral. -/
theorem IsIdentifier.readNumeral?_eq_none {name : String} (h : IsIdentifier name) :
    Number.readNumeral? name.toList = none := by
  obtain ⟨first, rest, hchars, hfirst, _, _⟩ := h.exists_toList
  have hminus : first ≠ '-' := by
    rintro rfl
    exact absurd hfirst (by decide)
  have hdigit : ¬ isDigit first = true := by simp [isDigit_of_isWordStart hfirst]
  rw [hchars]
  unfold Number.readNumeral?
  split
  · rename_i heq
    exact absurd (List.cons.inj heq).1 hminus
  · rw [Number.readMagnitude?, List.takeWhile_cons_of_neg hdigit, if_pos rfl]
    rfl

namespace Number

/-- The number with a sign that is nearest to a decimal. -/
def signed (negative : Bool) (d : Decimal) : Float :=
  Float.ofBits ((if negative then Nat.pow 2 63 else 0) + d.toBits).toUInt64

/-- A numeral has no characters but digits, a point, and the mark and sign of an exponent. -/
theorem Numeral.mem_text {n : Numeral} {c : Char} (h : c ∈ n.text) :
    isDigit c = true ∨ c ∈ ['.', 'e', '+', '-'] := by
  have htail : ∀ c ∈ n.tail, isDigit c = true ∨ c ∈ ['.', 'e', '+', '-'] := by
    have hread := n.readExponent?_tail
    unfold readExponent? at hread
    split at hread
    · simp [*]
    · split at hread
      · simp_all
      · cases hread
    · split at hread
      · simp_all
      · cases hread
    · cases hread
  have hpointed : ∀ c ∈ pointed n.fraction, isDigit c = true ∨ c ∈ ['.', 'e', '+', '-'] := by
    by_cases hfraction : n.fraction = []
    · rw [hfraction]
      exact fun c hc => absurd hc List.not_mem_nil
    · rw [pointed_of_ne_nil hfraction, List.forall_mem_cons]
      exact ⟨.inr (by decide), fun c hc => .inl (n.isDigit_fraction c hc)⟩
  rcases List.mem_append.mp h with hwhole | hrest
  · exact .inl (n.isDigit_whole c hwhole)
  · exact (List.mem_append.mp hrest).elim (hpointed c) (htail c)

theorem proper_display {x : Float} (h : x.isFinite = true) : (Form.word (display x)).Proper := by
  obtain ⟨negative, n, htext, _⟩ := exists_numeral_display h
  have hinner : ∀ c ∈ n.text, Form.isInner c = true := by
    intro c hc
    rcases n.mem_text hc with hdigit | hmark
    · exact isInner_of_isWordPart (by rw [isWordPart, hdigit, Bool.or_true])
    · have hall : ['.', 'e', '+', '-'].all Form.isInner = true := by decide
      exact List.all_eq_true.mp hall c hmark
  have hsign : ∀ c ∈ signText negative, Form.isInner c = true := by
    cases negative with
    | true => simp [signText, Form.isInner, Form.punctuation, Text.doubleQuote]
    | false => simp [signText]
  rw [Form.Proper, htext]
  refine ⟨List.append_ne_nil_of_right_ne_nil _
    (List.append_ne_nil_of_left_ne_nil n.whole_ne_nil _), fun c hc => ?_⟩
  exact (List.mem_append.mp hc).elim (hsign c) (hinner c)

theorem signed_of_display {x : Float} (h : x.isFinite = true) :
    ∃ negative d, readNumeral? (display x).toList = some (negative, d) ∧ signed negative d = x := by
  obtain ⟨negative, n, htext, hbits⟩ := exists_numeral_display h
  refine ⟨negative, n.decimal, htext ▸ readNumeral?_signText negative n, ?_⟩
  rw [signed, ← hbits, Nat.toUInt64, UInt64.ofNat_toNat]
  exact Float.ofBits_toBits x

end Number

/-! ### Reading forms -/

section Reading

variable (place : Anchor)

/-- The expression that a word stands for. -/
def exprOfWord (text : String) : Expr :=
  match Number.readNumeral? text.toList with
  | some (negative, decimal) => .literal (.number (Number.signed negative decimal))
  | none =>
    -- constants and `this` are keywords, so they take no word away from variables
    if text = "nil" then .literal .nil
    else if text = "true" then .literal (.bool true)
    else if text = "false" then .literal (.bool false)
    else if text = "this" then .this place .global
    else .variable ⟨text, place, .global⟩

/-- The name that a word is. -/
def Form.name? : Form → Option String
  | .word text => some text
  | _ => none

/-- The expression with a head that names something, and parts. -/
def Expr.ofNamed? (head name : String) : List Expr → Option Expr
  | [] => some (.super name place .global)
  | [part] =>
    if head = "=" then some (.assign ⟨name, place, .global⟩ part) else some (.get part name place)
  | [object, value] => some (.set object name value place)
  | _ => none

/-- The expression with any other head, and parts. -/
def Expr.ofParts? (head : String) : List Expr → Option Expr
  | [operand] =>
    if head = "group" then some (.grouping operand)
    else some (.unary (.ofSymbol head) operand place)
  | [left, right] =>
    if head = "or" ∨ head = "and" then some (.logical (.ofSymbol head) left right)
    else some (.binary (.ofSymbol head) left right place)
  | _ => none

/-- The call of the first of some expressions with the others. -/
def Expr.ofCall? : List Expr → Option Expr
  | [] => none
  | callee :: arguments => some (.call callee arguments place)

/-- The expression of a list with a head, given its other items and the expressions that they stand
for. -/
def exprOfList? (head : String) (items : List Form) (parts : List (Option Expr)) : Option Expr :=
  if head = "call" then (parts.mapM id).bind (Expr.ofCall? place)
  -- the first item of these is a name, whatever expression it would stand for
  else if head ∈ ["super", "=", ".", ".="] then
    (items.head?.bind Form.name?).bind fun name =>
      ((parts.drop 1).mapM id).bind (Expr.ofNamed? place head name)
  else (parts.mapM id).bind (Expr.ofParts? place head)

mutual

/-- The expression that a form stands for. -/
def Form.expr? : Form → Option Expr
  | .word text => some (exprOfWord place text)
  | .quoted text => some (.literal (.string text))
  | .list _ (.word head :: items) => exprOfList? place head items (Form.exprs items)
  | .list _ _ => none

/-- The expressions that forms stand for. -/
def Form.exprs : List Form → List (Option Expr)
  | [] => []
  | f :: rest => f.expr? :: Form.exprs rest

end

/-- The statement with a head and values. -/
def Stmt.ofValues? (head : String) : List Expr → Option Stmt
  | [] => some (.returning none)
  | [value] =>
    if head = ";" then some (.expression value)
    else if head = "print" then some (.print value)
    else some (.returning (some value))
  | _ => none

/-- The statement with a head, a condition and parts. -/
def Stmt.ofCondition? (head : String) (condition : Expr) : List Stmt → Option Stmt
  | [body] => if head = "if" then some (.ifThen condition body) else some (.loop condition body)
  | [body, alternative] => some (.ifElse condition body alternative)
  | _ => none

/-- The declaration of a function, given the forms behind its head. -/
def Stmt.ofFunction? (items : List Form) (body : List Stmt) : Option Stmt :=
  match items with
  | .list name params :: _ =>
    (params.mapM Form.name?).map fun params => .function (.mk name params body place)
  | _ => none

/-- The function that a statement declares. -/
def Stmt.declared? : Stmt → Option FunctionDecl
  | .function declaration => some declaration
  | _ => none

/-- The functions that statements declare. -/
def methods? (parts : List (Option Stmt)) : Option (List FunctionDecl) :=
  parts.mapM fun part => part.bind Stmt.declared?

/-- The declaration of a class, given the forms behind its head and the statements that they stand
for. A superclass stands behind two more words. -/
def Stmt.ofClass? (items : List Form) (parts : List (Option Stmt)) : Option Stmt :=
  match items with
  | .word name :: .word _ :: .word parent :: _ =>
    (methods? (parts.drop 3)).map (.classDecl name (some ⟨parent, place, .global⟩))
  | .word name :: _ => (methods? (parts.drop 1)).map (.classDecl name none)
  | _ => none

/-- The statement of a list with a head, given its other items and the expressions and statements
that they stand for. -/
def stmtOfList? (head : String) (items : List Form) (values : List (Option Expr))
    (parts : List (Option Stmt)) : Option Stmt :=
  if head ∈ [";", "print", "return"] then (values.mapM id).bind (Stmt.ofValues? head)
  else if head = "var" then
    (items.head?.bind Form.name?).bind fun name =>
      ((values.drop 1).mapM id).map fun values => .declare name values.head?
  else if head = "block" then (parts.mapM id).map .block
  else if head = "fun" then ((parts.drop 1).mapM id).bind (Stmt.ofFunction? place items)
  else if head = "class" then Stmt.ofClass? place items parts
  else
    -- a condition is an expression, and what depends on it are statements
    (values.head?.bind id).bind fun condition =>
      ((parts.drop 1).mapM id).bind (Stmt.ofCondition? head condition)

mutual

/-- The statement that a form stands for. -/
def Form.stmt? : Form → Option Stmt
  | .list _ (.word head :: items) =>
    stmtOfList? place head items (Form.exprs place items) (Form.stmts items)
  | _ => none

/-- The statements that forms stand for. -/
def Form.stmts : List Form → List (Option Stmt)
  | [] => []
  | f :: rest => f.stmt? :: Form.stmts rest

end

variable {place}

/-- What was put in everywhere is taken out everywhere. -/
theorem mapM_map {α β : Type} (take : β → Option α) (put : α → β)
    (h : ∀ value, take (put value) = some value) (values : List α) :
    (values.map put).mapM take = some values := by
  induction values with
  | nil => rfl
  | cons value rest ih => simp [h, ih]

theorem mapM_map_some {α : Type} (values : List α) : (values.map some).mapM id = some values :=
  mapM_map id some (fun _ => rfl) values

theorem exprOfWord_display {x : Float} (h : x.isFinite = true) :
    exprOfWord place (Number.display x) = .literal (.number x) := by
  obtain ⟨negative, d, hread, hvalue⟩ := Number.signed_of_display h
  simp only [exprOfWord, hread, hvalue]

theorem IsIdentifier.exprOfWord_eq {name : String} (h : IsIdentifier name) :
    exprOfWord place name = .variable ⟨name, place, .global⟩ := by
  obtain ⟨_, _, _, _, _, hfree⟩ := h.exists_toList
  have hnil : name ≠ "nil" := hfree .kwNil
  have htrue : name ≠ "true" := hfree .kwTrue
  have hfalse : name ≠ "false" := hfree .kwFalse
  have hthis : name ≠ "this" := hfree .kwThis
  simp only [exprOfWord, h.readNumeral?_eq_none, if_neg hnil, if_neg htrue, if_neg hfalse,
    if_neg hthis]

namespace Form

variable {head name : String} {f : Form} {fs : List Form} {e : Expr} {es : List Expr} {s : Stmt}
  {body : List Stmt}

theorem exprs_nil : exprs place [] = ([] : List Expr).map some := rfl

theorem exprs_cons (h : f.expr? place = some e) (hrest : exprs place fs = es.map some) :
    exprs place (f :: fs) = (e :: es).map some := by
  rw [exprs, h, hrest, List.map_cons]

theorem stmts_nil : stmts place [] = ([] : List Stmt).map some := rfl

theorem stmts_cons (h : f.stmt? place = some s) (hrest : stmts place fs = body.map some) :
    stmts place (f :: fs) = (s :: body).map some := by
  rw [stmts, h, hrest, List.map_cons]

theorem expr?_call (h : exprs place fs = es.map some) :
    (list "" (.word "call" :: fs)).expr? place = Expr.ofCall? place es := by
  rw [expr?, exprOfList?, if_pos rfl, h, mapM_map_some, Option.bind_some]

theorem expr?_named (hhead : head ∈ ["super", "=", ".", ".="])
    (h : exprs place fs = es.map some) :
    (list "" (.word head :: .word name :: fs)).expr? place = Expr.ofNamed? place head name es := by
  have hcall : head ≠ "call" := by
    rintro rfl
    exact absurd hhead (by decide)
  have hparts : (exprs place (.word name :: fs)).drop 1 = es.map some := h
  rw [expr?, exprOfList?, if_neg hcall, if_pos hhead, hparts, mapM_map_some]
  rfl

theorem expr?_parts (hhead : head ∉ ["call", "super", "=", ".", ".="])
    (h : exprs place fs = es.map some) :
    (list "" (.word head :: fs)).expr? place = Expr.ofParts? place head es := by
  rw [List.mem_cons, not_or] at hhead
  rw [expr?, exprOfList?, if_neg hhead.1, if_neg hhead.2, h, mapM_map_some, Option.bind_some]

theorem stmt?_values (hhead : head ∈ [";", "print", "return"])
    (h : exprs place fs = es.map some) :
    (list "" (.word head :: fs)).stmt? place = Stmt.ofValues? head es := by
  rw [stmt?, stmtOfList?, if_pos hhead, h, mapM_map_some, Option.bind_some]

theorem stmt?_var (h : exprs place fs = es.map some) :
    (list "" (.word "var" :: .word name :: fs)).stmt? place =
      some (.declare name es.head?) := by
  have hvalues : (exprs place (.word name :: fs)).drop 1 = es.map some := h
  rw [stmt?, stmtOfList?, if_neg (by decide), if_pos rfl, hvalues, mapM_map_some]
  rfl

theorem stmt?_block (h : stmts place fs = body.map some) :
    (list "" (.word "block" :: fs)).stmt? place = some (.block body) := by
  rw [stmt?, stmtOfList?, if_neg (by decide), if_neg (by decide), if_pos rfl, h, mapM_map_some]
  rfl

theorem stmt?_function {params : List String} (h : stmts place fs = body.map some) :
    (list "" (.word "fun" :: .list name (params.map .word) :: fs)).stmt? place =
      some (.function (.mk name params body place)) := by
  have hparts : (stmts place (.list name (params.map .word) :: fs)).drop 1 = body.map some := h
  have hnames : (params.map Form.word).mapM name? = some params :=
    mapM_map name? word (fun _ => rfl) params
  rw [stmt?, stmtOfList?, if_neg (by decide), if_neg (by decide), if_neg (by decide), if_pos rfl,
    hparts, mapM_map_some, Option.bind_some, Stmt.ofFunction?, hnames]
  rfl

theorem stmt?_condition (hhead : head ∈ ["if", "if-else", "while"])
    (hcondition : f.expr? place = some e) (h : stmts place fs = body.map some) :
    (list "" (.word head :: f :: fs)).stmt? place = Stmt.ofCondition? head e body := by
  have hparts : (stmts place (f :: fs)).drop 1 = body.map some := h
  have hfirst : (exprs place (f :: fs)).head? = some (some e) := by
    rw [exprs, hcondition, List.head?_cons]
  have hother : ∀ other ∈ [";", "print", "return", "var", "block", "fun", "class"],
      head ≠ other := by
    rintro other hother rfl
    simp only [List.mem_cons, List.not_mem_nil, or_false] at hhead
    rcases hhead with rfl | rfl | rfl <;> exact absurd hother (by decide)
  have hvalues : head ∉ [";", "print", "return"] := by
    intro hmem
    exact hother head (List.mem_append_left _ hmem) rfl
  rw [stmt?, stmtOfList?, if_neg hvalues, if_neg (hother "var" (by decide)),
    if_neg (hother "block" (by decide)), if_neg (hother "fun" (by decide)),
    if_neg (hother "class" (by decide)), hfirst, hparts, mapM_map_some]
  rfl

theorem methods?_map_function (fs : List FunctionDecl) :
    methods? ((fs.map Stmt.function).map some) = some fs := by
  rw [methods?, List.map_map]
  exact mapM_map (fun part => part.bind Stmt.declared?) (some ∘ Stmt.function) (fun _ => rfl) fs

theorem stmt?_class {methods fs : List FunctionDecl}
    (h : stmts place (FunctionDecl.forms methods) = (fs.map Stmt.function).map some) :
    (list "" (.word "class" :: .word name :: FunctionDecl.forms methods)).stmt? place =
      some (.classDecl name none fs) := by
  have hparts : (stmts place (.word name :: FunctionDecl.forms methods)).drop 1 =
    (fs.map Stmt.function).map some := h
  rw [stmt?, stmtOfList?, if_neg (by decide), if_neg (by decide), if_neg (by decide),
    if_neg (by decide), if_pos rfl, Stmt.ofClass?]
  -- what stands behind the name is the list of a method, or nothing
  · rw [hparts, methods?_map_function]
    rfl
  · cases methods with
    | nil => simp [FunctionDecl.forms]
    | cons f rest =>
      cases f
      simp [FunctionDecl.forms, FunctionDecl.form]

theorem stmt?_subclass {parent : String} {methods : List FunctionDecl}
    (h : stmts place fs = (methods.map Stmt.function).map some) :
    (list "" (.word "class" :: .word name :: .word "<" :: .word parent :: fs)).stmt? place =
      some (.classDecl name (some ⟨parent, place, .global⟩) methods) := by
  have hparts : (stmts place (.word name :: .word "<" :: .word parent :: fs)).drop 3 =
    (methods.map Stmt.function).map some := h
  rw [stmt?, stmtOfList?, if_neg (by decide), if_neg (by decide), if_neg (by decide),
    if_neg (by decide), if_pos rfl, Stmt.ofClass?, hparts, methods?_map_function]
  rfl

end Form

end Reading

end Treewalk
