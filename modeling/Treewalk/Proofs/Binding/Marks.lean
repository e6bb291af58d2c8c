import Treewalk.Proofs.Tree.Move

/-!
# Marks of scoping

What matters for scoping is where local scopes open and close, where names are declared and where
they are used. The marks of a tree list this in the order of the text. A variable is declared after
its initializer, a function or class before its body. The scope of a function has its parameters
throughout, and the scopes around the methods of a class have `this` and, if there is a superclass,
`super`. An assigned value comes before the target.

Binding reads these marks in turn. It keeps the names declared in the scopes that are open, binds
each use in them, and changes nothing else.
-/

namespace Treewalk

/-- A use of a name, with its binding. An access through `super` goes by the name of the method. -/
structure NameUse where
  kind : UseKind
  name : String
  anchor : Anchor
  binding : Binding
deriving DecidableEq

namespace NameUse

/-- The name that is looked up. -/
def sought (use : NameUse) : String :=
  match use.kind with
  | .superclass => "super"
  | .read | .write | .receiver => use.name

/-- The use, bound in the scopes around it. -/
def bindName (scopes : StaticScopes) (use : NameUse) : NameUse :=
  { use with binding := scopes.binding use.sought }

end NameUse

/-- The use of a name by a reference. -/
def Reference.nameUse (kind : UseKind) (reference : Reference) : NameUse :=
  ⟨kind, reference.name, reference.anchor, reference.binding⟩

/-- What matters for scoping: a local scope opens that has some names throughout, a local scope
closes, a name is declared, or a name is used. -/
inductive ScopeMark where
  | opens (names : List String)
  | closes
  | declares (name : String)
  | uses (use : NameUse)
deriving DecidableEq

/-! ### Marks of trees -/

mutual

/-- The marks of an expression. -/
def Expr.marks : Expr → List ScopeMark
  | .literal _ => []
  | .variable reference => [.uses (reference.nameUse .read)]
  | .assign target value => value.marks ++ [.uses (target.nameUse .write)]
  | .unary _ operand _ => operand.marks
  | .binary _ left right _ => left.marks ++ right.marks
  | .logical _ left right => left.marks ++ right.marks
  | .grouping inner => inner.marks
  | .call callee arguments _ => callee.marks ++ Expr.marksAll arguments
  | .get object _ _ => object.marks
  | .set object _ value _ => object.marks ++ value.marks
  | .this anchor binding => [.uses ⟨.receiver, "this", anchor, binding⟩]
  | .super method anchor binding => [.uses ⟨.superclass, method, anchor, binding⟩]

/-- The marks of expressions in turn. -/
def Expr.marksAll : List Expr → List ScopeMark
  | [] => []
  | e :: rest => e.marks ++ Expr.marksAll rest

end

/-- The marks of a local scope, given those inside it. -/
def scopeMarks (names : List String) (inside : List ScopeMark) : List ScopeMark :=
  .opens names :: (inside ++ [.closes])

mutual

/-- The marks of a statement. -/
def Stmt.marks : Stmt → List ScopeMark
  | .expression value => value.marks
  | .print value => value.marks
  | .declare name none => [.declares name]
  | .declare name (some value) => value.marks ++ [.declares name]
  | .block body => scopeMarks [] (Stmt.marksAll body)
  | .ifThen condition body => condition.marks ++ body.marks
  | .ifElse condition body alternative => condition.marks ++ (body.marks ++ alternative.marks)
  | .loop condition body => condition.marks ++ body.marks
  | .function declaration => [.declares declaration.name] ++ declaration.marks
  | .returning none => []
  | .returning (some value) => value.marks
  | .classDecl name none methods =>
    [.declares name] ++ scopeMarks ["this"] (FunctionDecl.marksAll methods)
  | .classDecl name (some superclass) methods =>
    [.declares name] ++ ([.uses (superclass.nameUse .read)] ++
      scopeMarks ["super"] (scopeMarks ["this"] (FunctionDecl.marksAll methods)))

/-- The marks of statements in turn. -/
def Stmt.marksAll : List Stmt → List ScopeMark
  | [] => []
  | s :: rest => s.marks ++ Stmt.marksAll rest

/-- The marks of a function, but for its name. -/
def FunctionDecl.marks : FunctionDecl → List ScopeMark
  | .mk _ params body _ => scopeMarks params (Stmt.marksAll body)

/-- The marks of functions in turn. -/
def FunctionDecl.marksAll : List FunctionDecl → List ScopeMark
  | [] => []
  | f :: rest => f.marks ++ FunctionDecl.marksAll rest

end

/-- The marks of a program. -/
def Program.marks (program : Program) : List ScopeMark := Stmt.marksAll program

/-! ### Reading marks -/

/-- A mark, bound in the scopes around it if it is a use. -/
def ScopeMark.bindName (scopes : StaticScopes) : ScopeMark → ScopeMark
  | .uses use => .uses (use.bindName scopes)
  | .opens names => .opens names
  | .closes => .closes
  | .declares name => .declares name

namespace StaticScopes

/-- The scopes after a mark. -/
def read (scopes : StaticScopes) : ScopeMark → StaticScopes
  | .opens names => names :: scopes
  | .closes => scopes.tail
  | .declares name => scopes.declare name
  | .uses _ => scopes

/-- Marks, each bound in the scopes around it. -/
def bindMarks (scopes : StaticScopes) : List ScopeMark → List ScopeMark
  | [] => []
  | mark :: rest => mark.bindName scopes :: bindMarks (scopes.read mark) rest

/-- What reading marks does: it binds their uses, and leaves some scopes. -/
structure Reads (scopes : StaticScopes) (marks bound : List ScopeMark) (after : StaticScopes) :
    Prop where
  bound : scopes.bindMarks marks = bound
  after : marks.foldl read scopes = after

namespace Reads

variable {scopes middle after : StaticScopes} {marks marks' bound bound' : List ScopeMark}

theorem nil (scopes : StaticScopes) : scopes.Reads [] [] scopes := ⟨rfl, rfl⟩

theorem single (scopes : StaticScopes) (mark : ScopeMark) :
    scopes.Reads [mark] [mark.bindName scopes] (scopes.read mark) := ⟨rfl, rfl⟩

theorem append (h : scopes.Reads marks bound middle) (h' : middle.Reads marks' bound' after) :
    scopes.Reads (marks ++ marks') (bound ++ bound') after := by
  induction marks generalizing scopes bound with
  | nil =>
    obtain ⟨rfl, rfl⟩ := h
    exact h'
  | cons mark marks ih =>
    obtain ⟨rfl, hafter⟩ := h
    obtain ⟨hbound', hafter'⟩ := ih ⟨rfl, hafter⟩
    exact ⟨congrArg (mark.bindName scopes :: ·) hbound', hafter'⟩

/-- What is declared inside a local scope is forgotten after it. -/
theorem scope {names : List String} {after : StaticScopes}
    (h : StaticScopes.Reads (names :: scopes) marks bound after) (hafter : after.tail = scopes) :
    scopes.Reads (scopeMarks names marks) (scopeMarks names bound) scopes := by
  have hclosed := h.append (.single after .closes)
  have hopened := (single scopes (.opens names)).append hclosed
  rwa [read, hafter] at hopened

end Reads

end StaticScopes

/-! ### Binding reads marks -/

mutual

/-- Binding an expression is reading its marks. -/
theorem Expr.reads (scopes : StaticScopes) (e : Expr) :
    scopes.Reads e.marks (e.bindNames scopes).marks scopes := by
  match e with
  | .literal _ => exact .nil scopes
  | .variable _ | .this _ _ | .super _ _ _ => exact .single scopes (.uses _)
  | .assign target value => exact (value.reads scopes).append (.single scopes (.uses _))
  | .unary _ operand _ => exact operand.reads scopes
  | .binary _ left right _ | .logical _ left right =>
    exact (left.reads scopes).append (right.reads scopes)
  | .grouping inner => exact inner.reads scopes
  | .call callee arguments _ =>
    exact (callee.reads scopes).append (Expr.readsAll scopes arguments)
  | .get object _ _ => exact object.reads scopes
  | .set object _ value _ => exact (object.reads scopes).append (value.reads scopes)

theorem Expr.readsAll (scopes : StaticScopes) (es : List Expr) :
    scopes.Reads (Expr.marksAll es) (Expr.marksAll (Expr.bindAll scopes es)) scopes := by
  match es with
  | [] => exact .nil scopes
  | e :: rest => exact (e.reads scopes).append (Expr.readsAll scopes rest)

end

theorem StaticScopes.tail_declare (scopes : StaticScopes) (name : String) :
    (scopes.declare name).tail = scopes.tail := by
  cases scopes <;> rfl

/-- A statement declares names in the innermost scope only. -/
theorem Stmt.tail_bindNames (scopes : StaticScopes) (s : Stmt) :
    (s.bindNames scopes).2.tail = scopes.tail := by
  match s with
  | .declare name _ | .classDecl name _ _ => exact scopes.tail_declare name
  | .function declaration => exact scopes.tail_declare declaration.name
  | .ifThen _ body | .loop _ body => exact body.tail_bindNames scopes
  | .ifElse _ body alternative =>
    exact (alternative.tail_bindNames _).trans (body.tail_bindNames scopes)
  | .expression _ | .print _ | .block _ | .returning _ => rfl

mutual

/-- Binding a statement is reading its marks. -/
theorem Stmt.reads (scopes : StaticScopes) (s : Stmt) :
    scopes.Reads s.marks (s.bindNames scopes).1.marks (s.bindNames scopes).2 := by
  match s with
  | .expression value | .print value | .returning (some value) => exact value.reads scopes
  | .returning none => exact .nil scopes
  | .declare name none => exact .single scopes (.declares name)
  | .declare name (some value) =>
    exact (value.reads scopes).append (.single scopes (.declares name))
  | .block body =>
    obtain ⟨after, hbody, hafter⟩ := Stmt.readsAll ([] :: scopes) body
    exact hbody.scope hafter
  | .ifThen condition body | .loop condition body =>
    exact (condition.reads scopes).append (body.reads scopes)
  | .ifElse condition body alternative =>
    exact (condition.reads scopes).append ((body.reads scopes).append (alternative.reads _))
  | .function declaration =>
    obtain ⟨name, params, body, anchor⟩ := declaration
    have hbody := FunctionDecl.reads (scopes.declare name) (.mk name params body anchor)
    exact (StaticScopes.Reads.single scopes (.declares name)).append hbody
  | .classDecl name none methods =>
    have hmethods := FunctionDecl.readsAll (["this"] :: scopes.declare name) methods
    exact (StaticScopes.Reads.single scopes (.declares name)).append (hmethods.scope rfl)
  | .classDecl name (some superclass) methods =>
    have hmethods := FunctionDecl.readsAll (["this"] :: ["super"] :: scopes.declare name) methods
    have hscopes : (scopes.declare name).Reads (scopeMarks ["super"] _) (scopeMarks ["super"] _)
        _ := (hmethods.scope rfl).scope rfl
    have huse := StaticScopes.Reads.single (scopes.declare name) (.uses (superclass.nameUse .read))
    exact (StaticScopes.Reads.single scopes (.declares name)).append (huse.append hscopes)

/-- Binding statements in turn is reading their marks. They declare names in the innermost scope
only. -/
theorem Stmt.readsAll (scopes : StaticScopes) (body : List Stmt) :
    ∃ after, scopes.Reads (Stmt.marksAll body) (Stmt.marksAll (Stmt.bindAll scopes body)) after ∧
      after.tail = scopes.tail := by
  match body with
  | [] => exact ⟨scopes, .nil scopes, rfl⟩
  | s :: rest =>
    obtain ⟨after, hrest, hafter⟩ := Stmt.readsAll (s.bindNames scopes).2 rest
    exact ⟨after, (s.reads scopes).append hrest, hafter.trans (s.tail_bindNames scopes)⟩

theorem FunctionDecl.reads (scopes : StaticScopes) (f : FunctionDecl) :
    scopes.Reads f.marks (f.bindNames scopes).marks scopes := by
  match f with
  | .mk name params body anchor =>
    obtain ⟨after, hbody, hafter⟩ := Stmt.readsAll (params :: scopes) body
    exact hbody.scope hafter

theorem FunctionDecl.readsAll (scopes : StaticScopes) (fs : List FunctionDecl) :
    scopes.Reads (FunctionDecl.marksAll fs) (FunctionDecl.marksAll (FunctionDecl.bindAll scopes fs))
      scopes := by
  match fs with
  | [] => exact .nil scopes
  | f :: rest => exact (f.reads scopes).append (FunctionDecl.readsAll scopes rest)

end

/-- Binding a program is reading its marks outside all scopes, and no scope is left open. -/
theorem Program.reads (program : Program) :
    StaticScopes.Reads [] program.marks program.bindNames.marks [] := by
  induction program with
  | nil => exact .nil []
  | cons s rest ih =>
    have hfirst := s.reads []
    rw [s.bindNames_nil] at hfirst
    have hbound : Program.bindNames (s :: rest) = (s.bindNames []).1 :: Program.bindNames rest :=
      Program.bindNames_append [s] rest
    rw [hbound]
    exact hfirst.append ih

/-! ### Local uses -/

/-- The local use that a mark is, if it is one. -/
def ScopeMark.localUses : ScopeMark → List LocalUse
  | .uses use => localUse use.kind use.name use.anchor use.binding
  | .opens _ | .closes | .declares _ => []

/-- The local use that was bound in a step. -/
def BindingStep.use? : BindingStep → Option LocalUse
  | .bound use => some use
  | .listDone => none

theorem filterMap_use?_bound (uses : List LocalUse) :
    (uses.map BindingStep.bound).filterMap BindingStep.use? = uses := by
  rw [List.filterMap_map]
  exact List.filterMap_some

mutual

theorem Expr.localUses_eq (e : Expr) : e.localUses = e.marks.flatMap ScopeMark.localUses := by
  match e with
  | .literal _ => rfl
  | .variable _ | .this _ _ | .super _ _ _ => exact (List.flatMap_singleton _ _).symm
  | .assign target value =>
    simp only [Expr.localUses, Expr.marks, List.flatMap_append, value.localUses_eq,
      List.flatMap_singleton]
    rfl
  | .unary _ operand _ => exact operand.localUses_eq
  | .binary _ left right _ | .logical _ left right =>
    simp only [Expr.localUses, Expr.marks, List.flatMap_append, left.localUses_eq,
      right.localUses_eq]
  | .grouping inner => exact inner.localUses_eq
  | .call callee arguments _ =>
    simp only [Expr.localUses, Expr.marks, List.flatMap_append, callee.localUses_eq,
      Expr.localUsesAll_eq arguments]
  | .get object _ _ => exact object.localUses_eq
  | .set object _ value _ =>
    simp only [Expr.localUses, Expr.marks, List.flatMap_append, object.localUses_eq,
      value.localUses_eq]

theorem Expr.localUsesAll_eq (es : List Expr) :
    Expr.localUsesAll es = (Expr.marksAll es).flatMap ScopeMark.localUses := by
  match es with
  | [] => rfl
  | e :: rest =>
    simp only [Expr.localUsesAll, Expr.marksAll, List.flatMap_append, e.localUses_eq,
      Expr.localUsesAll_eq rest]

end

theorem Expr.use?_bindingSteps (e : Expr) :
    e.bindingSteps.filterMap BindingStep.use? = e.marks.flatMap ScopeMark.localUses := by
  rw [Expr.bindingSteps, filterMap_use?_bound, e.localUses_eq]

theorem localUses_scopeMarks (names : List String) (inside : List ScopeMark) :
    (scopeMarks names inside).flatMap ScopeMark.localUses = inside.flatMap ScopeMark.localUses := by
  simp [scopeMarks, ScopeMark.localUses]

mutual

/-- The steps of binding a statement bind the local uses among its marks. -/
theorem Stmt.use?_bindingSteps (s : Stmt) :
    s.bindingSteps.filterMap BindingStep.use? = s.marks.flatMap ScopeMark.localUses := by
  match s with
  | .expression value | .print value | .returning (some value) => exact value.use?_bindingSteps
  | .returning none | .declare name none => rfl
  | .declare name (some value) =>
    simp only [Stmt.bindingSteps, Stmt.marks, List.flatMap_append, value.use?_bindingSteps]
    exact (List.append_nil _).symm
  | .block body =>
    simp only [Stmt.bindingSteps, Stmt.marks, localUses_scopeMarks, List.filterMap_append,
      Stmt.use?_bindingStepsAll body]
    exact List.append_nil _
  | .ifThen condition body | .loop condition body =>
    simp only [Stmt.bindingSteps, Stmt.marks, List.filterMap_append, List.flatMap_append,
      condition.use?_bindingSteps, body.use?_bindingSteps]
  | .ifElse condition body alternative =>
    simp only [Stmt.bindingSteps, Stmt.marks, List.filterMap_append, List.flatMap_append,
      condition.use?_bindingSteps, body.use?_bindingSteps, alternative.use?_bindingSteps,
      List.append_assoc]
  | .function declaration => exact declaration.use?_bindingSteps
  | .classDecl name none methods =>
    simp only [Stmt.bindingSteps, Stmt.marks, List.flatMap_append, localUses_scopeMarks,
      FunctionDecl.use?_bindingStepsAll methods]
    rfl
  | .classDecl name (some superclass) methods =>
    simp only [Stmt.bindingSteps, Stmt.marks, List.filterMap_append, List.flatMap_append,
      localUses_scopeMarks, FunctionDecl.use?_bindingStepsAll methods,
      Expr.use?_bindingSteps (.variable superclass)]
    rfl

theorem Stmt.use?_bindingStepsAll (body : List Stmt) :
    (Stmt.bindingStepsAll body).filterMap BindingStep.use? =
      (Stmt.marksAll body).flatMap ScopeMark.localUses := by
  match body with
  | [] => rfl
  | s :: rest =>
    simp only [Stmt.bindingStepsAll, Stmt.marksAll, List.filterMap_append, List.flatMap_append,
      s.use?_bindingSteps, Stmt.use?_bindingStepsAll rest]

theorem FunctionDecl.use?_bindingSteps (f : FunctionDecl) :
    f.bindingSteps.filterMap BindingStep.use? = f.marks.flatMap ScopeMark.localUses := by
  match f with
  | .mk name params body anchor =>
    simp only [FunctionDecl.bindingSteps, FunctionDecl.marks, localUses_scopeMarks,
      List.filterMap_append, Stmt.use?_bindingStepsAll body]
    exact List.append_nil _

theorem FunctionDecl.use?_bindingStepsAll (fs : List FunctionDecl) :
    (FunctionDecl.bindingStepsAll fs).filterMap BindingStep.use? =
      (FunctionDecl.marksAll fs).flatMap ScopeMark.localUses := by
  match fs with
  | [] => rfl
  | f :: rest =>
    simp only [FunctionDecl.bindingStepsAll, FunctionDecl.marksAll, List.filterMap_append,
      List.flatMap_append, f.use?_bindingSteps, FunctionDecl.use?_bindingStepsAll rest]

end

/-- The local uses of a program are those among its marks, in their order. -/
theorem Program.localUses_eq (program : Program) :
    program.localUses = program.marks.flatMap ScopeMark.localUses := by
  have hsteps : program.localUses = program.bindingSteps.filterMap BindingStep.use? := rfl
  rw [hsteps, Program.bindingSteps, List.filterMap_append, Stmt.use?_bindingStepsAll program]
  exact List.append_nil _

theorem runningTotals_append_listDone (total : Nat) (steps : List BindingStep) :
    runningTotals total (steps ++ [.listDone]) =
      runningTotals total steps ++ [total + (steps.filterMap BindingStep.use?).length] := by
  induction steps generalizing total with
  | nil => rfl
  | cons step steps ih =>
    cases step with
    | bound use =>
      simp only [List.cons_append, runningTotals, ih, List.filterMap_cons, BindingStep.use?,
        List.length_cons]
      congr 2
      omega
    | listDone =>
      simp only [List.cons_append, runningTotals, ih, List.filterMap_cons, BindingStep.use?]

/-- The last of the running totals is the number of local uses. -/
theorem Program.getLast?_runningTotals (program : Program) :
    (runningTotals 0 program.bindingSteps).getLast? = some program.localUses.length := by
  have huses : program.localUses = (Stmt.bindingStepsAll program).filterMap BindingStep.use? := by
    rw [program.localUses_eq, Stmt.use?_bindingStepsAll program]
    rfl
  rw [huses, Program.bindingSteps, runningTotals_append_listDone, List.getLast?_concat,
    Nat.zero_add]

end Treewalk
