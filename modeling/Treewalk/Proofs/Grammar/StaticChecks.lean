import Treewalk.Proofs.Grammar.StatementCompleteness

/-!
# Static checks

The checks that recognition makes beside the shape of a program are exact, and they disturb nothing.
Each violation is reported once, at its token, the tree is that of the program, and nothing is
reported where the strict grammar has a derivation.
-/

namespace Treewalk.Grammar

variable {ts : List Token} {vs : List Violation}

/-- A program breaks no rule when there is no violation in its loose derivation. Recognition, with
any token at the end, is what links the two: it reports nothing in either case. -/
theorem Loose.DerivesProgram.derivesProgram_iff {p : Program} (h : Loose.DerivesProgram ts p vs)
    (ending : Token) : vs = [] ↔ Grammar.DerivesProgram ts p := by
  obtain ⟨hprogram, herrors⟩ := h.recognise_finds ending
  constructor
  · rintro rfl
    have heq : recognise ts ending = ⟨p, []⟩ := by rw [← hprogram, ← herrors.eq_nil]
    exact derivesProgram_of_recognise_eq heq
  · intro hstrict
    rw [hstrict.recognise_eq ending] at herrors
    exact List.map_eq_nil_iff.mp herrors.nil_eq.symm

/-- A program of the right shape is recognised as a whole, whatever other rules it breaks. No error
stops recognition, every statement is kept, and up to order there is exactly one error for each
violation, at the token of the program that the violation is blamed on. Without violations it is a
program of the strict grammar. -/
theorem recognise_violations {p : Program} (h : Loose.DerivesProgram ts p vs) (ending : Token) :
    (recognise ts ending).program = p ∧
      (recognise ts ending).errors.Perm (vs.map Violation.error) ∧
      (∀ error ∈ (recognise ts ending).errors, error.stops = false) ∧
      (∀ v ∈ vs, v.token ∈ ts ∧ v.error.found = v.token.found) ∧
      (vs = [] ↔ DerivesProgram ts p) := by
  obtain ⟨hprogram, herrors⟩ := h.recognise_finds ending
  refine ⟨hprogram, herrors, ?_, ?_, h.derivesProgram_iff ending⟩
  · intro error herror
    obtain ⟨v, _, rfl⟩ := List.mem_map.mp (herrors.mem_iff.mp herror)
    exact v.stops_error
  · intro v hv
    exact ⟨h.token_mem v hv, v.found_error⟩

section SelfishClass

/-- The superclass of a class that inherits from itself. -/
def selfishParent : Token := ⟨.identifier, "A", 1, 11, .ofLength 1 10 1⟩

def selfishName : Token := ⟨.identifier, "A", 1, 7, .ofLength 1 6 1⟩

def initName : Token := ⟨.identifier, "init", 1, 15, .ofLength 1 14 4⟩

/-- A `return` with a value, in an initializer. -/
def initReturn : Token := ⟨.keyword .kwReturn, "return", 1, 24, .ofLength 1 23 6⟩

/-- A `this` in its place. -/
def methodThis : Token := ⟨.keyword .kwThis, "this", 1, 31, .ofLength 1 30 4⟩

/-- A `this` outside every class. -/
def looseThis : Token := ⟨.keyword .kwThis, "this", 2, 1, .ofLength 1 40 4⟩

/-- An equals sign after something that cannot be assigned to. -/
def looseEquals : Token := ⟨.equal, "=", 2, 6, .ofLength 1 45 1⟩

/-- A `super` outside every class. -/
def looseSuper : Token := ⟨.keyword .kwSuper, "super", 2, 8, .ofLength 1 47 5⟩

/-- The statement `return this;`. -/
def initBody : List Token :=
  [initReturn, methodThis, ⟨.semicolon, ";", 1, 35, .ofLength 1 34 1⟩]

/-- The method `init() { return this; }`. -/
def initMethod : List Token :=
  initName :: ⟨.leftParen, "(", 1, 19, .ofLength 1 18 1⟩ ::
    ⟨.rightParen, ")", 1, 20, .ofLength 1 19 1⟩ :: ⟨.leftBrace, "\x7b", 1, 22, .ofLength 1 21 1⟩ ::
      (initBody ++ [⟨.rightBrace, "\x7d", 1, 37, .ofLength 1 36 1⟩])

/-- The declaration `class A < A { init() { return this; } }`. -/
def selfishClass : List Token :=
  ⟨.keyword .kwClass, "class", 1, 1, .ofLength 1 0 5⟩ :: selfishName ::
    ⟨.less, "<", 1, 9, .ofLength 1 8 1⟩ :: selfishParent ::
      ⟨.leftBrace, "\x7b", 1, 13, .ofLength 1 12 1⟩ ::
        (initMethod ++ [⟨.rightBrace, "\x7d", 1, 39, .ofLength 1 38 1⟩])

/-- The statement `this = super.m;`. -/
def looseAssignment : List Token :=
  [looseThis, looseEquals, looseSuper, ⟨.dot, ".", 2, 13, .ofLength 1 52 1⟩,
    ⟨.identifier, "m", 2, 14, .ofLength 1 53 1⟩, ⟨.semicolon, ";", 2, 15, .ofLength 1 54 1⟩]

def selfishEnd : Token := ⟨.endOfInput, "", 2, 16, .ofLength 1 55 0⟩

def initDecl : FunctionDecl :=
  .mk "init" [] [.returning (some (.this methodThis.anchor .global))] initName.anchor

def selfishProgram : Program :=
  [.classDecl "A" (some selfishParent.reference) [initDecl],
    .expression (.this looseThis.anchor .global)]

/-- In the order of the text, which is not that of the errors. -/
def selfishViolations : List Violation :=
  [.selfInheritance selfishParent, .initializerValue initReturn, .strayThis looseThis,
    .wrongTarget looseEquals, .straySuper looseSuper]

theorem derives_initMethod :
    Loose.DerivesStmt ⟨.none, .subclass⟩ (.function true) initMethod (.function initDecl)
      [.initializerValue initReturn] := by
  have hthis : Loose.Expression ⟨.initializer, .subclass⟩ [methodThis]
      (.this methodThis.anchor .global) [] :=
    .noAssignment (.disjunction_of_call (.noCall (.this rfl)))
  have hreturn : Loose.DerivesStmt ⟨.initializer, .subclass⟩ .declarations initBody
      (.stmts [.returning (some (.this methodThis.anchor .global))])
      [.initializerValue initReturn] :=
    .consDeclaration (.statement (.returning rfl (.some hthis) rfl)) .noDeclarations
  exact .function rfl rfl .none rfl rfl hreturn rfl

theorem derives_selfishClass :
    Loose.DerivesStmt {} .declaration selfishClass
      (.stmt (.classDecl "A" (some selfishParent.reference) [initDecl]))
      [.selfInheritance selfishParent, .initializerValue initReturn] :=
  .classDecl rfl rfl (.some rfl rfl) rfl (.consMethod derives_initMethod .noMethods) rfl

theorem derives_looseAssignment :
    Loose.DerivesStmt {} .declaration looseAssignment
      (.stmt (.expression (.this looseThis.anchor .global)))
      [.strayThis looseThis, .wrongTarget looseEquals, .straySuper looseSuper] := by
  have htarget : Loose.DerivesExpr .none (.level .disjunction) [looseThis]
      (.one (.this looseThis.anchor .global)) [.strayThis looseThis] :=
    .disjunction_of_call (.noCall (.this rfl))
  have hvalue : Loose.DerivesExpr .none .assignment
      [looseSuper, ⟨.dot, ".", 2, 13, .ofLength 1 52 1⟩,
        ⟨.identifier, "m", 2, 14, .ofLength 1 53 1⟩]
      (.one (.super "m" looseSuper.anchor .global)) [.straySuper looseSuper] :=
    .noAssignment (.disjunction_of_call (.noCall (.super rfl rfl rfl)))
  have hassign : Loose.Expression {} (looseAssignment.take 5) (.this looseThis.anchor .global)
      [.strayThis looseThis, .wrongTarget looseEquals, .straySuper looseSuper] :=
    .assignOther htarget (fun _ h => by cases h) (fun _ _ _ h => by cases h) rfl hvalue
  exact .statement (.expression (.mk hassign rfl))

/-- A class that inherits from itself and an assignment to `this`. -/
theorem recognise_violations_selfishClass :
    Loose.DerivesProgram (selfishClass ++ looseAssignment) selfishProgram selfishViolations ∧
    (recognise (selfishClass ++ looseAssignment) selfishEnd).program = selfishProgram ∧
    (recognise (selfishClass ++ looseAssignment) selfishEnd).errors.Perm
      (selfishViolations.map Violation.error) ∧
    (∀ error ∈ (recognise (selfishClass ++ looseAssignment) selfishEnd).errors,
      error.stops = false) ∧
    (∀ v ∈ selfishViolations, v.token ∈ selfishClass ++ looseAssignment ∧
      v.error.found = v.token.found) ∧
    (selfishViolations = [] ↔ DerivesProgram (selfishClass ++ looseAssignment) selfishProgram) := by
  have h : Loose.DerivesProgram (selfishClass ++ looseAssignment) selfishProgram
      selfishViolations :=
    .consDeclaration derives_selfishClass
      (.consDeclaration derives_looseAssignment .noDeclarations)
  exact ⟨h, recognise_violations h selfishEnd⟩

end SelfishClass

end Treewalk.Grammar
