import Treewalk.Proofs.Grammar.Derivation

/-!
# How programs end

The last token of a program tells whether its last statement is complete. An expression ends neither
with a semicolon nor with a closing brace. So a statement or a declaration ends with a closing
brace, or with a semicolon behind some other token, and a semicolon can complete only what ends with
neither of the two.
-/

namespace Treewalk.Grammar

/-- Whether a kind of token ends statements: semicolons and closing braces do. -/
def endsStatement : TokenKind → Bool
  | .semicolon | .rightBrace => true
  | _ => false

/-- There is a last token, and it is neither a semicolon nor a closing brace. -/
def EndsOpen (ts : List Token) : Prop :=
  ∃ token ∈ ts.getLast?, endsStatement token.kind = false

/-- The last token is a closing brace, or a semicolon behind a token that is neither. -/
inductive EndsClosed : List Token → Prop where
  | brace {brace : Token} (ts : List Token) (h : brace.kind = .rightBrace) :
    EndsClosed (ts ++ [brace])
  | semicolon {semicolon : Token} {ts : List Token} (hts : EndsOpen ts)
    (h : semicolon.kind = .semicolon) : EndsClosed (ts ++ [semicolon])

section Endings

variable {ts : List Token}

theorem endsOpen_concat (ts : List Token) {token : Token} {kind : TokenKind}
    (hkind : token.kind = kind) (h : endsStatement kind = false) : EndsOpen (ts ++ [token]) :=
  ⟨token, List.getLast?_concat, hkind ▸ h⟩

theorem EndsOpen.append (h : EndsOpen ts) (before : List Token) : EndsOpen (before ++ ts) := by
  obtain ⟨token, hlast, htoken⟩ := h
  refine ⟨token, ?_, htoken⟩
  rw [Option.mem_def] at hlast ⊢
  rw [List.getLast?_append, hlast]
  rfl

theorem EndsOpen.cons (h : EndsOpen ts) (token : Token) : EndsOpen (token :: ts) :=
  h.append [token]

theorem EndsClosed.append (h : EndsClosed ts) (before : List Token) :
    EndsClosed (before ++ ts) := by
  cases h with
  | brace ts h =>
    rw [← List.append_assoc]
    exact .brace _ h
  | semicolon hts h =>
    rw [← List.append_assoc]
    exact .semicolon (hts.append before) h

theorem EndsClosed.cons (h : EndsClosed ts) (token : Token) : EndsClosed (token :: ts) :=
  h.append [token]

theorem EndsClosed.not_endsOpen (h : EndsClosed ts) : ¬ EndsOpen ts := by
  rintro ⟨token, hlast, htoken⟩
  cases h with
  | brace ts h | semicolon hts h =>
    obtain rfl := Option.some.inj (List.getLast?_concat.symm.trans hlast)
    rw [h] at htoken
    cases htoken

/-- A semicolon at the end is not preceded by a token that ends a statement. -/
theorem EndsClosed.endsOpen_of_semicolon {semicolon : Token} (hkind : semicolon.kind = .semicolon)
    (h : EndsClosed (ts ++ [semicolon])) : EndsOpen ts := by
  generalize hall : ts ++ [semicolon] = all at h
  cases h with
  | brace init hbrace =>
    obtain ⟨_, hlast⟩ := List.append_inj' hall rfl
    obtain rfl := (List.cons.inj hlast).1
    rw [hkind] at hbrace
    cases hbrace
  | semicolon hts =>
    obtain ⟨rfl, _⟩ := List.append_inj' hall rfl
    exact hts

end Endings

/-! ### Derivations -/

theorem endsStatement_of_denotes {kind : TokenKind} {value : Literal} (h : Denotes kind value) :
    endsStatement kind = false := by
  cases h <;> rfl

/-- An expression ends neither with a semicolon nor with a closing brace. -/
theorem DerivesExpr.endsOpen {enclosing : ClassKind} {symbol : ExprSymbol} {ts : List Token}
    {phrase : ExprPhrase} (h : DerivesExpr enclosing symbol ts phrase) : EndsOpen ts := by
  induction h with
  | assignVariable _ _ _ ih => exact (ih.cons _).cons _
  | assignProperty _ _ _ _ _ _ ih => exact (((ih.cons _).cons _).cons _).append _
  | noAssignment _ ih | operand _ ih | noPrefix _ ih | noCall _ ih | lastItem _ ih => exact ih
  | join _ _ _ _ ih => exact (ih.cons _).append _
  | prefixed _ _ ih => exact ih.cons _
  | callEmpty _ _ hclosing =>
    exact (endsOpen_concat [_] hclosing rfl).append _
  | callItems _ _ _ _ hclosing =>
    exact ((endsOpen_concat _ hclosing rfl).cons _).append _
  | property _ _ hname => exact (endsOpen_concat [_] hname rfl).append _
  | literal h => exact endsOpen_concat [] rfl (endsStatement_of_denotes h)
  | «variable» hname => exact endsOpen_concat [] hname rfl
  | this hkeyword => exact endsOpen_concat [] hkeyword rfl
  | super _ _ hmethod => exact endsOpen_concat [_, _] hmethod rfl
  | grouping _ _ hclosing => exact (endsOpen_concat _ hclosing rfl).cons _
  | consItem _ _ _ _ ih => exact (ih.cons _).append _

theorem VariableDecl.endsClosed {place : Place} {ts : List Token} {s : Stmt}
    (h : VariableDecl place ts s) : EndsClosed ts := by
  cases h with
  | bare _ hname hsemicolon => exact .semicolon (endsOpen_concat [_] hname rfl) hsemicolon
  | initialized _ _ _ hvalue hsemicolon =>
    have hend := EndsClosed.semicolon (DerivesExpr.endsOpen hvalue) hsemicolon
    exact ((hend.cons _).cons _).cons _

/-- Whether a nonterminal of statements can derive nothing. -/
def StmtSymbol.nullable : StmtSymbol → Bool
  | .declarations | .methods => true
  | _ => false

theorem endsClosed_of_nullable {symbol : StmtSymbol} {ts : List Token}
    (h : symbol.nullable = true ∧ ts = [] ∨ EndsClosed ts) (hsymbol : symbol.nullable = false) :
    EndsClosed ts := by
  rcases h with ⟨hnullable, _⟩ | h
  · rw [hsymbol] at hnullable
    cases hnullable
  · exact h

/-- A statement or a declaration ends with a closing brace, or with a semicolon behind another
token. So do several of them, unless there are none. -/
theorem DerivesStmt.endsClosed {place : Place} {symbol : StmtSymbol} {ts : List Token}
    {phrase : StmtPhrase} (h : DerivesStmt place symbol ts phrase) :
    symbol.nullable = true ∧ ts = [] ∨ EndsClosed ts := by
  induction h with
  | noDeclarations | noMethods => exact .inl ⟨rfl, rfl⟩
  | consDeclaration _ _ ihfirst ihrest | consMethod _ _ ihfirst ihrest =>
    rcases ihrest with ⟨_, rfl⟩ | hrest
    · rw [List.append_nil]
      exact ihfirst.imp (fun h => ⟨rfl, h.2⟩) id
    · exact .inr (hrest.append _)
  | classDecl _ _ _ _ _ hclosing =>
    exact .inr (((((EndsClosed.brace _ hclosing).cons _).append _).cons _).cons _)
  | functionDecl _ _ ih => exact .inr ((endsClosed_of_nullable ih rfl).cons _)
  | variableDecl h => exact .inr h.endsClosed
  | statement _ ih => exact .inr (endsClosed_of_nullable ih rfl)
  | expression h =>
    obtain ⟨h, hsemicolon⟩ := h
    exact .inr (.semicolon (DerivesExpr.endsOpen h) hsemicolon)
  | forLoop _ _ _ _ _ _ _ _ ih =>
    have hbody := endsClosed_of_nullable ih rfl
    exact .inr (((((((hbody.cons _).append _).cons _).append _).append _).cons _).cons _)
  | ifThen _ _ _ _ _ ih | whileLoop _ _ _ _ _ ih =>
    have hbody := endsClosed_of_nullable ih rfl
    exact .inr ((((hbody.cons _).append _).cons _).cons _)
  | ifElse _ _ _ _ _ _ _ _ ih =>
    have hbranch := endsClosed_of_nullable ih rfl
    exact .inr ((((((hbranch.cons _).append _).cons _).append _).cons _).cons _)
  | print _ hvalue hsemicolon =>
    exact .inr ((EndsClosed.semicolon (DerivesExpr.endsOpen hvalue) hsemicolon).cons _)
  | @returning _ keyword _ ts _ hkeyword _ hvalue _ hsemicolon =>
    -- what is returned may be left out, and then the keyword stands before the semicolon
    have hopen : EndsOpen (keyword :: ts) := by
      cases hvalue with
      | none => exact endsOpen_concat [] hkeyword rfl
      | some hvalue => exact (DerivesExpr.endsOpen hvalue).cons keyword
    exact .inr (.semicolon hopen hsemicolon)
  | block _ _ hclosing => exact .inr ((EndsClosed.brace _ hclosing).cons _)
  | function _ _ _ _ _ _ hfinish =>
    exact .inr ((((((EndsClosed.brace _ hfinish).cons _).cons _).append _).cons _).cons _)

namespace DerivesProgram

variable {ts : List Token} {p : Program}

/-- No program lacks its last semicolon. -/
theorem not_endsOpen (h : DerivesProgram ts p) : ¬ EndsOpen ts := by
  rcases DerivesStmt.endsClosed h with ⟨_, rfl⟩ | hend
  · rintro ⟨token, htoken, _⟩
    cases htoken
  · exact hend.not_endsOpen

/-- No program has one semicolon too many. -/
theorem endsOpen_of_semicolon {semicolon : Token} (hkind : semicolon.kind = .semicolon)
    (h : DerivesProgram (ts ++ [semicolon]) p) : EndsOpen ts := by
  rcases DerivesStmt.endsClosed h with ⟨_, hnil⟩ | hend
  · simp at hnil
  · exact hend.endsOpen_of_semicolon hkind

end DerivesProgram

end Treewalk.Grammar
