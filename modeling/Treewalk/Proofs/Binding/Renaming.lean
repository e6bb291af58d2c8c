import Treewalk.Proofs.Binding.Twins

/-!
# Renaming local variables

A program is renamed in some of its scopes when every declaration of the old name in those scopes
gets the new name, and with it every use that the declaration reaches: a use belongs to the nearest
scope that declares its name before the use. The new name must not occur in the program, and only
variables and parameters are renamed, since functions and classes print their names.

Such a renaming does not change binding. A use of the renamed program is bound as many scopes
outward as its counterpart, so the bound programs are twins.
-/

namespace Treewalk

/-- The names declared so far in a scope, and whether it is one of those to rename. -/
structure MarkedScope where
  names : List String
  marked : Bool
deriving DecidableEq

/-- The local scopes around a node, innermost first. -/
abbrev MarkedScopes := List MarkedScope

namespace MarkedScopes

/-- The names of the scopes in the program. -/
def names (scopes : MarkedScopes) : StaticScopes := scopes.map (·.names)

/-- The names of the scopes in the renamed program. -/
def renamed (ρ : Renaming) (scopes : MarkedScopes) : StaticScopes :=
  scopes.map fun scope => scope.names.map (ρ.counterpart scope.marked)

/-- The marks of the scopes by their distance. -/
def marks (scopes : MarkedScopes) (hops : Nat) : Bool := (scopes[hops]?).any (·.marked)

/-- Every distance leads to the same scope in the renamed program. -/
def links (scopes : MarkedScopes) : Links :=
  fun hops hops' marked => hops' = hops ∧ marked = scopes.marks hops

/-- Declares a name in the innermost scope. -/
def declare (scopes : MarkedScopes) (name : String) : MarkedScopes :=
  match scopes with
  | [] => []
  | scope :: outer => { scope with names := name :: scope.names } :: outer

/-- Whether the nearest scope that declares a name is marked. -/
def marksUse (scopes : MarkedScopes) (name : String) : Bool :=
  (scopes.find? fun scope => scope.names.contains name).any (·.marked)

/-- No scope declares the new name. -/
def Fresh (ρ : Renaming) (scopes : MarkedScopes) : Prop :=
  ∀ scope ∈ scopes, ρ.new ∉ scope.names

end MarkedScopes

/-- The correspondence of a program and the renamed one. The new name does not occur in the
program. A use is renamed if the nearest scope that declares its name is marked. -/
def Renaming.lexical (ρ : Renaming) : Correspondence MarkedScopes where
  uses scopes reference reference' :=
    reference.name ≠ ρ.new ∧
      reference'.name = ρ.counterpart (scopes.marksUse reference.name) reference.name
  keyword _ _ _ := True
  admits _ name := name ≠ ρ.new
  counterpart scopes := ρ.counterpart (scopes.marks 0)
  declare := MarkedScopes.declare
  enter scopes marked names := ⟨names, marked⟩ :: scopes

namespace MarkedScopes

variable {ρ : Renaming} {scopes : MarkedScopes}

theorem marksUse_cons (scope : MarkedScope) (outer : MarkedScopes) (name : String) :
    marksUse (scope :: outer) name =
      if name ∈ scope.names then scope.marked else marksUse outer name := by
  unfold marksUse
  rw [List.find?_cons]
  by_cases hname : name ∈ scope.names
  · rw [if_pos hname, List.contains_iff_mem.mpr hname]
    rfl
  · have hcontains : scope.names.contains name = false := by simpa using hname
    rw [if_neg hname, hcontains]

theorem links_cons (scope : MarkedScope) (outer : MarkedScopes) :
    links (scope :: outer) = outer.links.enter scope.marked := by
  funext hops hops' marked
  cases hops <;> cases hops' <;> simp [links, marks, Links.enter]

/-- A use that does not belong to a scope is not taken for one of its names after renaming. -/
theorem counterpart_not_mem_renamed {names : List String} {marked : Bool} {name : String}
    (hfresh : ρ.new ∉ names) (hname : name ≠ ρ.new) (hnot : name ∉ names) (other : Bool) :
    ρ.counterpart other name ∉ names.map (ρ.counterpart marked) := by
  intro hmem
  obtain ⟨declared, hdeclared, heq⟩ := List.mem_map.mp hmem
  -- the new name is neither declared nor used, so two names fall together only if they are one
  have hne : declared ≠ name := fun h => hnot (h ▸ hdeclared)
  have hnew : declared ≠ ρ.new := fun h => hfresh (h ▸ hdeclared)
  rcases ρ.counterpart_eq_or marked declared with hkeeps | ⟨hold, htakes⟩
  · rcases ρ.counterpart_eq_or other name with hkeeps' | ⟨_, htakes'⟩
    · exact hne (hkeeps.symm.trans (heq.trans hkeeps'))
    · exact hnew (hkeeps.symm.trans (heq.trans htakes'))
  · rcases ρ.counterpart_eq_or other name with hkeeps' | ⟨hold', _⟩
    · exact hname (hkeeps'.symm.trans (heq.symm.trans htakes))
    · exact hne (hold.trans hold'.symm)

/-- A use and its counterpart are bound to the same scope, which is marked exactly if the use is
renamed. -/
theorem twin_binding (hfresh : scopes.Fresh ρ) {name : String} (hname : name ≠ ρ.new) :
    (scopes.names.binding name).Twin scopes.links (scopes.marksUse name)
      ((scopes.renamed ρ).binding (ρ.counterpart (scopes.marksUse name) name)) := by
  induction scopes with
  | nil => exact .global
  | cons scope outer ih =>
    obtain ⟨hscope, houter⟩ := List.forall_mem_cons.mp hfresh
    have hnames : names (scope :: outer) = scope.names :: names outer := rfl
    have hrenamed : renamed ρ (scope :: outer) =
        scope.names.map (ρ.counterpart scope.marked) :: renamed ρ outer := rfl
    rw [marksUse_cons, links_cons, hnames, hrenamed]
    -- either this scope declares the name, and then its counterpart too, or both are further out
    by_cases hmem : name ∈ scope.names
    · rw [if_pos hmem, StaticScopes.binding_of_mem hmem,
        StaticScopes.binding_of_mem (List.mem_map_of_mem hmem)]
      exact .enclosing (rfl : scope.marked = scope.marked)
    · rw [if_neg hmem, StaticScopes.binding_of_not_mem hmem,
        StaticScopes.binding_of_not_mem (counterpart_not_mem_renamed hscope hname hmem _)]
      exact (ih houter).enter scope.marked

/-- What is no name of a program is bound to the same scope. -/
theorem twin_binding_of_ne (hfresh : scopes.Fresh ρ) {name : String}
    (hname : name ≠ ρ.old ∧ name ≠ ρ.new) :
    (scopes.names.binding name).Twin scopes.links (scopes.marksUse name)
      ((scopes.renamed ρ).binding name) := by
  have hbinding := twin_binding hfresh hname.2
  rwa [ρ.counterpart_of_ne hname.1] at hbinding

/-- The scope inside that of `super` is the same, as all distances are. -/
theorem twinSuper_binding (hfresh : scopes.Fresh ρ) :
    (scopes.names.binding "super").TwinSuper scopes.links ((scopes.renamed ρ).binding "super") := by
  have hbinding := twin_binding_of_ne hfresh ρ.super_ne
  generalize scopes.marksUse "super" = marked at hbinding
  generalize scopes.names.binding "super" = binding at hbinding ⊢
  generalize (scopes.renamed ρ).binding "super" = binding' at hbinding ⊢
  cases hbinding with
  | global => exact .global
  | @enclosing _ hops _ hlinks =>
    obtain rfl := hlinks.1
    cases hops with
    | zero => exact .here hlinks
    | succ hops => exact .enclosing hlinks ⟨rfl, rfl⟩

theorem names_declare (scopes : MarkedScopes) (name : String) :
    (scopes.declare name).names = scopes.names.declare name := by
  cases scopes <;> rfl

theorem renamed_declare (scopes : MarkedScopes) (name : String) :
    (scopes.declare name).renamed ρ =
      (scopes.renamed ρ).declare (ρ.counterpart (scopes.marks 0) name) := by
  cases scopes <;> rfl

theorem links_declare (scopes : MarkedScopes) (name : String) :
    (scopes.declare name).links = scopes.links := by
  cases scopes with
  | nil => rfl
  | cons scope outer => rw [declare, links_cons, links_cons]

/-- The innermost scopes are the same. -/
theorem links_here (scopes : MarkedScopes) : scopes.links 0 0 (scopes.marks 0) := ⟨rfl, rfl⟩

theorem Fresh.declare (hfresh : scopes.Fresh ρ) {name : String} (hname : name ≠ ρ.new) :
    (scopes.declare name).Fresh ρ := by
  cases scopes with
  | nil => exact hfresh
  | cons scope outer =>
    obtain ⟨hscope, houter⟩ := List.forall_mem_cons.mp hfresh
    refine List.forall_mem_cons.mpr ⟨fun hmem => ?_, houter⟩
    rcases List.mem_cons.mp hmem with heq | hmem
    · exact hname heq.symm
    · exact hscope hmem

theorem Fresh.enter (hfresh : scopes.Fresh ρ) {names : List String} (hnames : ρ.new ∉ names)
    (marked : Bool) : Fresh ρ (⟨names, marked⟩ :: scopes) :=
  List.forall_mem_cons.mpr ⟨hnames, hfresh⟩

end MarkedScopes

/-! ### Binding of renamed programs -/

section Binding

variable {ρ : Renaming} {scopes : MarkedScopes} {name : String}

/-- A name of a program corresponds to its counterpart. -/
theorem Renaming.names (hname : name ≠ ρ.new) (marked : Bool) :
    Leeway.Names (some ρ) marked name (ρ.counterpart marked name) :=
  ⟨ρ.admits_of_ne hname marked, rfl⟩

/-- With leeway, places need not be the same. -/
theorem Renaming.places {α : Type} (ρ : Renaming) (place place' : α) :
    Leeway.Places (some ρ) place place' := by
  intro hnone
  cases hnone

theorem Reference.twin_renamed (hfresh : scopes.Fresh ρ) {reference reference' : Reference}
    (h : ρ.lexical.uses scopes reference reference') :
    Reference.Twin (some ρ) scopes.links (reference.bindName scopes.names)
      (reference'.bindName (scopes.renamed ρ)) := by
  obtain ⟨hname, heq⟩ := h
  refine ⟨ρ.places _ _, scopes.marksUse reference.name, ⟨ρ.admits_of_ne hname _, heq⟩, ?_⟩
  show (scopes.names.binding reference.name).Twin scopes.links _
    ((scopes.renamed ρ).binding reference'.name)
  rw [heq]
  exact MarkedScopes.twin_binding hfresh hname

mutual

/-- Binding the names of an expression and of the renamed one gives twins. -/
theorem Expr.twin_renamed (hfresh : scopes.Fresh ρ) (e : Expr) {e' : Expr}
    (h : e.Alike ρ.lexical scopes e') :
    (e.bindNames scopes.names).Twin (some ρ) scopes.links (e'.bindNames (scopes.renamed ρ)) := by
  cases e with
  | literal value =>
    obtain rfl := h
    exact .literal value
  | «variable» reference =>
    obtain ⟨_, rfl, hreference⟩ := h
    exact .variable (Reference.twin_renamed hfresh hreference)
  | assign target value =>
    obtain ⟨_, _, rfl, htarget, hvalue⟩ := h
    exact .assign (Reference.twin_renamed hfresh htarget) (value.twin_renamed hfresh hvalue)
  | unary op operand =>
    obtain ⟨_, _, rfl, hoperand⟩ := h
    exact .unary op (ρ.places _ _) (operand.twin_renamed hfresh hoperand)
  | binary op left right =>
    obtain ⟨_, _, _, rfl, hleft, hright⟩ := h
    exact .binary op (ρ.places _ _) (left.twin_renamed hfresh hleft)
      (right.twin_renamed hfresh hright)
  | logical op left right =>
    obtain ⟨_, _, rfl, hleft, hright⟩ := h
    exact .logical op (left.twin_renamed hfresh hleft) (right.twin_renamed hfresh hright)
  | grouping inner =>
    obtain ⟨_, rfl, hinner⟩ := h
    exact .grouping (inner.twin_renamed hfresh hinner)
  | call callee arguments =>
    obtain ⟨_, _, _, rfl, hcallee, harguments⟩ := h
    exact .call (ρ.places _ _) (callee.twin_renamed hfresh hcallee)
      (Expr.allTwin_renamed hfresh arguments harguments)
  | get object name =>
    obtain ⟨_, _, rfl, hobject⟩ := h
    exact .get name (ρ.places _ _) (object.twin_renamed hfresh hobject)
  | set object name value =>
    obtain ⟨_, _, _, rfl, hobject, hvalue⟩ := h
    exact .set name (ρ.places _ _) (object.twin_renamed hfresh hobject)
      (value.twin_renamed hfresh hvalue)
  | this =>
    obtain ⟨_, _, rfl, _⟩ := h
    exact .this (ρ.places _ _) (MarkedScopes.twin_binding_of_ne hfresh ρ.this_ne)
  | super method =>
    obtain ⟨_, _, rfl, _⟩ := h
    exact .super method (ρ.places _ _) (MarkedScopes.twinSuper_binding hfresh)

theorem Expr.allTwin_renamed (hfresh : scopes.Fresh ρ) (es : List Expr) {es' : List Expr}
    (h : Expr.AllAlike ρ.lexical scopes es es') :
    List.Forall₂ (Expr.Twin (some ρ) scopes.links) (Expr.bindAll scopes.names es)
      (Expr.bindAll (scopes.renamed ρ) es') := by
  cases es with
  | nil =>
    obtain rfl := h
    exact .nil
  | cons e rest =>
    obtain ⟨_, _, rfl, he, hrest⟩ := h
    exact .cons (e.twin_renamed hfresh he) (Expr.allTwin_renamed hfresh rest hrest)

end

/-- What the scopes are after a statement and after the renamed one. -/
structure MarkedScopes.Become (ρ : Renaming) (scopes later : MarkedScopes)
    (bound bound' : StaticScopes) : Prop where
  fresh : later.Fresh ρ
  links : later.links = scopes.links
  names : bound = later.names
  renamed : bound' = later.renamed ρ

theorem MarkedScopes.become_declare (hfresh : scopes.Fresh ρ) {name name' : String}
    (hname : name ≠ ρ.new) (hname' : name' = ρ.counterpart (scopes.marks 0) name) :
    MarkedScopes.Become ρ scopes (scopes.declare name) (scopes.names.declare name)
      ((scopes.renamed ρ).declare name') := by
  subst hname'
  exact ⟨hfresh.declare hname, scopes.links_declare name, (scopes.names_declare name).symm,
    (scopes.renamed_declare name).symm⟩

theorem MarkedScopes.become_self (hfresh : scopes.Fresh ρ) :
    MarkedScopes.Become ρ scopes scopes scopes.names (scopes.renamed ρ) :=
  ⟨hfresh, rfl, rfl, rfl⟩

/-- A statement and the renamed one declare names that correspond. -/
theorem Stmt.become_bindNames {scopes : MarkedScopes} (hfresh : scopes.Fresh ρ) (s : Stmt)
    {s' : Stmt} (h : s.Alike ρ.lexical scopes s') :
    MarkedScopes.Become ρ scopes (s.contextAfter ρ.lexical scopes) (s.bindNames scopes.names).2
      (s'.bindNames (scopes.renamed ρ)).2 := by
  match s with
  | .declare name none =>
    obtain ⟨rfl, hname⟩ := h
    exact MarkedScopes.become_declare hfresh hname rfl
  | .declare name (some _) =>
    obtain ⟨_, rfl, hname, _⟩ := h
    exact MarkedScopes.become_declare hfresh hname rfl
  | .function declaration =>
    obtain ⟨_, rfl, ⟨hname, hkeeps⟩, hdeclaration⟩ := h
    exact MarkedScopes.become_declare hfresh hname (hdeclaration.name_eq.trans hkeeps.symm)
  | .classDecl name none _ =>
    obtain ⟨_, rfl, ⟨hname, hkeeps⟩, _⟩ := h
    exact MarkedScopes.become_declare hfresh hname hkeeps.symm
  | .classDecl name (some _) _ =>
    obtain ⟨_, _, rfl, ⟨hname, hkeeps⟩, _⟩ := h
    exact MarkedScopes.become_declare hfresh hname hkeeps.symm
  | .ifThen _ body | .loop _ body =>
    obtain ⟨_, _, rfl, _, hbody⟩ := h
    have hbecome := body.become_bindNames hfresh hbody
    exact hbecome
  | .ifElse _ body alternative =>
    obtain ⟨_, _, _, rfl, _, hbody, halternative⟩ := h
    have hmiddle := body.become_bindNames hfresh hbody
    have hlast := alternative.become_bindNames hmiddle.fresh halternative
    refine ⟨hlast.fresh, hlast.links.trans hmiddle.links, ?_, ?_⟩
    · rw [bindNames, contextAfter, ← hlast.names, ← hmiddle.names]
    · rw [bindNames, contextAfter, ← hlast.renamed, ← hmiddle.renamed]
  | .expression _ | .print _ | .returning (some _) =>
    obtain ⟨_, rfl, _⟩ := h
    exact MarkedScopes.become_self hfresh
  | .block _ =>
    obtain ⟨_, _, rfl, _⟩ := h
    exact MarkedScopes.become_self hfresh
  | .returning none =>
    obtain rfl := h
    exact MarkedScopes.become_self hfresh

/-- The scopes around the methods of a class and of the renamed one. -/
theorem MarkedScopes.enterClass_eq (hfresh : scopes.Fresh ρ) (superclass : Option Reference)
    (superclass' : Option Reference) (hsome : superclass'.isSome = superclass.isSome) :
    (ρ.lexical.enterClass scopes superclass).Fresh ρ ∧
      (ρ.lexical.enterClass scopes superclass).links = scopes.links.enterClass superclass ∧
      (ρ.lexical.enterClass scopes superclass).names = methodScopes scopes.names superclass ∧
      (ρ.lexical.enterClass scopes superclass).renamed ρ =
        methodScopes (scopes.renamed ρ) superclass' := by
  have hthis : ρ.new ∉ ["this"] := fun hmem => ρ.this_ne.2 (List.mem_singleton.mp hmem).symm
  have hsuper : ρ.new ∉ ["super"] := fun hmem => ρ.super_ne.2 (List.mem_singleton.mp hmem).symm
  have hrenamed : ∀ name : String, [name].map (ρ.counterpart false) = [name] :=
    fun name => congrArg (fun name => [name]) (ρ.counterpart_false name)
  cases superclass with
  | none =>
    cases superclass' with
    | some => cases hsome
    | none =>
      refine ⟨hfresh.enter hthis false, links_cons _ _, rfl, ?_⟩
      exact congrArg (· :: scopes.renamed ρ) (hrenamed "this")
  | some =>
    cases superclass' with
    | none => cases hsome
    | some =>
      refine ⟨(hfresh.enter hsuper false).enter hthis false, ?_, rfl, ?_⟩
      · exact (links_cons _ _).trans (congrArg (Links.enter · false) (links_cons _ _))
      · show ["this"].map (ρ.counterpart false) :: ["super"].map (ρ.counterpart false) ::
          scopes.renamed ρ = ["this"] :: ["super"] :: scopes.renamed ρ
        rw [hrenamed, hrenamed]

theorem FunctionDecl.name_bindNames (scopes : StaticScopes) (f : FunctionDecl) :
    (f.bindNames scopes).name = f.name := by
  cases f
  rfl

/-- A name that stays as it is corresponds to itself. -/
theorem Correspondence.Keeps.names (h : ρ.lexical.Keeps scopes name) :
    Leeway.Names (some ρ) (scopes.marks 0) name name :=
  ⟨ρ.admits_of_ne h.1 _, h.2.symm⟩

mutual

/-- Binding the names of a statement and of the renamed one gives twins. -/
theorem Stmt.twin_renamed {scopes : MarkedScopes} (hfresh : scopes.Fresh ρ) (s : Stmt)
    {s' : Stmt} (h : s.Alike ρ.lexical scopes s') :
    (s.bindNames scopes.names).1.Twin (some ρ) scopes.links
      (s'.bindNames (scopes.renamed ρ)).1 := by
  match s with
  | .expression value =>
    obtain ⟨_, rfl, hvalue⟩ := h
    exact .expression (value.twin_renamed hfresh hvalue)
  | .print value =>
    obtain ⟨_, rfl, hvalue⟩ := h
    exact .print (value.twin_renamed hfresh hvalue)
  | .declare name none =>
    obtain ⟨rfl, hname⟩ := h
    exact .declare scopes.links_here (ρ.names hname _) .none
  | .declare name (some value) =>
    obtain ⟨_, rfl, hname, hvalue⟩ := h
    exact .declare scopes.links_here (ρ.names hname _) (.some (value.twin_renamed hfresh hvalue))
  | .block body =>
    obtain ⟨marked, _, rfl, hbody⟩ := h
    have hinner : MarkedScopes.Fresh ρ (⟨[], marked⟩ :: scopes) :=
      hfresh.enter List.not_mem_nil marked
    have hall := Stmt.allTwin_renamed hinner body hbody
    rw [MarkedScopes.links_cons] at hall
    exact .block marked hall
  | .ifThen condition body =>
    obtain ⟨_, _, rfl, hcondition, hbody⟩ := h
    exact .ifThen (condition.twin_renamed hfresh hcondition) (body.twin_renamed hfresh hbody)
  | .loop condition body =>
    obtain ⟨_, _, rfl, hcondition, hbody⟩ := h
    exact .loop (condition.twin_renamed hfresh hcondition) (body.twin_renamed hfresh hbody)
  | .ifElse condition body alternative =>
    obtain ⟨_, _, _, rfl, hcondition, hbody, halternative⟩ := h
    -- the alternative is bound in the scopes after the body
    have hmiddle := body.become_bindNames hfresh hbody
    have hlast := alternative.twin_renamed hmiddle.fresh halternative
    rw [hmiddle.links, ← hmiddle.names, ← hmiddle.renamed] at hlast
    exact .ifElse (condition.twin_renamed hfresh hcondition) (body.twin_renamed hfresh hbody) hlast
  | .function declaration =>
    obtain ⟨_, rfl, hkeeps, hdeclaration⟩ := h
    have hbecome := MarkedScopes.become_declare hfresh hkeeps.1
      (hdeclaration.name_eq.trans hkeeps.2.symm)
    have hbound := declaration.twin_renamed hbecome.fresh hdeclaration
    rw [hbecome.links, ← hbecome.names, ← hbecome.renamed] at hbound
    refine .function scopes.links_here ?_ hbound
    rw [declaration.name_bindNames]
    exact hkeeps.names
  | .returning none =>
    obtain rfl := h
    exact .returning .none
  | .returning (some value) =>
    obtain ⟨_, rfl, hvalue⟩ := h
    exact .returning (.some (value.twin_renamed hfresh hvalue))
  | .classDecl name none methods =>
    obtain ⟨_, rfl, hkeeps, hmethods⟩ := h
    have hbecome := MarkedScopes.become_declare hfresh hkeeps.1 hkeeps.2.symm
    obtain ⟨hinner, hlinks, hnames, hrenamed⟩ :=
      MarkedScopes.enterClass_eq hbecome.fresh none none rfl
    have hall := FunctionDecl.allTwin_renamed hinner methods hmethods
    rw [hlinks, hnames, hrenamed, hbecome.links, ← hbecome.names, ← hbecome.renamed] at hall
    exact .classDecl scopes.links_here hkeeps.names .none hall
  | .classDecl name (some parent) methods =>
    obtain ⟨parent', _, rfl, hkeeps, hparent, hmethods⟩ := h
    have hbecome := MarkedScopes.become_declare hfresh hkeeps.1 hkeeps.2.symm
    have hreference := Reference.twin_renamed hbecome.fresh hparent
    obtain ⟨hinner, hlinks, hnames, hrenamed⟩ :=
      MarkedScopes.enterClass_eq hbecome.fresh (some parent) (some parent') rfl
    have hall := FunctionDecl.allTwin_renamed hinner methods hmethods
    rw [hlinks, hnames, hrenamed, hbecome.links, ← hbecome.names, ← hbecome.renamed] at hall
    rw [hbecome.links, ← hbecome.names, ← hbecome.renamed] at hreference
    exact .classDecl scopes.links_here hkeeps.names (.some hreference) hall

/-- Binding the names of a list of statements and of the renamed one gives twins. -/
theorem Stmt.allTwin_renamed {scopes : MarkedScopes} (hfresh : scopes.Fresh ρ)
    (body : List Stmt) {body' : List Stmt} (h : Stmt.AllAlike ρ.lexical scopes body body') :
    Stmt.AllTwin (some ρ) scopes.links (Stmt.bindAll scopes.names body)
      (Stmt.bindAll (scopes.renamed ρ) body') := by
  match body with
  | [] =>
    obtain rfl := h
    exact .nil _
  | s :: rest =>
    obtain ⟨_, _, rfl, hs, hrest⟩ := h
    have hbecome := s.become_bindNames hfresh hs
    have hall := Stmt.allTwin_renamed hbecome.fresh rest hrest
    rw [hbecome.links, ← hbecome.names, ← hbecome.renamed] at hall
    exact .cons (s.twin_renamed hfresh hs) hall

theorem FunctionDecl.twin_renamed {scopes : MarkedScopes} (hfresh : scopes.Fresh ρ)
    (f : FunctionDecl) {f' : FunctionDecl} (h : f.Alike ρ.lexical scopes f') :
    (f.bindNames scopes.names).Twin (some ρ) scopes.links (f'.bindNames (scopes.renamed ρ)) := by
  match f with
  | .mk name params body anchor =>
    obtain ⟨marked, _, _, rfl, hparams, hbody⟩ := h
    -- parameters are renamed in the scope of the body, of which they are the first names
    have hinner : MarkedScopes.Fresh ρ (⟨params, marked⟩ :: scopes) :=
      hfresh.enter (fun hmem => hparams _ hmem rfl) marked
    have hall := Stmt.allTwin_renamed hinner body hbody
    rw [MarkedScopes.links_cons] at hall
    refine .mk name marked ?_ (ρ.places _ _) hall
    exact List.forall₂_map_right_iff.mpr
      (List.forall₂_same.mpr fun param hparam => ρ.names (hparams param hparam) marked)

theorem FunctionDecl.allTwin_renamed {scopes : MarkedScopes} (hfresh : scopes.Fresh ρ)
    (fs : List FunctionDecl) {fs' : List FunctionDecl}
    (h : FunctionDecl.AllAlike ρ.lexical scopes fs fs') :
    FunctionDecl.AllTwin (some ρ) scopes.links (FunctionDecl.bindAll scopes.names fs)
      (FunctionDecl.bindAll (scopes.renamed ρ) fs') := by
  match fs with
  | [] =>
    obtain rfl := h
    exact .nil _
  | f :: rest =>
    obtain ⟨_, _, rfl, hf, hrest⟩ := h
    exact .cons (f.twin_renamed hfresh hf) (FunctionDecl.allTwin_renamed hfresh rest hrest)

end

end Binding

/-- One program is the other with a local variable renamed: in some of its blocks and functions, the
new name stands for the old one. -/
def Program.RenamesTo (ρ : Renaming) (program program' : Program) : Prop :=
  Stmt.AllAlike ρ.lexical [] program program'

/-- A program and the renamed one are twins once their names are bound. -/
theorem Program.RenamesTo.bindNames {ρ : Renaming} {program program' : Program}
    (h : program.RenamesTo ρ program') :
    Stmt.AllTwin (some ρ) .same program.bindNames program'.bindNames :=
  Stmt.allTwin_renamed (fun _ hscope => absurd hscope List.not_mem_nil) program h

end Treewalk
