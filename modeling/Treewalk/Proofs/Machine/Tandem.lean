import Treewalk.Proofs.Machine.Safety
import Treewalk.Proofs.Machine.TwinStores

/-!
# Computations in tandem

Two computations run in tandem from twin stores when they end the same way: both give values that
are related, or both are cut short for the same reason, and the stores are twins afterwards. They
need not open the same scopes: either one may run in a scope of its own that the other lacks. As
with safety, there is one rule for each way of combining computations and one for each operation on
the store.

With leeway, runtime errors may say the same of different places. The one message that quotes a
local name is that of an invalid superclass, so there the new name may stand for the old one.
-/

namespace Treewalk

/-- A site that is nowhere. -/
def Site.nowhere : Site := ⟨0, none⟩

/-- A runtime error without its places. -/
def RuntimeError.unplaced : RuntimeError → RuntimeError
  | .undefinedVariable name _ => .undefinedVariable name .nowhere
  | .binaryOperands operator left right _ => .binaryOperands operator left right .nowhere
  | .unaryOperand operator operand _ => .unaryOperand operator operand .nowhere
  | .invalidSuperclass name kind _ => .invalidSuperclass name kind .nowhere
  | .notAnInstance rule kind _ => .notAnInstance rule kind .nowhere
  | .divisionByZero _ => .divisionByZero .nowhere
  | .wrongArity expected got _ callee _ => .wrongArity expected got .nowhere callee none
  | .notCallable kind _ => .notCallable kind .nowhere
  | .undefinedProperty name _ => .undefinedProperty name .nowhere

/-- Runtime errors that are the same but, with leeway, for their places or the name of an invalid
superclass. -/
inductive RuntimeError.Twin (ρ : Leeway) : RuntimeError → RuntimeError → Prop where
  | placed {error error' : RuntimeError} (h : error'.unplaced = error.unplaced)
    (hplace : ρ.Places error error') : Twin ρ error error'
  | superclass {σ : Renaming} (h : ρ = some σ) (kind : String) (site site' : Site) :
    Twin ρ (.invalidSuperclass σ.old kind site) (.invalidSuperclass σ.new kind site')

/-- What cuts computations short in the same way. -/
inductive Halt.Twin (ρ : Leeway) (P : Pairing) : Halt → Halt → Prop where
  | returned {value value' : Value} (h : value.Twin ρ P value') :
    Twin ρ P (.returned value) (.returned value')
  | failed {error error' : RuntimeError} (h : error.Twin ρ error') :
    Twin ρ P (.failed error) (.failed error')
  | fault (fault : Fault) : Twin ρ P (.fault fault) (.fault fault)
  | stackExhausted : Twin ρ P .stackExhausted .stackExhausted
  | loopExhausted : Twin ρ P .loopExhausted .loopExhausted

/-- What two runs have reached together: the stores are twins, and the environments in force are
those from before. -/
structure Advance (ρ : Leeway) (P : Pairing) (store store' : Store) (later : Pairing)
    (next next' : Store) : Prop where
  grows : P.Grows later
  twin : next.Twin ρ later next'
  current : next.current = store.current
  current' : next'.current = store'.current

namespace Advance

variable {ρ : Leeway} {P later last : Pairing}
  {store store' next next' final final' : Store}

theorem refl (h : store.Twin ρ P store') : Advance ρ P store store' P store store' :=
  ⟨.refl P, h, rfl, rfl⟩

theorem trans (h : Advance ρ P store store' later next next')
    (h' : Advance ρ later next next' last final final') :
    Advance ρ P store store' last final final' :=
  ⟨h.grows.trans h'.grows, h'.twin, h'.current.trans h.current, h'.current'.trans h.current'⟩

/-- The environments in force stay aligned. -/
theorem aligned {links : Links} (h : Advance ρ P store store' later next next')
    (haligned : P.Aligned links store.current.chain store'.current.chain) :
    later.Aligned links next.current.chain next'.current.chain := by
  rw [h.current, h.current']
  exact haligned.mono h.grows

end Advance

/-- Results that are the same. -/
inductive ResultsTwin {α : Type} (ρ : Leeway) (P : Pairing) (store store' : Store)
    (post : Pairing → α → α → Prop) :
    EStateM.Result Halt Store α → EStateM.Result Halt Store α → Prop where
  | ok {value value' : α} {next next' : Store} (later : Pairing)
    (hnext : Advance ρ P store store' later next next') (hpost : post later value value') :
    ResultsTwin ρ P store store' post (.ok value next) (.ok value' next')
  | error {halt halt' : Halt} {next next' : Store} (later : Pairing)
    (hnext : Advance ρ P store store' later next next') (hhalt : halt.Twin ρ later halt') :
    ResultsTwin ρ P store store' post (.error halt next) (.error halt' next')

/-- From two stores, two computations end the same way. -/
def Tandem {α : Type} (ρ : Leeway) (P : Pairing) (post : Pairing → α → α → Prop) (x x' : EvalM α)
    (store store' : Store) : Prop :=
  ResultsTwin ρ P store store' post (x store) (x' store')

variable {α β : Type} {ρ : Leeway} {P : Pairing} {links : Links} {store store' : Store}

/-! ### Combinations -/

theorem Tandem.pure {post : Pairing → α → α → Prop} (h : store.Twin ρ P store') {value value' : α}
    (hpost : post P value value') :
    Tandem ρ P post (Pure.pure value) (Pure.pure value') store store' :=
  .ok P (.refl h) hpost

theorem Tandem.throw {post : Pairing → α → α → Prop} (h : store.Twin ρ P store') {halt halt' : Halt}
    (hhalt : halt.Twin ρ P halt') :
    Tandem ρ P post (MonadExcept.throw halt) (MonadExcept.throw halt') store store' :=
  .error P (.refl h) hhalt

theorem Tandem.fail {post : Pairing → α → α → Prop} (h : store.Twin ρ P store')
    {error error' : RuntimeError} (herror : error'.unplaced = error.unplaced)
    (hplace : ρ.Places error error') :
    Tandem ρ P post (Treewalk.fail error) (Treewalk.fail error') store store' :=
  .throw h (.failed (.placed herror hplace))

theorem Tandem.getBind {f f' : Store → EvalM β} {post : Pairing → β → β → Prop}
    (h : Tandem ρ P post (f store) (f' store') store store') :
    Tandem ρ P post (get >>= f) (get >>= f') store store' :=
  h

/-- Results that are the same from a later moment on are the same from an earlier one on. -/
theorem ResultsTwin.since {post : Pairing → α → α → Prop} {later : Pairing} {next next' : Store}
    {r r' : EStateM.Result Halt Store α} (h : ResultsTwin ρ later next next' post r r')
    (hnext : Advance ρ P store store' later next next') :
    ResultsTwin ρ P store store' post r r' := by
  cases h with
  | ok last hlast hpost => exact .ok last (hnext.trans hlast) hpost
  | error last hlast hhalt => exact .error last (hnext.trans hlast) hhalt

/-- Computations in sequence: the second ones start from what the first ones establish. -/
theorem Tandem.bind {x x' : EvalM α} {f f' : α → EvalM β} {middle : Pairing → α → α → Prop}
    {post : Pairing → β → β → Prop} (hx : Tandem ρ P middle x x' store store')
    (hf : ∀ later value value' next next', Advance ρ P store store' later next next' →
      middle later value value' → Tandem ρ later post (f value) (f' value') next next') :
    Tandem ρ P post (x >>= f) (x' >>= f') store store' := by
  unfold Tandem at hx ⊢
  generalize hresult : x store = r at hx
  generalize hresult' : x' store' = r' at hx
  cases hx with
  | @ok value value' next next' later hnext hmiddle =>
    rw [bind_of_ok hresult, bind_of_ok hresult']
    have hrest := hf later value value' next next' hnext hmiddle
    exact ResultsTwin.since hrest hnext
  | error later hnext hhalt =>
    rw [bind_of_error hresult, bind_of_error hresult']
    exact .error later hnext hhalt

/-- What computations establish may be weakened. -/
theorem Tandem.mono {x x' : EvalM α} {post post' : Pairing → α → α → Prop}
    (hx : Tandem ρ P post x x' store store')
    (himp : ∀ later value value', P.Grows later → post later value value' →
      post' later value value') : Tandem ρ P post' x x' store store' := by
  unfold Tandem at hx ⊢
  generalize x store = r at hx ⊢
  generalize x' store' = r' at hx ⊢
  cases hx with
  | ok later hnext hpost => exact .ok later hnext (himp later _ _ hnext.grows hpost)
  | error later hnext hhalt => exact .error later hnext hhalt

/-- The environments in force before may be put back on both sides. -/
theorem Advance.restore {later : Pairing} {next next' : Store} {env env' : Env}
    (h : Advance ρ P { store with current := env } { store' with current := env' } later
      next next') :
    Advance ρ P store store' later { next with current := store.current }
      { next' with current := store'.current } :=
  ⟨h.grows, h.twin.withCurrent _ _, rfl, rfl⟩

/-- Computations in other environments run in tandem if they do so there. -/
theorem Tandem.within {env env' : Env} {x x' : EvalM α} {post : Pairing → α → α → Prop}
    (hx : Tandem ρ P post x x' { store with current := env } { store' with current := env' }) :
    Tandem ρ P post (Treewalk.within env x) (Treewalk.within env' x') store store' := by
  unfold Tandem at hx ⊢
  generalize hresult : x { store with current := env } = r at hx
  generalize hresult' : x' { store' with current := env' } = r' at hx
  cases hx with
  | ok later hnext hpost =>
    rw [within_of_ok hresult, within_of_ok hresult']
    exact .ok later hnext.restore hpost
  | error later hnext hhalt =>
    rw [within_of_error hresult, within_of_error hresult']
    exact .error later hnext.restore hhalt

/-- If one computation is ended by a `return`, so is the other. -/
theorem Tandem.catchReturn {x x' : EvalM Unit} {post : Pairing → Unit → Unit → Prop}
    (hx : Tandem ρ P post x x' store store') :
    Tandem ρ P (fun later => Option.Rel (Value.Twin ρ later)) (Treewalk.catchReturn x)
      (Treewalk.catchReturn x') store store' := by
  unfold Tandem Treewalk.catchReturn at *
  generalize x store = r at hx ⊢
  generalize x' store' = r' at hx ⊢
  cases hx with
  | ok later hnext _ => exact .ok later hnext .none
  | error later hnext hhalt =>
    cases hhalt with
    | returned hvalue => exact .ok later hnext (.some hvalue)
    | failed herror => exact .error later hnext (.failed herror)
    | fault fault => exact .error later hnext (.fault fault)
    | stackExhausted => exact .error later hnext .stackExhausted
    | loopExhausted => exact .error later hnext .loopExhausted

/-- Loops run in tandem if their conditions and bodies do, whenever a round can start. -/
theorem Tandem.whileTrue {limit : Nat} {condition condition' : EvalM Bool}
    {body body' : EvalM Unit} (h : store.Twin ρ P store')
    (hcondition : ∀ later next next', Advance ρ P store store' later next next' →
      Tandem ρ later (fun _ goesOn goesOn' => goesOn' = goesOn) condition condition' next next')
    (hbody : ∀ later next next', Advance ρ P store store' later next next' →
      Tandem ρ later (fun _ _ _ => True) body body' next next') :
    Tandem ρ P (fun _ _ _ => True) (Treewalk.whileTrue limit condition body)
      (Treewalk.whileTrue limit condition' body') store store' := by
  induction limit generalizing P store store' with
  | zero => exact Tandem.throw h .loopExhausted
  | succ limit ih =>
    rw [Treewalk.whileTrue, Treewalk.whileTrue]
    refine (hcondition P store store' (.refl h)).bind ?_
    intro later goesOn goesOn' next next' hnext hsame
    subst hsame
    cases goesOn' with
    | false => exact Tandem.pure hnext.twin trivial
    | true =>
      refine (hbody later next next' hnext).bind fun last _ _ final final' hfinal _ => ?_
      -- the next round starts from a later moment, in the same environments
      have hsince := hnext.trans hfinal
      exact ih hfinal.twin (fun _ _ _ hround => hcondition _ _ _ (hsince.trans hround))
        (fun _ _ _ hround => hbody _ _ _ (hsince.trans hround))

/-! ### Scopes of their own -/

/-- A computation in a new scope inside the environment in force. -/
def inScope (origin : ScopeOrigin) (x : EvalM α) : EvalM α := do
  let env ← openScope (← get).current origin
  within env x

/-- The store as `inScope` leaves it to its computation. -/
def Store.enter (store : Store) (origin : ScopeOrigin) : Store :=
  { store with
    scopes := (store.scopes.add origin).2
    current := store.current.push store.scopes.cells.size }

theorem inScope_of_ok {origin : ScopeOrigin} {x : EvalM α} {value : α} {later : Store}
    (h : x (store.enter origin) = .ok value later) :
    inScope origin x store = .ok value { later with current := store.current } :=
  within_of_ok h

theorem inScope_of_error {origin : ScopeOrigin} {x : EvalM α} {halt : Halt} {later : Store}
    (h : x (store.enter origin) = .error halt later) :
    inScope origin x store = .error halt { later with current := store.current } :=
  within_of_error h

/-- Only the first computation runs in a scope of its own. -/
theorem Tandem.inFirst {origin : ScopeOrigin} {x x' : EvalM α} {post : Pairing → α → α → Prop}
    (hx : Tandem ρ P post x x' (store.enter origin) store') :
    Tandem ρ P post (inScope origin x) x' store store' := by
  unfold Tandem at hx ⊢
  generalize hresult : x (store.enter origin) = r at hx
  generalize x' store' = r' at hx ⊢
  cases hx with
  -- only the first environment is put back; the second one was in force all along
  | ok later hnext hpost =>
    rw [inScope_of_ok hresult]
    exact .ok later ⟨hnext.grows, hnext.twin.withCurrent _ _, rfl, hnext.current'⟩ hpost
  | error later hnext hhalt =>
    rw [inScope_of_error hresult]
    exact .error later ⟨hnext.grows, hnext.twin.withCurrent _ _, rfl, hnext.current'⟩ hhalt

/-- Only the second computation runs in a scope of its own. -/
theorem Tandem.inSecond {origin : ScopeOrigin} {x x' : EvalM α} {post : Pairing → α → α → Prop}
    (hx : Tandem ρ P post x x' store (store'.enter origin)) :
    Tandem ρ P post x (inScope origin x') store store' := by
  unfold Tandem at hx ⊢
  generalize x store = r at hx ⊢
  generalize hresult : x' (store'.enter origin) = r' at hx
  cases hx with
  | ok later hnext hpost =>
    rw [inScope_of_ok hresult]
    exact .ok later ⟨hnext.grows, hnext.twin.withCurrent _ _, hnext.current, rfl⟩ hpost
  | error later hnext hhalt =>
    rw [inScope_of_error hresult]
    exact .error later ⟨hnext.grows, hnext.twin.withCurrent _ _, hnext.current, rfl⟩ hhalt

/-- The pairing after both stores have opened a scope. -/
def Pairing.enter (P : Pairing) (store store' : Store) (marked : Bool) : Pairing :=
  P.add store.scopes.cells.size store'.scopes.cells.size marked

theorem Pairing.grows_enter (P : Pairing) (store store' : Store) (marked : Bool) :
    P.Grows (P.enter store store' marked) :=
  P.grows_add _ _ marked

/-- Both computations run in a scope of their own, and these are the same. -/
theorem Tandem.inBoth {origin origin' : ScopeOrigin} {x x' : EvalM α}
    {post : Pairing → α → α → Prop} (marked : Bool)
    (hx : Tandem ρ (P.enter store store' marked) post x x' (store.enter origin)
      (store'.enter origin')) :
    Tandem ρ P post (inScope origin x) (inScope origin' x') store store' := by
  have hgrows := P.grows_enter store store' marked
  unfold Tandem at hx ⊢
  generalize hresult : x (store.enter origin) = r at hx
  generalize hresult' : x' (store'.enter origin') = r' at hx
  cases hx with
  | ok later hnext hpost =>
    rw [inScope_of_ok hresult, inScope_of_ok hresult']
    exact .ok later ⟨hgrows.trans hnext.grows, hnext.twin.withCurrent _ _, rfl, rfl⟩ hpost
  | error later hnext hhalt =>
    rw [inScope_of_error hresult, inScope_of_error hresult']
    exact .error later ⟨hgrows.trans hnext.grows, hnext.twin.withCurrent _ _, rfl, rfl⟩ hhalt

theorem Store.Twin.enterFirst (h : store.Twin ρ P store') (origin : ScopeOrigin) :
    (store.enter origin).Twin ρ P store' :=
  (h.addFirst origin).withCurrent _ _

theorem Store.Twin.enterSecond (h : store.Twin ρ P store') (origin : ScopeOrigin) :
    store.Twin ρ P (store'.enter origin) :=
  (h.addSecond origin).withCurrent _ _

theorem Store.Twin.enterBoth (h : store.Twin ρ P store') (origin origin' : ScopeOrigin)
    (marked : Bool) :
    (store.enter origin).Twin ρ (P.enter store store' marked) (store'.enter origin') :=
  (h.addBoth origin origin' marked).withCurrent _ _

/-- In the scopes that both have entered, the new one is at distance zero. -/
theorem Pairing.Aligned.enterBoth
    (h : P.Aligned links store.current.chain store'.current.chain) (origin origin' : ScopeOrigin)
    (marked : Bool) :
    (P.enter store store' marked).Aligned (links.enter marked) (store.enter origin).current.chain
      (store'.enter origin').current.chain :=
  (h.mono (P.grows_enter store store' marked)).enter (P.add_self _ _ marked)

/-! ### Operations on the store -/

theorem tandem_freshId (h : store.Twin ρ P store') :
    Tandem ρ P (fun _ id id' => id' = id) freshId freshId store store' :=
  .ok P ⟨.refl P, { h with nextId := congrArg (· + 1) h.nextId }, rfl, rfl⟩ h.nextId

theorem tandem_readClock (h : store.Twin ρ P store') :
    Tandem ρ P (fun _ now now' => now' = now) readClock readClock store store' :=
  .ok P ⟨.refl P, { h with time := congrArg Clock.later h.time }, rfl, rfl⟩
    (congrArg (Clock.readings · 0) h.time)

theorem tandem_printLine (h : store.Twin ρ P store') (line : String) :
    Tandem ρ P (fun _ _ _ => True) (printLine line) (printLine line) store store' :=
  .ok P ⟨.refl P, { h with printed := congrArg (·.push line) h.printed }, rfl, rfl⟩ trivial

/-- Two environments inside two others, by one scope that is the same. -/
structure Pairing.Opens (P : Pairing) (marked : Bool) (env env' inner inner' : Env) : Prop where
  scope : P inner.scope inner'.scope marked
  enclosing : inner.enclosing = env.chain
  enclosing' : inner'.enclosing = env'.chain

theorem Pairing.Opens.mono {later : Pairing} {marked : Bool} {env env' inner inner' : Env}
    (h : P.Opens marked env env' inner inner') (hgrows : P.Grows later) :
    later.Opens marked env env' inner inner' :=
  ⟨hgrows h.scope, h.enclosing, h.enclosing'⟩

theorem Pairing.Opens.aligned {marked : Bool} {env env' inner inner' : Env}
    (h : P.Opens marked env env' inner inner') (haligned : P.Aligned links env.chain env'.chain) :
    P.Aligned (links.enter marked) inner.chain inner'.chain := by
  rw [Env.chain, Env.chain, h.enclosing, h.enclosing']
  exact haligned.enter h.scope

/-- The innermost scopes are the same where distance zero is linked to itself. -/
theorem Pairing.Aligned.here {marked : Bool} {env env' : Env}
    (h : P.Aligned links env.chain env'.chain) (hhere : links 0 0 marked) :
    P env.scope env'.scope marked := by
  cases h hhere with
  | some hpair => exact hpair

theorem tandem_openScope (h : store.Twin ρ P store') (env env' : Env)
    (origin origin' : ScopeOrigin) (marked : Bool) :
    Tandem ρ P (fun later inner inner' => later.Opens marked env env' inner inner')
      (openScope env origin) (openScope env' origin') store store' :=
  .ok (P.enter store store' marked)
    ⟨P.grows_enter store store' marked, h.addBoth origin origin' marked, rfl, rfl⟩
    ⟨P.add_self _ _ marked, rfl, rfl⟩

theorem tandem_defineAt (h : store.Twin ρ P store') {id id' : ScopeId} {marked : Bool}
    (hpair : P id id' marked) {name name' : String} (hname : ρ.Names marked name name')
    {value value' : Value} (hvalue : value.Twin ρ P value') :
    Tandem ρ P (fun _ _ _ => True) (defineAt id name value) (defineAt id' name' value')
      store store' :=
  .ok P ⟨.refl P, h.define hpair hname hvalue, rfl, rfl⟩ trivial

/-- Declaring names that correspond in the scopes in force, which are the same. -/
theorem tandem_defineHere (h : store.Twin ρ P store')
    (haligned : P.Aligned links store.current.chain store'.current.chain) {marked : Bool}
    (hhere : links 0 0 marked) {name name' : String} (hname : ρ.Names marked name name')
    {value value' : Value} (hvalue : value.Twin ρ P value') :
    Tandem ρ P (fun _ _ _ => True) (defineHere name value) (defineHere name' value')
      store store' := by
  unfold defineHere
  refine Tandem.getBind ?_
  exact tandem_defineAt h (haligned.here hhere) hname hvalue

theorem tandem_setField (h : store.Twin ρ P store') {inst inst' : Instance}
    (hinst : inst'.id = inst.id) (name : String) {value value' : Value}
    (hvalue : value.Twin ρ P value') :
    Tandem ρ P (fun _ _ _ => True) (setField inst name value) (setField inst' name value')
      store store' := by
  unfold setField
  rw [hinst]
  exact .ok P ⟨.refl P, h.setField inst.id name hvalue, rfl, rfl⟩ trivial

theorem tandem_newInstance (h : store.Twin ρ P store') (cls cls' : Class) :
    Tandem ρ P (fun _ inst inst' => inst.cls = cls ∧ inst' = ⟨inst.id, cls'⟩)
      (newInstance cls) (newInstance cls') store store' :=
  .ok P ⟨.refl P, h.pushFields, rfl, rfl⟩ ⟨rfl, congrArg (Instance.mk · cls') h.fieldsSize⟩

/-! ### Names -/

/-- The values of names that correspond in paired scopes some steps outward. They may be looked up in
earlier stores than those in force. -/
theorem tandem_getAt {earlier : Pairing} {past past' : Store} (h : store.Twin ρ P store')
    (hpast : past.Twin ρ earlier past') (hgrows : earlier.Grows P) {env env' : Env}
    {hops hops' : Nat} {marked : Bool}
    (hreach : Option.Rel (earlier · · marked) env.chain[hops]? env'.chain[hops']?)
    {name name' : String} (hname : ρ.Names marked name name') :
    Tandem ρ P (Value.Twin ρ) (reaching (past.scopes.getAt env hops name))
      (reaching (past'.scopes.getAt env' hops' name')) store store' := by
  unfold Scopes.getAt
  -- both distances lead past the end of their chains, or both to scopes that are paired
  generalize hget : env.chain[hops]? = found at hreach
  generalize hget' : env'.chain[hops']? = found' at hreach
  cases hreach with
  | none =>
    rw [Scopes.reach_of_none hget, Scopes.reach_of_none hget']
    exact Tandem.throw h (.fault _)
  | @some id id' hpair =>
    rw [Scopes.reach_of_getElem? hget, Scopes.reach_of_getElem? hget']
    have hvalue := hpast.bindings hpair hname
    simp only [bind, Except.bind]
    generalize (past.scopes.bindings id).find? name = value at hvalue ⊢
    generalize (past'.scopes.bindings id').find? name' = value' at hvalue ⊢
    cases hvalue with
    | none => exact Tandem.throw h (.fault _)
    | some hvalue => exact Tandem.pure h (hvalue.mono hgrows)

theorem Scopes.find?_globals (scopes : Scopes) (name : String) :
    scopes.find? name globalEnv.chain = (scopes.bindings globalEnv.scope).find? name := by
  simp only [globalEnv, Env.chain, Scopes.find?]
  cases (scopes.bindings 0).find? name <;> rfl

theorem Scopes.holder?_globals (scopes : Scopes) (name : String) :
    scopes.holder? name globalEnv.chain =
      ((scopes.bindings globalEnv.scope).find? name).map fun _ => globalEnv.scope := by
  simp only [globalEnv, Env.chain, Scopes.holder?, List.find?_cons, Scopes.defines,
    Table.contains]
  cases (scopes.bindings 0).find? name <;> rfl

/-- The values of names that correspond, with bindings to the same scope. -/
theorem tandem_readName (h : store.Twin ρ P store')
    (haligned : P.Aligned links store.current.chain store'.current.chain) {name name' : String}
    {binding binding' : Binding} {marked : Bool} (hname : ρ.Names marked name name')
    (hbinding : binding.Twin links marked binding') {site site' : Site}
    (hplace : ρ.Places site site') :
    Tandem ρ P (Value.Twin ρ) (readName name binding site) (readName name' binding' site')
      store store' := by
  unfold readName
  refine Tandem.getBind ?_
  cases hbinding with
  | enclosing hlinks => exact tandem_getAt h h (.refl P) (haligned hlinks) hname
  | global =>
    -- a global keeps its name
    have hvalue := h.bindings h.globals hname
    obtain rfl := hname.eq
    simp only [Scopes.get]
    rw [Scopes.find?_globals, Scopes.find?_globals]
    generalize (store.scopes.bindings globalEnv.scope).find? name' = value at hvalue ⊢
    generalize (store'.scopes.bindings globalEnv.scope).find? name' = value' at hvalue ⊢
    cases hvalue with
    | none => exact Tandem.fail h rfl (hplace.map (RuntimeError.undefinedVariable name'))
    | some hvalue => exact Tandem.pure h hvalue

/-- Names that correspond, with bindings to the same scope, get their values there. -/
theorem tandem_targetScope (h : store.Twin ρ P store')
    (haligned : P.Aligned links store.current.chain store'.current.chain) {name name' : String}
    {binding binding' : Binding} {marked : Bool} (hname : ρ.Names marked name name')
    (hbinding : binding.Twin links marked binding') {site site' : Site}
    (hplace : ρ.Places site site') :
    Tandem ρ P (fun later id id' => later id id' marked) (targetScope name binding site)
      (targetScope name' binding' site') store store' := by
  unfold targetScope
  refine Tandem.getBind ?_
  cases hbinding with
  | @enclosing hops hops' _ hlinks =>
    have hreach := haligned hlinks
    simp only
    generalize hget : store.current.chain[hops]? = found at hreach
    generalize hget' : store'.current.chain[hops']? = found' at hreach
    cases hreach with
    | none =>
      rw [Scopes.reach_of_none hget, Scopes.reach_of_none hget']
      exact Tandem.throw h (.fault _)
    | some hpair =>
      rw [Scopes.reach_of_getElem? hget, Scopes.reach_of_getElem? hget']
      exact Tandem.pure h hpair
  | global =>
    have hvalue := h.bindings h.globals hname
    obtain rfl := hname.eq
    simp only
    rw [Scopes.holder?_globals, Scopes.holder?_globals]
    generalize (store.scopes.bindings globalEnv.scope).find? name' = value at hvalue ⊢
    generalize (store'.scopes.bindings globalEnv.scope).find? name' = value' at hvalue ⊢
    -- a global is given its value where it has one already
    cases hvalue with
    | none => exact Tandem.fail h rfl (hplace.map (RuntimeError.undefinedVariable name'))
    | some _ => exact Tandem.pure h h.globals

theorem tandem_writeName (h : store.Twin ρ P store')
    (haligned : P.Aligned links store.current.chain store'.current.chain) {name name' : String}
    {binding binding' : Binding} {marked : Bool} (hname : ρ.Names marked name name')
    (hbinding : binding.Twin links marked binding') {site site' : Site}
    (hplace : ρ.Places site site') {value value' : Value} (hvalue : value.Twin ρ P value') :
    Tandem ρ P (fun _ _ _ => True) (writeName name binding site value)
      (writeName name' binding' site' value') store store' := by
  rw [writeName_eq, writeName_eq]
  refine (tandem_targetScope h haligned hname hbinding hplace).bind ?_
  intro later id id' next next' hnext hpair
  exact tandem_defineAt hnext.twin hpair hname (hvalue.mono hnext.grows)

/-! ### Closures -/

/-- A function of both runs, made in environments that are aligned. -/
theorem tandem_newClosure (h : store.Twin ρ P store') (declaration declaration' : FunctionDecl)
    {env env' : Env} (haligned : P.Aligned links env.chain env'.chain) (initializer : Bool) :
    Tandem ρ P (fun later closure closure' => closure.TwinOver later links closure' ∧
        closure.declaration = declaration ∧ closure'.declaration = declaration' ∧
        closure.initializer = initializer)
      (newClosure declaration env initializer) (newClosure declaration' env' initializer)
      store store' := by
  refine (tandem_freshId h).bind fun later id id' next next' hnext hid => ?_
  exact Tandem.pure hnext.twin ⟨⟨hid, rfl, haligned.mono hnext.grows⟩, rfl, rfl, rfl⟩

/-- A method of both runs, bound to receivers that are twins. -/
theorem tandem_bindTo (h : store.Twin ρ P store') {closure closure' : Closure}
    (hmethod : closure.TwinMethods ρ P closure') {receiver receiver' : Value}
    (hreceiver : receiver.Twin ρ P receiver') :
    Tandem ρ P (Closure.Twin ρ) (closure.bindTo receiver) (closure'.bindTo receiver')
      store store' := by
  obtain ⟨links, hover, hdeclaration⟩ := hmethod
  unfold Closure.bindTo
  rw [hover.initializer]
  refine (tandem_openScope h closure.env closure'.env .receiver .receiver false).bind ?_
  intro later inner inner' next next' hnext hinner
  refine (tandem_defineAt hnext.twin hinner.scope (ρ.names_this false)
    (hreceiver.mono hnext.grows)).bind ?_
  intro last _ _ final final' hfinal _
  -- the scope of the receiver stands in front of those of the method, on both sides
  have hsince := hnext.grows.trans hfinal.grows
  have haligned := (hinner.mono hfinal.grows).aligned (hover.aligned.mono hsince)
  refine (tandem_newClosure hfinal.twin _ _ haligned closure.initializer).mono ?_
  intro latest bound bound' _ hbound
  obtain ⟨htwin, hsame, hsame', _⟩ := hbound
  refine ⟨links.enter false, htwin, ?_, fun _ => ⟨false, rfl⟩⟩
  rw [hsame, hsame']
  exact hdeclaration

end Treewalk
