import Treewalk.Proofs.Machine.Charting

/-!
# The course of a run

The course of a run is the list of its moments, in the order in which the run comes to them for the
first time. Every run has one, and the moments in it are those to which the run comes.

Two lists of the moments of a computation may differ in repetitions, but a watch finds the same
first in both. So what is known of one list, that each store in it extends those before it, is known
of the course.
-/

namespace Treewalk

/-- The moments of a run, in the order in which it comes to them for the first time. -/
structure Program.Course (rounds depth : Nat) (program : Program) (start : Store)
    (moments : List Moment) : Prop where
  follows : Follows (fun watch => program.execWatched watch rounds depth) start moments
  once : moments.Nodup

/-! ### What a watch finds first -/

namespace Watch

/-- A watch finds something at one of the moments. -/
theorem first_eq_some {watch : Watch} {moments : List Moment} {fault : Fault}
    (h : watch.first moments = some fault) :
    ∃ before moment after, moments = before ++ moment :: after ∧
      watch moment.1 moment.2 = some fault ∧
      ∀ earlier ∈ before, watch earlier.1 earlier.2 = none :=
  List.findSome?_eq_some_iff.mp h

theorem first_eq_none {watch : Watch} {moments : List Moment} :
    watch.first moments = none ↔ ∀ moment ∈ moments, watch moment.1 moment.2 = none :=
  List.findSome?_eq_none_iff

theorem single_self (moment : Moment) (fault : Fault) :
    single moment.1 moment.2 fault moment.1 moment.2 = some fault :=
  if_pos ⟨rfl, rfl⟩

theorem single_of_ne {moment other : Moment} (h : other ≠ moment) (fault : Fault) :
    single moment.1 moment.2 fault other.1 other.2 = none :=
  if_neg fun heq => h (Prod.ext heq.1 heq.2)

/-- The watch that marks two moments. -/
noncomputable def both (moment next : Moment) (fault fault' : Fault) : Watch := fun e store =>
  (single moment.1 moment.2 fault e store).or (single next.1 next.2 fault' e store)

theorem both_first (moment next : Moment) (fault fault' : Fault) :
    both moment next fault fault' moment.1 moment.2 = some fault := by
  rw [both, single_self, Option.some_or]

theorem both_second {moment next : Moment} (h : next ≠ moment) (fault fault' : Fault) :
    both moment next fault fault' next.1 next.2 = some fault' := by
  rw [both, single_of_ne h, single_self, Option.none_or]

theorem both_of_ne {moment next other : Moment} (h : other ≠ moment) (h' : other ≠ next)
    (fault fault' : Fault) : both moment next fault fault' other.1 other.2 = none := by
  rw [both, single_of_ne h, single_of_ne h', Option.none_or]

theorem first_single {moment : Moment} {moments : List Moment} (h : moment ∈ moments)
    (fault : Fault) : (single moment.1 moment.2 fault).first moments = some fault := by
  cases hfirst : (single moment.1 moment.2 fault).first moments with
  | none =>
    have := first_eq_none.mp hfirst moment h
    rw [single_self] at this
    cases this
  | some found =>
    obtain ⟨_, other, _, _, hfound, _⟩ := first_eq_some hfirst
    by_cases hother : other = moment
    · subst hother
      rw [single_self] at hfound
      exact hfound.symm
    · rw [single_of_ne hother] at hfound
      cases hfound

end Watch

/-! ### Courses of computations -/

/-- Not every fault is how a computation ended. -/
theorem exists_other_fault {α : Type} (r : EStateM.Result Halt Store α) :
    ∃ mark, ∀ last, r ≠ .error (.fault mark) last := by
  by_cases h : ∃ last, r = .error (.fault .unboundSuper) last
  · obtain ⟨last, rfl⟩ := h
    refine ⟨.superNotAClass, fun last h => ?_⟩
    cases h
  · exact ⟨.unboundSuper, fun last hlast => h ⟨last, hlast⟩⟩

namespace Follows

variable {α : Type} {x : Watch → EvalM α} {store : Store} {moments moments' : List Moment}

/-- If a watch finds nothing in one list of the moments of a computation, it finds nothing in any
other. -/
theorem first_eq_none (h : Follows x store moments) (h' : Follows x store moments') {watch : Watch}
    (hnone : watch.first moments = none) : watch.first moments' = none := by
  -- a watch that finds fault with the same moments but names one that is not how the run ended
  obtain ⟨mark, hmark⟩ := exists_other_fault (x .never store)
  let marking : Watch := fun e s => (watch e s).map fun _ => mark
  have hmarking : ∀ list, marking.first list = (watch.first list).map fun _ => mark :=
    fun _ => List.map_findSome?.symm
  cases hsome : watch.first moments' with
  | none => rfl
  | some fault =>
    exfalso
    have hnone : marking.first moments = none := by rw [hmarking, hnone]; rfl
    have hsome : marking.first moments' = some mark := by rw [hmarking, hsome]; rfl
    rcases h marking with ⟨_, hsame⟩ | ⟨_, _, hfirst, _⟩
    · rcases h' marking with ⟨hnone', _⟩ | ⟨fault, last, hfirst, hcalled⟩
      · rw [hsome] at hnone'
        cases hnone'
      · rw [hsome] at hfirst
        cases hfirst
        exact hmark last (hsame.symm.trans hcalled)
    · rw [hnone] at hfirst
      cases hfirst

/-- What a watch finds first is the same in all lists of the moments of a computation. -/
theorem first_eq (h : Follows x store moments) (h' : Follows x store moments') (watch : Watch) :
    watch.first moments = watch.first moments' := by
  rcases h watch with ⟨hnone, _⟩ | ⟨fault, last, hfirst, hcalled⟩
  · rw [hnone, h.first_eq_none h' hnone]
  · rcases h' watch with ⟨hnone, _⟩ | ⟨fault', last', hfirst', hcalled'⟩
    · rw [h'.first_eq_none h hnone, hnone]
    · have := hcalled.symm.trans hcalled'
      cases this
      rw [hfirst, hfirst']

theorem mem (h : Follows x store moments) (h' : Follows x store moments') {moment : Moment}
    (hmem : moment ∈ moments) : moment ∈ moments' := by
  have hfirst := (h.first_eq h' _).symm.trans (Watch.first_single hmem .unboundSuper)
  obtain ⟨_, other, _, rfl, hfound, _⟩ := Watch.first_eq_some hfirst
  by_cases hother : other = moment
  · subst hother
    exact List.mem_append_right _ List.mem_cons_self
  · rw [Watch.single_of_ne hother] at hfound
    cases hfound

/-- If a moment is listed before another one, then so it is in all lists of the moments of a
computation. -/
theorem before (h : Follows x store moments) (h' : Follows x store moments')
    {before after : List Moment} {moment next : Moment}
    (hsplit : moments = before ++ moment :: after) (hnew : moment ∉ before)
    (hnext : next ∈ after) (hnot : next ∉ before) (hne : next ≠ moment) :
    ∃ before' after', moments' = before' ++ moment :: after' ∧ next ∈ after' := by
  -- a watch for both finds the first of them
  let watch := Watch.both moment next .unboundSuper .superNotAClass
  have hfirst : watch.first moments = some .unboundSuper := by
    refine List.findSome?_eq_some_iff.mpr ⟨before, moment, after, hsplit,
      Watch.both_first moment next _ _, fun other hmem => ?_⟩
    exact Watch.both_of_ne (ne_of_mem_of_not_mem hmem hnew) (ne_of_mem_of_not_mem hmem hnot) _ _
  obtain ⟨before', other, after', hsplit', hfound, hearlier⟩ :=
    Watch.first_eq_some ((h.first_eq h' watch).symm.trans hfirst)
  have hother : other = moment := by
    refine Classical.byContradiction fun hother => ?_
    by_cases hsecond : other = next
    · subst hsecond
      cases (Watch.both_second hother _ _).symm.trans hfound
    · cases (Watch.both_of_ne hother hsecond _ _).symm.trans hfound
  subst hother
  refine ⟨before', after', hsplit', ?_⟩
  have hmem : next ∈ moments' := by
    refine h.mem h' ?_
    rw [hsplit]
    exact List.mem_append_right _ (List.mem_cons_of_mem _ hnext)
  rw [hsplit'] at hmem
  rcases List.mem_append.mp hmem with hmem | hmem
  · cases (Watch.both_second hne _ _).symm.trans (hearlier next hmem)
  · exact (List.mem_cons.mp hmem).resolve_left hne

/-- The moments of a computation can be listed without repetition. -/
theorem exists_nodup (h : Follows x store moments) :
    ∃ once : List Moment, once.Nodup ∧ Follows x store once := by
  -- by going through the moments, of which some are listed already
  have hlist : ∀ rest listed : List Moment, listed.Nodup →
      ∃ once : List Moment, once.Nodup ∧ ∀ watch : Watch,
        watch.first once = watch.first (listed ++ rest) := by
    intro rest
    induction rest with
    | nil => exact fun listed hlisted => ⟨listed, hlisted, fun _ => by rw [List.append_nil]⟩
    | cons moment rest ih =>
      intro listed hlisted
      by_cases hmem : moment ∈ listed
      · -- a watch that lets the listed moments pass lets this one pass again
        obtain ⟨once, honce, hfirst⟩ := ih listed hlisted
        refine ⟨once, honce, fun watch => ?_⟩
        rw [hfirst watch, Watch.first, Watch.first, List.findSome?_append, List.findSome?_append]
        cases hnone : listed.findSome? fun moment => watch moment.1 moment.2 with
        | some fault => rw [Option.some_or, Option.some_or]
        | none => rw [List.findSome?_cons, List.findSome?_eq_none_iff.mp hnone moment hmem]
      · obtain ⟨once, honce, hfirst⟩ := ih (listed ++ [moment]) (by
          refine List.nodup_append.mpr ⟨hlisted, List.pairwise_singleton _ moment, ?_⟩
          rintro other hother _ hmoment rfl
          exact hmem (List.mem_singleton.mp hmoment ▸ hother))
        refine ⟨once, honce, fun watch => ?_⟩
        rw [hfirst watch, List.append_assoc, List.singleton_append]
  obtain ⟨once, honce, hfirst⟩ := hlist moments [] List.nodup_nil
  refine ⟨once, honce, fun watch => ?_⟩
  rw [hfirst watch, List.nil_append]
  exact h watch

end Follows

/-- A passage goes along any list of the moments, if it is without repetition. -/
theorem Passage.of_follows {α : Type} {x : Watch → EvalM α} {chart chart' : Chart}
    {store later : Store} {moments once : List Moment}
    (h : Passage chart store moments chart' later) (hmoments : Follows x store moments)
    (honce : Follows x store once) (hnodup : once.Nodup) :
    Passage chart store once chart' later where
  onward := h.onward
  covers := h.covers
  between moment hmem := h.between moment (honce.mem hmoments hmem)
  ordered := by
    -- by induction on what is left of the list, after a part that went before
    have hordered : ∀ rest before, once = before ++ rest →
        rest.Pairwise fun moment next => moment.2.Extends next.2 := by
      intro rest
      induction rest with
      | nil => exact fun _ _ => .nil
      | cons moment rest ih =>
        intro before hsplit
        have hparts := List.nodup_append.mp (hsplit ▸ hnodup)
        have hcons := List.nodup_cons.mp hparts.2.1
        refine List.pairwise_cons.mpr ⟨fun next hnext => ?_,
          ih (before ++ [moment]) (hsplit.trans (List.append_cons before moment rest))⟩
        obtain ⟨before', after', hsplit', hnext'⟩ := honce.before hmoments hsplit
          (fun hmem => hparts.2.2 moment hmem moment List.mem_cons_self rfl) hnext
          (fun hmem => hparts.2.2 next hmem next (List.mem_cons_of_mem _ hnext) rfl)
          (ne_of_mem_of_not_mem hnext hcons.1)
        have hpairs := h.ordered
        rw [hsplit'] at hpairs
        exact (List.pairwise_cons.mp (List.pairwise_append.mp hpairs).2.1).1 next hnext'
    exact hordered once [] rfl

/-! ### Courses of runs -/

namespace Program

variable {program : Program} {rounds depth : Nat} {start : Store}

/-- The moments in the course of a run are those to which the run comes. -/
theorem Course.mem_iff {moments : List Moment} (h : Course rounds depth program start moments)
    (e : Expr) (store : Store) :
    (e, store) ∈ moments ↔ program.Evaluates rounds depth start e store := by
  constructor
  · intro hmem fault
    rcases h.follows (.single e store fault) with ⟨hnone, _⟩ | ⟨found, last, hfirst, hcalled⟩
    · rw [Watch.first_single hmem fault] at hnone
      cases hnone
    · rw [Watch.first_single hmem fault] at hfirst
      cases hfirst
      exact ⟨last, hcalled⟩
  · intro hmoment
    refine Classical.byContradiction fun hnot => ?_
    obtain ⟨mark, hmark⟩ := exists_other_fault (program.execWatched .never rounds depth start)
    obtain ⟨last, hlast⟩ := hmoment mark
    -- a watch for a moment that is not listed finds nothing, so it cannot call off the run
    rcases h.follows (.single e store mark) with ⟨_, hsame⟩ | ⟨found, _, hfirst, _⟩
    · exact hmark last (hsame.symm.trans hlast)
    · obtain ⟨_, other, _, hsplit, hfound, _⟩ := Watch.first_eq_some hfirst
      have hother : other ≠ (e, store) := by
        rintro rfl
        exact hnot (hsplit ▸ List.mem_append_right _ List.mem_cons_self)
      cases (Watch.single_of_ne hother mark).symm.trans hfound

/-- Every run has a course, from any store that a chart covers. -/
theorem exists_course {chart : Chart} (h : chart.Covers start) (program : Program)
    (rounds depth : Nat) : ∃ moments, Course rounds depth program start moments := by
  have hfollows : ∃ moments,
      Follows (fun watch => program.execWatched watch rounds depth) start moments := by
    cases program.charted_execWatched h rounds depth with
    | ok _ _ _ hfollows => exact ⟨_, hfollows⟩
    | error _ _ _ hfollows => exact ⟨_, hfollows⟩
  obtain ⟨_, hfollows⟩ := hfollows
  obtain ⟨once, hnodup, honce⟩ := hfollows.exists_nodup
  exact ⟨once, honce, hnodup⟩

end Program

end Treewalk
