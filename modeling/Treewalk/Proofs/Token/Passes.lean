import Treewalk.Proofs.Token.Join

/-!
# Passes over a text

All passes of a scanner move one cursor, queue tokens in one list and note errors in another, so a
pass that was left alone half way leaves them anywhere. Still, every pass starts clean: its first
request begins at the start of the text, with nothing queued and no errors. From then on, as long as
no other pass is asked for tokens, the pass gives the tokens of the text one by one, and the errors
noted are those found before them.
-/

namespace Treewalk

namespace Scanner

/-! ### Pulling tokens -/

/-- What a scanner has before it. -/
def ahead (s : Scanner) : List ScanItem × Cursor := s.cursor.scanAll s.file

/-- The scanner after it went on to a cursor and noted errors on the way. -/
def moved (s : Scanner) (cursor : Cursor) (noted : List LexicalError) : Scanner :=
  { s with cursor, errors := s.errors ++ noted }

theorem moved_moved (s : Scanner) (cursor cursor' : Cursor) (noted noted' : List LexicalError) :
    (s.moved cursor noted).moved cursor' noted' = s.moved cursor' (noted ++ noted') := by
  simp only [moved, List.append_assoc]

theorem pull_of_pending {s : Scanner} {t : Token} {others : List Token}
    (h : s.pending = t :: others) : s.pull = (some t, { s with pending := others }) := by
  rw [pull, h]

theorem ahead_of_take?_eq_none {s : Scanner} (h : s.take? = none) : s.ahead = ([], s.cursor) := by
  apply Cursor.scanAll_of_step_eq_none
  unfold take? at h
  cases hstep : s.cursor.step s.file with
  | none => rfl
  | some found =>
    rw [hstep] at h
    cases h

/-- Taking a lexeme notes an error, queues a token or passes over a gap. -/
theorem cases_of_take? {s later : Scanner} (hpending : s.pending = []) (h : s.take? = some later) :
    (∃ noted cursor, later = s.moved cursor noted ∧
      s.ahead = (noted.map .error ++ later.ahead.1, later.ahead.2)) ∨
    ∃ token cursor, later = { s.moved cursor [] with pending := [token] } ∧
      s.ahead = (.token token :: later.ahead.1, later.ahead.2) := by
  unfold take? at h
  cases hstep : s.cursor.step s.file with
  | none =>
    rw [hstep] at h
    cases h
  | some found =>
    obtain ⟨item, stop⟩ := found
    have hahead := Cursor.scanAll_of_step hstep
    rw [hstep, hpending] at h
    obtain rfl := Option.some.inj h
    cases item with
    | none => exact .inl ⟨[], stop, by simp [moved, hpending], hahead⟩
    | some item =>
      cases item with
      | token t => exact .inr ⟨t, stop, by simp [moved, ScanItem.token?, ScanItem.error?], hahead⟩
      | error e =>
        exact .inl ⟨[e], stop, by simp [moved, ScanItem.token?, ScanItem.error?, hpending], hahead⟩

/-- What is pulled from a scanner that has nothing queued: the first token ahead, with the errors
before it noted, or nothing, and then the text has ended and all errors are noted. -/
theorem pull_eq {s : Scanner} (h : s.pending = []) :
    (∃ noted, s.ahead.1 = noted.map .error ∧ s.pull = (none, s.moved s.ahead.2 noted)) ∨
    ∃ noted token cursor, s.pull = (some token, s.moved cursor noted) ∧
      s.ahead = (noted.map .error ++ .token token :: (s.moved cursor noted).ahead.1,
        (s.moved cursor noted).ahead.2) := by
  fun_induction Scanner.pull s with
  | case1 s t others hpending =>
    rw [hpending] at h
    cases h
  | case2 s _ htake =>
    have hahead := ahead_of_take?_eq_none htake
    refine .inl ⟨[], ?_, ?_⟩
    · rw [hahead]
      rfl
    · rw [hahead, moved, List.append_nil]
  | case3 s hpending later htake _ ih =>
    rcases cases_of_take? hpending htake with
      ⟨noted, cursor, rfl, hahead⟩ | ⟨token, cursor, rfl, hahead⟩
    · rcases ih hpending with ⟨others, hitems, hpull⟩ | ⟨others, token, cursor', hpull, hitems⟩
      · refine .inl ⟨noted ++ others, ?_, ?_⟩
        · rw [hahead, hitems, List.map_append]
        · rw [hpull, hahead, moved_moved]
      · refine .inr ⟨noted ++ others, token, cursor', ?_, ?_⟩
        · rw [hpull, moved_moved]
        · rw [moved_moved] at hitems
          rw [hahead, hitems, List.map_append, List.append_assoc]
    · -- the token that was queued is given away at once
      have hgiven : { ({ s.moved cursor [] with pending := [token] } : Scanner) with
          pending := [] } = s.moved cursor [] := by
        rw [moved, hpending]
      refine .inr ⟨[], token, cursor, ?_, hahead⟩
      rw [pull_of_pending rfl, hgiven]

/-- The scanner at the end of its text. -/
def exhausted (s : Scanner) : Scanner :=
  s.moved s.ahead.2 (s.ahead.1.filterMap ScanItem.error?)

theorem filterMap_token?_error (noted : List LexicalError) :
    (noted.map ScanItem.error).filterMap ScanItem.token? = [] := by
  rw [List.filterMap_map]
  exact List.filterMap_eq_nil_iff.mpr fun _ _ => rfl

theorem filterMap_error?_error (noted : List LexicalError) :
    (noted.map ScanItem.error).filterMap ScanItem.error? = noted := by
  rw [List.filterMap_map]
  exact List.filterMap_some

/-- What a pass on its way gives next: the first token ahead, or the one that ends the text. -/
theorem next_running_eq {s : Scanner} (h : s.pending = []) :
    (s.ahead.1.filterMap ScanItem.token? = [] ∧
      s.next .running = (some (s.ahead.2.endToken s.file), .finished, s.exhausted)) ∨
    ∃ noted token cursor, s.next .running = (some token, .running, s.moved cursor noted) ∧
      s.ahead = (noted.map .error ++ .token token :: (s.moved cursor noted).ahead.1,
        (s.moved cursor noted).ahead.2) := by
  rcases pull_eq h with ⟨noted, hitems, hpull⟩ | ⟨noted, token, cursor, hpull, hahead⟩
  · refine .inl ⟨by rw [hitems, filterMap_token?_error], ?_⟩
    simp only [next, hpull, exhausted, hitems, filterMap_error?_error]
    rfl
  · refine .inr ⟨noted, token, cursor, ?_, hahead⟩
    simp only [next, hpull]

/-! ### Passes token by token -/

/-- A pass gives these tokens when it is asked for one after another until it has none left, and
leaves the scanner so. -/
inductive Yields : Scanner → Pass → List Token → Scanner → Prop where
  | done {s later : Scanner} {pass ended : Pass} (h : s.next pass = (none, ended, later)) :
    Yields s pass [] later
  | more {s later last : Scanner} {pass pass' : Pass} {token : Token} {tokens : List Token}
    (h : s.next pass = (some token, pass', later)) (hrest : Yields later pass' tokens last) :
    Yields s pass (token :: tokens) last

/-- A pass on its way gives the tokens ahead and then the one that ends the text. -/
theorem yields_running {tokens : List Token} {s : Scanner} (hpending : s.pending = [])
    (h : s.ahead.1.filterMap ScanItem.token? = tokens) :
    s.Yields .running (tokens ++ [s.ahead.2.endToken s.file]) s.exhausted := by
  induction tokens generalizing s with
  | nil =>
    rcases next_running_eq hpending with ⟨_, hnext⟩ | ⟨noted, token, cursor, _, hahead⟩
    · exact .more hnext (.done rfl)
    · rw [hahead, List.filterMap_append, filterMap_token?_error] at h
      cases h
  | cons token tokens ih =>
    rcases next_running_eq hpending with ⟨hnone, _⟩ | ⟨noted, first, cursor, hnext, hahead⟩
    · rw [hnone] at h
      cases h
    · have hexhausted : (s.moved cursor noted).exhausted = s.exhausted := by
        rw [exhausted, moved_moved, exhausted, hahead, List.filterMap_append,
          filterMap_error?_error]
        rfl
      rw [hahead, List.filterMap_append, filterMap_token?_error] at h
      obtain ⟨rfl, hrest⟩ := List.cons.inj h
      have hlater := ih (s := s.moved cursor noted) hpending hrest
      rw [hexhausted] at hlater
      rw [hahead]
      exact .more hnext hlater

/-- Asked for one token after another, a fresh pass gives what a pass at once gives, and notes the
same errors. -/
theorem yields_tokenize (s : Scanner) : s.Yields .untouched s.tokenize.1 s.tokenize.2 := by
  have hrunning : s.restart.Yields .running s.tokenize.1 s.tokenize.2 :=
    yields_running rfl rfl
  -- the first request starts again, and from there on the pass is like one on its way
  have hnext : s.next .untouched = s.restart.next .running := rfl
  generalize s.tokenize.1 = tokens at hrunning ⊢
  generalize s.tokenize.2 = last at hrunning ⊢
  cases hrunning with
  | done h => exact .done (hnext.trans h)
  | more h hrest => exact .more (hnext.trans h) hrest

end Scanner

/-! ### How far a pass has come -/

/-- The errors found before the token with a number, in order. They are all errors, if there are not
so many tokens. -/
def errorsBefore : Nat → List ScanItem → List LexicalError
  | _, [] => []
  | k, .error e :: items => e :: errorsBefore k items
  | 0, .token _ :: _ => []
  | k + 1, .token _ :: items => errorsBefore k items

theorem errorsBefore_append (k : Nat) (before after : List ScanItem) :
    errorsBefore ((before.filterMap ScanItem.token?).length + k) (before ++ after) =
      before.filterMap ScanItem.error? ++ errorsBefore k after := by
  induction before with
  | nil => simp
  | cons item before ih =>
    cases item with
    | token t =>
      have hcount : ((ScanItem.token t :: before).filterMap ScanItem.token?).length + k =
          (before.filterMap ScanItem.token?).length + k + 1 := by
        simp only [List.filterMap_cons, ScanItem.token?, List.length_cons]
        omega
      rw [hcount]
      exact ih
    | error e => exact congrArg (e :: ·) ih

theorem errorsBefore_token (noted : List LexicalError) (token : Token) (after : List ScanItem) :
    errorsBefore 0 (noted.map .error ++ .token token :: after) = noted := by
  have happend := errorsBefore_append 0 (noted.map .error) (.token token :: after)
  rw [Scanner.filterMap_token?_error, Scanner.filterMap_error?_error] at happend
  exact happend.trans (List.append_nil noted)

/-- Behind the last token all errors have been found. -/
theorem errorsBefore_of_le {k : Nat} {items : List ScanItem}
    (h : (items.filterMap ScanItem.token?).length ≤ k) :
    errorsBefore k items = items.filterMap ScanItem.error? := by
  have happend := errorsBefore_append (k - (items.filterMap ScanItem.token?).length) items []
  rw [Nat.add_sub_cancel' h, List.append_nil] at happend
  simpa [errorsBefore] using happend

theorem errorsBefore_prefix (k : Nat) (items : List ScanItem) :
    errorsBefore k items <+: items.filterMap ScanItem.error? := by
  fun_induction errorsBefore k items with
  | case1 => exact List.prefix_refl _
  | case2 k e items ih => exact List.cons_prefix_cons.mpr ⟨rfl, ih⟩
  | case3 => exact List.nil_prefix
  | case4 k t items ih => exact ih

namespace Scanner

variable {file : Int} {text : String} {s : Scanner} {k : Nat}

/-- A scanner of a text. -/
structure Over (file : Int) (text : String) (s : Scanner) : Prop where
  file_eq : s.file = file
  text_eq : s.text = text.toList

/-- A pass on its way that has given a number of tokens: nothing is queued, what was found so far
and what is ahead make up the text, and the errors among what was found are noted. -/
structure Underway (file : Int) (text : String) (k : Nat) (s : Scanner) : Prop where
  file_eq : s.file = file
  pending : s.pending = []
  found : ∃ before, (scan file text).items = before ++ s.ahead.1 ∧
    (before.filterMap ScanItem.token?).length = k ∧ s.errors = before.filterMap ScanItem.error?
  ending : s.ahead.2.endToken file = (scan file text).endToken

/-- How far a pass has come that was asked for a number of tokens, and the scanner it leaves, if no
other pass was asked since the scanner was as it was at the start. -/
inductive Stage (file : Int) (text : String) (start : Scanner) : Nat → Pass → Scanner → Prop where
  | untouched : Stage file text start 0 .untouched start
  | running {k : Nat} {s : Scanner} (h : s.Underway file text (k + 1)) :
    Stage file text start (k + 1) .running s
  | finished {k : Nat} {s : Scanner} (hk : (scan file text).tokens.length ≤ k)
    (herrors : s.errors = (scan file text).errors) : Stage file text start (k + 1) .finished s

/-- The first request of a pass starts clean. -/
theorem Over.underway_restart (h : s.Over file text) : s.restart.Underway file text 0 := by
  have hahead : s.restart.ahead = Cursor.scanAll file ⟨text.toList, 0, 1, 0⟩ := by
    simp only [ahead, restart, h.file_eq, h.text_eq]
  refine ⟨h.file_eq, rfl, ⟨[], ?_, rfl, rfl⟩, ?_⟩
  · rw [hahead]
    rfl
  · rw [hahead]
    rfl

/-- What a pass on its way gives next, and how far it has come then. -/
theorem Underway.next (h : s.Underway file text k) (start : Scanner) :
    (s.next .running).1 = (scan file text).allTokens[k]? ∧
      (s.next .running).2.2.errors = errorsBefore k (scan file text).items ∧
      Stage file text start (k + 1) (s.next .running).2.1 (s.next .running).2.2 := by
  obtain ⟨before, hitems, hcount, herrors⟩ := h.found
  have htokens : (scan file text).tokens =
      before.filterMap ScanItem.token? ++ s.ahead.1.filterMap ScanItem.token? := by
    rw [Scan.tokens, hitems, List.filterMap_append]
  have hbefore : errorsBefore k (scan file text).items = s.errors ++ errorsBefore 0 s.ahead.1 := by
    rw [hitems, herrors, ← errorsBefore_append, hcount, Nat.add_zero]
  rcases next_running_eq h.pending with ⟨hnone, hnext⟩ | ⟨noted, token, cursor, hnext, hahead⟩
  · have hlength : (scan file text).tokens.length = k := by
      rw [htokens, hnone, List.append_nil, hcount]
    have hlater : s.exhausted.errors = errorsBefore k (scan file text).items := by
      rw [hbefore, errorsBefore_of_le (by rw [hnone]; exact Nat.le_refl 0)]
      rfl
    rw [hnext]
    refine ⟨?_, hlater, .finished (Nat.le_of_eq hlength) ?_⟩
    · rw [Scan.allTokens, ← hlength, List.getElem?_concat_length, ← h.ending, h.file_eq]
    · rw [hlater, errorsBefore_of_le (Nat.le_of_eq hlength)]
      rfl
  · have hitems' : (scan file text).items =
        (before ++ noted.map .error ++ [.token token]) ++ (s.moved cursor noted).ahead.1 := by
      rw [hitems, hahead]
      simp
    rw [hnext]
    refine ⟨?_, ?_, .running ⟨h.file_eq, h.pending, ⟨_, hitems', ?_, ?_⟩, ?_⟩⟩
    · rw [Scan.allTokens, htokens, hahead, List.filterMap_append, Scanner.filterMap_token?_error,
        ← hcount]
      simp [ScanItem.token?]
    · rw [hbefore, hahead, errorsBefore_token]
      rfl
    · rw [List.filterMap_append, List.filterMap_append, filterMap_token?_error, ← hcount]
      simp [ScanItem.token?]
    · rw [List.filterMap_append, List.filterMap_append, filterMap_error?_error, ← herrors]
      simp [ScanItem.error?, moved]
    · rw [← h.ending, hahead]

/-- What a pass gives next, however far it has come. -/
theorem Stage.next {start : Scanner} {pass : Pass} (h : Stage file text start k pass s)
    (hstart : start.Over file text) :
    (s.next pass).1 = (scan file text).allTokens[k]? ∧
      (s.next pass).2.2.errors = errorsBefore k (scan file text).items ∧
      Stage file text start (k + 1) (s.next pass).2.1 (s.next pass).2.2 := by
  cases h with
  | untouched => exact hstart.underway_restart.next _
  | running h => exact h.next start
  | @finished k _ hk herrors =>
    refine ⟨(List.getElem?_eq_none ?_).symm, ?_, .finished (Nat.le_succ_of_le hk) herrors⟩
    · rw [Scan.allTokens, List.length_append]
      exact Nat.succ_le_succ hk
    · rw [errorsBefore_of_le (Nat.le_succ_of_le hk)]
      exact herrors

/-! ### Scanners that several passes share -/

theorem Over.pull (h : s.Over file text) : s.pull.2.Over file text := by
  fun_induction Scanner.pull s with
  | case1 s t others => exact ⟨h.file_eq, h.text_eq⟩
  | case2 s => exact h
  | case3 s _ later htake _ ih =>
    refine ih ?_
    unfold take? at htake
    cases hstep : s.cursor.step s.file with
    | none =>
      rw [hstep] at htake
      cases htake
    | some found =>
      rw [hstep] at htake
      obtain rfl := Option.some.inj htake
      exact ⟨h.file_eq, h.text_eq⟩

theorem Over.next (h : s.Over file text) (pass : Pass) : (s.next pass).2.2.Over file text := by
  have hpulled : ∀ {s later : Scanner} {token? : Option Token}, s.Over file text →
      s.pull = (token?, later) → later.Over file text := by
    intro s later token? h hpull
    have hlater := h.pull
    rwa [hpull] at hlater
  cases pass with
  | finished => exact h
  | untouched =>
    have hrestart : s.restart.Over file text := ⟨h.file_eq, h.text_eq⟩
    unfold Scanner.next
    cases hpull : s.restart.pull with
    | mk token? later => cases token? <;> exact hpulled hrestart hpull
  | running =>
    unfold Scanner.next
    cases hpull : s.pull with
    | mk token? later => cases token? <;> exact hpulled h hpull

end Scanner

/-- What can be asked of a scanner: to make a pass, to give the next token of the pass with a
number, or to make a whole pass at once. -/
inductive Request where
  | start
  | next (pass : Nat)
  | tokenize
deriving DecidableEq, Repr

/-- The answer to a request. -/
inductive Reply where
  | made (pass : Nat)
  | token (token? : Option Token)
  | tokens (tokens : List Token)

/-- A scanner and the passes that were made over its text, one after another. -/
structure SharedScanner where
  scanner : Scanner
  passes : List Pass

namespace SharedScanner

/-- A scanner at the start of a text, without passes. -/
def ofText (file : Int) (text : String) : SharedScanner := ⟨.ofText file text, []⟩

/-- What a scanner and its passes do on a request. A pass is made without a look at the text. -/
def serve (shared : SharedScanner) : Request → Reply × SharedScanner
  | .start =>
    (.made shared.passes.length, { shared with passes := shared.passes ++ [.untouched] })
  | .next i =>
    match shared.passes[i]? with
    | none => (.token none, shared)
    | some pass =>
      let (token?, pass, scanner) := shared.scanner.next pass
      (.token token?, ⟨scanner, shared.passes.set i pass⟩)
  | .tokenize =>
    let (tokens, scanner) := shared.scanner.tokenize
    (.tokens tokens, { shared with scanner })

/-- A scanner and its passes after a list of requests. -/
def serveAll (shared : SharedScanner) (requests : List Request) : SharedScanner :=
  requests.foldl (fun shared request => (shared.serve request).2) shared

/-- A request that advances no pass other than one. New passes may be made, and passes that have no
tokens left may be asked. -/
def Spares (shared : SharedScanner) (i : Nat) : Request → Prop
  | .start => True
  | .next j => j = i ∨ shared.passes[j]? = some .finished
  | .tokenize => False

variable {file : Int} {text : String} {shared start later : SharedScanner} {i k : Nat}

theorem serve_next {pass : Pass} (h : shared.passes[i]? = some pass) :
    shared.serve (.next i) =
      (.token (shared.scanner.next pass).1,
        ⟨(shared.scanner.next pass).2.2, shared.passes.set i (shared.scanner.next pass).2.1⟩) := by
  simp only [serve, h]

theorem over_ofText (file : Int) (text : String) : (ofText file text).scanner.Over file text :=
  ⟨rfl, rfl⟩

/-- Whatever is asked, the scanner stays one of its text. -/
theorem over_serve (h : shared.scanner.Over file text) (request : Request) :
    (shared.serve request).2.scanner.Over file text := by
  cases request with
  | start => exact h
  | tokenize => exact ⟨h.file_eq, h.text_eq⟩
  | next i =>
    cases hpass : shared.passes[i]? with
    | none => simpa only [serve, hpass] using h
    | some pass =>
      rw [serve_next hpass]
      exact h.next pass

theorem over_serveAll (h : shared.scanner.Over file text) (requests : List Request) :
    (shared.serveAll requests).scanner.Over file text := by
  induction requests generalizing shared with
  | nil => exact h
  | cons request requests ih => exact ih (over_serve h request)

/-- A request concerns no other pass. -/
theorem passes_serve {pass : Pass} {request : Request} (hrequest : request ≠ .next i)
    (h : shared.passes[i]? = some pass) : (shared.serve request).2.passes[i]? = some pass := by
  cases request with
  | start =>
    have hlt := (List.getElem?_eq_some_iff.mp h).1
    exact (List.getElem?_append_left hlt).trans h
  | tokenize => exact h
  | next j =>
    cases hpass : shared.passes[j]? with
    | none => simpa only [serve, hpass] using h
    | some other =>
      have hne : j ≠ i := fun heq => hrequest (by rw [heq])
      rw [serve_next hpass]
      exact (List.getElem?_set_ne hne).trans h

theorem passes_serveAll {pass : Pass} {requests : List Request} (hrequests : .next i ∉ requests)
    (h : shared.passes[i]? = some pass) : (shared.serveAll requests).passes[i]? = some pass := by
  induction requests generalizing shared with
  | nil => exact h
  | cons request requests ih =>
    obtain ⟨hrequest, hrequests⟩ := not_or.mp (mt List.mem_cons.mpr hrequests)
    exact ih hrequests (passes_serve (Ne.symm hrequest) h)

/-- What holds while only one pass is advanced: it has come as far as it was asked to, and the
passes that were finished still are. -/
structure Follows (file : Int) (text : String) (start : SharedScanner) (i k : Nat)
    (later : SharedScanner) : Prop where
  stage : ∃ pass, later.passes[i]? = some pass ∧
    Scanner.Stage file text start.scanner k pass later.scanner
  finished : ∀ j, j ≠ i → start.passes[j]? = some .finished → later.passes[j]? = some .finished

/-- One request that advances no other pass. -/
theorem Follows.serve (h : Follows file text start i k later)
    (hstart : start.scanner.Over file text) {request : Request}
    (hrequest : start.Spares i request) :
    Follows file text start i (k + [request].count (.next i)) (later.serve request).2 := by
  obtain ⟨pass, hpass, hstage⟩ := h.stage
  by_cases hnext : request = .next i
  · subst hnext
    obtain ⟨_, _, hadvanced⟩ := hstage.next hstart
    have hlt := (List.getElem?_eq_some_iff.mp hpass).1
    rw [List.count_singleton_self, serve_next hpass]
    refine ⟨⟨_, List.getElem?_set_self hlt, hadvanced⟩, fun j hj hfinished => ?_⟩
    exact (List.getElem?_set_ne (Ne.symm hj)).trans (h.finished j hj hfinished)
  · -- the scanner is not touched
    have hkept : (later.serve request).2.scanner = later.scanner := by
      cases request with
      | start => rfl
      | tokenize => exact hrequest.elim
      | next j =>
        rcases hrequest with rfl | hfinished
        · exact absurd rfl hnext
        · have hj : j ≠ i := fun heq => hnext (by rw [heq])
          rw [serve_next (h.finished j hj hfinished)]
          rfl
    have hcount : [request].count (.next i) = 0 := by
      rw [List.count_singleton]
      simp [hnext]
    rw [hcount, Nat.add_zero]
    refine ⟨⟨pass, passes_serve hnext hpass, by rw [hkept]; exact hstage⟩, fun j hj hfinished => ?_⟩
    by_cases hsame : request = .next j
    · subst hsame
      rw [serve_next (h.finished j hj hfinished)]
      have hlt := (List.getElem?_eq_some_iff.mp (h.finished j hj hfinished)).1
      exact List.getElem?_set_self hlt
    · exact passes_serve hsame (h.finished j hj hfinished)

/-- Requests that advance no other pass. -/
theorem Follows.serveAll (h : Follows file text start i k later)
    (hstart : start.scanner.Over file text) {requests : List Request}
    (hrequests : ∀ request ∈ requests, start.Spares i request) :
    Follows file text start i (k + requests.count (.next i)) (later.serveAll requests) := by
  induction requests generalizing k later with
  | nil => exact h
  | cons request requests ih =>
    obtain ⟨hrequest, hrequests⟩ := List.forall_mem_cons.mp hrequests
    have hrest := ih (h.serve hstart hrequest) hrequests
    have hcount : (request :: requests).count (.next i) =
        [request].count (.next i) + requests.count (.next i) := by
      rw [← List.count_append, List.singleton_append]
    rw [hcount, ← Nat.add_assoc]
    exact hrest

/-- Every pass starts clean. After any history of requests a pass is made, which changes nothing
else, and then anything may be asked but this pass. Once the pass is asked, and as long as no other
pass is advanced, it gives the tokens of the text in order, as a whole pass of a fresh scanner does.
The errors noted then are those that a fresh scanner finds before that token, and at the end all of
them. Before the pass is asked, the scanner stays as it is. -/
theorem pass_starts_clean (file : Int) (text : String) (history others requests : List Request) :
    let made := (ofText file text).serveAll history
    let pass := made.passes.length
    let start := made.serveAll (.start :: others)
    let later := start.serveAll requests
    let k := requests.count (.next pass)
    let fresh := (Scanner.ofText file text).tokenize
    .next pass ∉ others → (∀ request ∈ requests, start.Spares pass request) →
      made.serve .start = (.made pass, ⟨made.scanner, made.passes ++ [.untouched]⟩) ∧
      (k = 0 → later.scanner = start.scanner) ∧
      (later.serve (.next pass)).1 = .token fresh.1[k]? ∧
      (later.serve (.next pass)).2.scanner.errors = errorsBefore k (scan file text).items ∧
      errorsBefore k (scan file text).items <+: fresh.2.errors ∧
      (fresh.1.length ≤ k + 1 →
        (later.serve (.next pass)).2.scanner.errors = fresh.2.errors) := by
  intro made pass start later k fresh hothers hrequests
  have hmade : made.scanner.Over file text := over_serveAll (over_ofText file text) history
  have hover : start.scanner.Over file text := over_serveAll hmade (.start :: others)
  have hpass : start.passes[pass]? = some .untouched := by
    show ((made.serve .start).2.serveAll others).passes[pass]? = some .untouched
    exact passes_serveAll hothers List.getElem?_concat_length
  have hfirst : Follows file text start pass 0 start :=
    ⟨⟨.untouched, hpass, .untouched⟩, fun _ _ hfinished => hfinished⟩
  have hlater : Follows file text start pass k later := by
    have hserved := hfirst.serveAll hover hrequests
    rwa [Nat.zero_add] at hserved
  obtain ⟨reached, hreached, hstage⟩ := hlater.stage
  obtain ⟨htoken, herrors, _⟩ := hstage.next hover
  have hserve := serve_next hreached
  refine ⟨rfl, fun hk => ?_, ?_, ?_, errorsBefore_prefix _ _, fun hlength => ?_⟩
  · rw [hk] at hstage
    generalize later.scanner = s at hstage
    cases hstage
    rfl
  · rw [hserve, htoken]
    rfl
  · rw [hserve]
    exact herrors
  · have htokens : fresh.1.length = (scan file text).tokens.length + 1 := List.length_append
    rw [hserve]
    refine herrors.trans (errorsBefore_of_le ?_)
    show (scan file text).tokens.length ≤ k
    omega

theorem tokenize_strayCharacters :
    (Scanner.ofText 1 "@ a # b").tokenize.1[1]? =
        some ⟨.identifier, "b", 1, 7, .ofLength 1 6 1⟩ ∧
      (errorsBefore 1 (scan 1 "@ a # b").items).length = 2 := by
  constructor <;> cbv

/-- The second token of a pass over a text with two stray characters, after a pass that was left
alone behind its first token, another one that was only begun, and a whole pass. -/
theorem pass_starts_clean_strayCharacters :
    let made := (ofText 1 "@ a # b").serveAll [.start, .next 0]
    let pass := made.passes.length
    let start := made.serveAll [.start, .start, .next (pass + 1), .tokenize]
    let later := start.serveAll [.next pass, .start]
    (later.serve (.next pass)).1 =
        .token (some ⟨.identifier, "b", 1, 7, .ofLength 1 6 1⟩) ∧
      (later.serve (.next pass)).2.scanner.errors.length = 2 := by
  intro made pass start later
  have hothers : Request.next pass ∉ [Request.start, .next (pass + 1), .tokenize] := by simp
  have hrequests : ∀ request ∈ [Request.next pass, .start], start.Spares pass request := by
    intro request hrequest
    simp only [List.mem_cons, List.not_mem_nil, or_false] at hrequest
    rcases hrequest with rfl | rfl
    · exact .inl rfl
    · trivial
  have hcount : [Request.next pass, .start].count (.next pass) = 1 := by simp
  obtain ⟨_, _, htoken, herrors, _⟩ := pass_starts_clean 1 "@ a # b" [.start, .next 0]
    [.start, .next (pass + 1), .tokenize] [.next pass, .start] hothers hrequests
  rw [hcount] at htoken herrors
  refine ⟨htoken.trans (congrArg Reply.token tokenize_strayCharacters.1), ?_⟩
  rw [herrors]
  exact tokenize_strayCharacters.2

end SharedScanner

end Treewalk
