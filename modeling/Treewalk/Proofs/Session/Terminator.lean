import Treewalk.Session.Prompt
import Treewalk.Proofs.Session.Reading
import Treewalk.Proofs.Grammar.Endings
import Treewalk.Proofs.Grammar.StatementCompleteness
import Treewalk.Proofs.Token.Tiling

/-!
# The final semicolon of a line

At the prompt a line gets a final semicolon if its last token ends no statement. The semicolon
stands on a line of its own, so it changes none of the tokens of the line. The rule asks for the
last token only, and yet it is right for every line: a line that can be recognised without errors,
as it is or with a semicolon at its end, is recognised without errors as the rule leaves it.
-/

namespace Treewalk

open Grammar (EndsOpen endsStatement DerivesProgram)

/-! ### Which lines get a semicolon -/

theorem Scan.lacksTerminator_iff (s : Scan) : s.lacksTerminator = true ↔ EndsOpen s.tokens := by
  unfold lacksTerminator EndsOpen
  cases s.tokens.getLast? with
  | none => simp
  | some token =>
    obtain ⟨kind, _, _, _, _⟩ := token
    cases kind <;> simp [endsStatement]

/-- A text ends with the same kinds of token in any file. -/
theorem endsOpen_map_move (m : Move) (ts : List Token) :
    EndsOpen (ts.map (Token.move m)) ↔ EndsOpen ts := by
  unfold EndsOpen
  rw [List.getLast?_map]
  cases ts.getLast? with
  | none => simp
  | some token => simp [Token.move]

/-- A line lacks its semicolon if its last token ends no statement. -/
theorem needsTerminator_iff {file : Int} {line : String} (h : (scan file line).errors = []) :
    needsTerminator line = true ↔ EndsOpen (scan file line).tokens := by
  rw [needsTerminator, Scan.lacksTerminator_iff, (scan_refile 1 h).2, endsOpen_map_move]

/-! ### The tokens of a line with its semicolon -/

/-- The semicolon at the start of the line behind a text. -/
def semicolonAfter (file : Int) (text : String) : Token :=
  ⟨.semicolon, ";", (scan file text).endToken.line + 1, 1,
    .ofLength file (text.toList.length + 1) 1⟩

theorem scan_semicolon :
    (scan 1 ";").errors = [] ∧
      (scan 1 ";").tokens = [⟨.semicolon, ";", 1, 1, .ofLength 1 0 1⟩] := by
  constructor <;> cbv

/-- A semicolon on a line of its own is one token more, behind those of the text. -/
theorem scan_append_semicolon {file : Int} {text : String} (h : (scan file text).errors = []) :
    (scan file (text ++ "\n;")).errors = [] ∧
      (scan file (text ++ "\n;")).tokens =
        (scan file text).tokens ++ [semicolonAfter file text] := by
  have htext : text ++ "\n;" = text ++ "\n" ++ ";" := by
    rw [String.append_assoc]
    rfl
  obtain ⟨herrors, htokens⟩ := scan_join file file 1 h scan_semicolon.1
  have hsame := (scan_refile file h).2
  obtain ⟨_, _, hspan⟩ := endToken_scan file text
  have hsemicolon : Token.move (.after file (scan file text))
      ⟨.semicolon, ";", 1, 1, .ofLength 1 0 1⟩ = semicolonAfter file text := by
    simp only [Token.move, Move.after, Move.shift, hspan, semicolonAfter, Span.ofLength,
      Token.mk.injEq, Span.mk.injEq, true_and, id_eq]
    omega
  rw [htext, htokens, ← hsame, scan_semicolon.2, List.map_singleton, hsemicolon]
  exact ⟨herrors, rfl⟩

/-! ### The rule is right -/

/-- A text is recognised without errors exactly if its tokens spell a program. -/
theorem Reading.recognition_errors_eq_nil_iff (file : Nat) (text : String) :
    (Reading.ofText file text).recognition.errors = [] ↔
      ∃ p, DerivesProgram (Treewalk.scan file text).tokens p := by
  constructor
  · intro herrors
    have hrecognised :
        recognise (Treewalk.scan file text).tokens (Treewalk.scan file text).endToken =
          ⟨(Reading.ofText file text).recognition.program, []⟩ := by
      rw [← herrors]
      rfl
    exact ⟨_, Grammar.derivesProgram_of_recognise_eq hrecognised⟩
  · rintro ⟨p, hp⟩
    exact congrArg Grammar.Recognition.errors
      (hp.recognise_eq (Treewalk.scan file text).endToken)

/-- The rule for the final semicolon is right. For every text without lexical errors, a line of the
prompt being one, the tokens before the end are those of the text, at their places, and the
semicolon if one was added. The text is recognised without errors as the rule leaves it exactly if
it is recognised without errors as it is, or with a semicolon on the next line. -/
theorem terminated_exact {line : String} (file : Nat) (h : (scan file line).errors = []) :
    (Reading.ofText file (terminated line)).scan.errors = [] ∧
      (Reading.ofText file (terminated line)).scan.tokens =
        (Reading.ofText file line).scan.tokens ++
          (if needsTerminator line then [semicolonAfter file line] else []) ∧
      ((Reading.ofText file (terminated line)).recognition.errors = [] ↔
        (Reading.ofText file line).recognition.errors = [] ∨
          (Reading.ofText file (line ++ "\n;")).recognition.errors = []) := by
  obtain ⟨herrors, htokens⟩ := scan_append_semicolon h
  have hneeds := needsTerminator_iff h
  unfold terminated
  by_cases hopen : needsTerminator line = true
  · rw [if_pos hopen, if_pos hopen]
    refine ⟨herrors, htokens, .inr, ?_⟩
    rintro (hline | hended)
    · -- no program lacks its last semicolon
      obtain ⟨p, hp⟩ := (Reading.recognition_errors_eq_nil_iff file line).mp hline
      exact absurd (hneeds.mp hopen) hp.not_endsOpen
    · exact hended
  · rw [if_neg hopen, if_neg hopen, List.append_nil]
    refine ⟨h, rfl, .inl, ?_⟩
    rintro (hline | hended)
    · exact hline
    · -- no program has one semicolon too many
      obtain ⟨p, hp⟩ := (Reading.recognition_errors_eq_nil_iff file (line ++ "\n;")).mp hended
      rw [htokens] at hp
      exact absurd (hneeds.mpr (hp.endsOpen_of_semicolon rfl)) hopen

theorem reading_commentedPrint :
    (scan (2 : Nat) "print a // one").errors = [] ∧ needsTerminator "print a // one" = true ∧
      (Reading.ofText 2 ("print a // one" ++ "\n;")).recognition.errors = [] := by
  refine ⟨?_, ?_, ?_⟩ <;> cbv

/-- A statement that lacks its semicolon and ends with a comment. -/
theorem terminated_exact_commentedPrint :
    (scan (2 : Nat) "print a // one").errors = [] ∧ needsTerminator "print a // one" = true ∧
      (Reading.ofText 2 (terminated "print a // one")).scan.tokens =
        (Reading.ofText 2 "print a // one").scan.tokens ++ [semicolonAfter 2 "print a // one"] ∧
      (Reading.ofText 2 (terminated "print a // one")).recognition.errors = [] := by
  obtain ⟨herrors, hneeds, hended⟩ := reading_commentedPrint
  obtain ⟨_, htokens, hright⟩ := terminated_exact 2 herrors
  rw [if_pos hneeds] at htokens
  exact ⟨herrors, hneeds, htokens, hright.mpr (.inr hended)⟩

end Treewalk
