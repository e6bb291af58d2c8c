import Treewalk.Number.Display
import Treewalk.Proofs.Number.Shortest
import Treewalk.Proofs.Token.Rules

/-!
# Numerals

A numeral has digits, then perhaps a point with more digits, and then perhaps an exponent. The text
of a number is a numeral, with a minus before it if the number is negative, and the decimal that it
stands for has the value of the number's shortest decimal, however the digits are laid out.
-/

namespace Treewalk.Number

/-! ### Reading -/

/-- The digits behind a point, and the text behind them. A point stands only before a digit. -/
def readFraction? : List Char → Option (List Char × List Char)
  | '.' :: rest =>
    if rest.takeWhile isDigit = [] then none
    else some (rest.takeWhile isDigit, rest.dropWhile isDigit)
  | rest => some ([], rest)

/-- The exponent at the end of a numeral. -/
def readExponent? : List Char → Option Int
  | [] => some 0
  | 'e' :: '+' :: digits =>
    if digits ≠ [] ∧ digits.all isDigit then some (natOfDigits digits) else none
  | 'e' :: '-' :: digits =>
    if digits ≠ [] ∧ digits.all isDigit then some (-(natOfDigits digits : Int)) else none
  | _ => none

/-- The decimal that a numeral without a sign stands for. -/
def readMagnitude? (text : List Char) : Option Decimal :=
  if text.takeWhile isDigit = [] then none
  else
    (readFraction? (text.dropWhile isDigit)).bind fun (fraction, rest) =>
      (readExponent? rest).map fun exponent =>
        ⟨natOfDigits (text.takeWhile isDigit ++ fraction), exponent - (fraction.length : Int)⟩

/-- Whether a numeral is negative, and the decimal that it stands for without its sign. -/
def readNumeral? : List Char → Option (Bool × Decimal)
  | '-' :: rest => (readMagnitude? rest).map (true, ·)
  | text => (readMagnitude? text).map (false, ·)

/-! ### Digits -/

theorem natOfDigits_eq (digits : List Char) : natOfDigits digits = Nat.ofDigitChars 10 digits 0 :=
  rfl

theorem natOfDigits_digitChars (n : Nat) : natOfDigits (digitChars n) = n :=
  Nat.ofDigitChars_ten_toDigits

theorem natOfDigits_zeros_append (count : Nat) (digits : List Char) :
    natOfDigits (List.replicate count '0' ++ digits) = natOfDigits digits := by
  rw [natOfDigits_eq, Nat.ofDigitChars_append, Nat.ofDigitChars_replicate_zero, Nat.mul_zero]
  rfl

theorem natOfDigits_append_zeros (digits : List Char) (count : Nat) :
    natOfDigits (digits ++ List.replicate count '0') = 10 ^ count * natOfDigits digits := by
  rw [natOfDigits_eq, Nat.ofDigitChars_append, Nat.ofDigitChars_replicate_zero]
  rfl

theorem isDigit_digitChars (n : Nat) : ∀ c ∈ digitChars n, isDigit c = true := by
  intro c hc
  have hdigit := Nat.isDigit_of_mem_toDigits (by decide) (by decide) hc
  rw [Char.isDigit_iff_toNat] at hdigit
  simp only [isDigit, Bool.and_eq_true, decide_eq_true_eq, Char.le_def, UInt32.le_iff_toNat_le]
  exact hdigit

theorem isDigit_zeros (count : Nat) : ∀ c ∈ List.replicate count '0', isDigit c = true := by
  intro c hc
  rw [List.eq_of_mem_replicate hc]
  decide

theorem isDigit_append {digits more : List Char} (h : ∀ c ∈ digits, isDigit c = true)
    (hmore : ∀ c ∈ more, isDigit c = true) : ∀ c ∈ digits ++ more, isDigit c = true := by
  intro c hc
  rcases List.mem_append.mp hc with hc | hc
  · exact h c hc
  · exact hmore c hc

/-- The digits of a number are its significant digits and zeros behind them. -/
theorem digitChars_eq_significant (d : Decimal) :
    ∃ count, digitChars d.digits = d.significant ++ List.replicate count '0' := by
  refine ⟨((digitChars d.digits).reverse.takeWhile (· == '0')).length, ?_⟩
  have hzeros : (digitChars d.digits).reverse.takeWhile (· == '0') =
      List.replicate ((digitChars d.digits).reverse.takeWhile (· == '0')).length '0' := by
    rw [List.eq_replicate_iff]
    exact ⟨rfl, fun c hc => beq_iff_eq.mp (List.all_eq_true.mp List.all_takeWhile c hc)⟩
  rw [Decimal.significant, ← List.reverse_replicate, ← hzeros, ← List.reverse_append,
    List.takeWhile_append_dropWhile, List.reverse_reverse]

theorem isDigit_significant (d : Decimal) : ∀ c ∈ d.significant, isDigit c = true := by
  intro c hc
  obtain ⟨count, hcount⟩ := digitChars_eq_significant d
  exact isDigit_digitChars d.digits c (hcount ▸ List.mem_append_left _ hc)

theorem significant_ne_nil {d : Decimal} (h : d.digits ≠ 0) : d.significant ≠ [] := by
  intro hnil
  obtain ⟨count, hcount⟩ := digitChars_eq_significant d
  have hvalue := natOfDigits_digitChars d.digits
  rw [hcount, natOfDigits_append_zeros, hnil] at hvalue
  exact h (hvalue.symm.trans (Nat.mul_zero _))

/-- The value of a decimal, by its significant digits and the place of its point. -/
theorem value_eq_significant (d : Decimal) :
    d.value = natOfDigits d.significant *
      10 ^ ((digitChars d.digits).length + d.exponent - d.significant.length) := by
  obtain ⟨count, hcount⟩ := digitChars_eq_significant d
  have hdigits : d.digits = 10 ^ count * natOfDigits d.significant := by
    rw [← natOfDigits_append_zeros, ← hcount, natOfDigits_digitChars]
  rw [hcount, List.length_append, List.length_replicate, Decimal.value, hdigits]
  rw [show ((d.significant.length + count : Nat) : Int) + d.exponent - d.significant.length =
    count + d.exponent by push_cast; ring, zpow_add₀ (by norm_num), zpow_natCast]
  push_cast
  ring

/-! ### Numerals by their parts -/

/-- The parts of a numeral without a sign: the digits before and behind the point, and the text of
the exponent with its value. -/
structure Numeral where
  whole : List Char
  fraction : List Char
  tail : List Char
  exponent : Int
  whole_ne_nil : whole ≠ []
  isDigit_whole : ∀ c ∈ whole, isDigit c = true
  isDigit_fraction : ∀ c ∈ fraction, isDigit c = true
  readExponent?_tail : readExponent? tail = some exponent

/-- The fraction of a numeral with its point, if there is one. -/
def pointed : List Char → List Char
  | [] => []
  | digits => '.' :: digits

theorem pointed_of_ne_nil {digits : List Char} (h : digits ≠ []) :
    pointed digits = '.' :: digits := by
  cases digits with
  | nil => exact absurd rfl h
  | cons c digits => rfl

namespace Numeral

/-- The text of a numeral. -/
def text (n : Numeral) : List Char := n.whole ++ (pointed n.fraction ++ n.tail)

/-- The decimal that a numeral stands for. -/
def decimal (n : Numeral) : Decimal :=
  ⟨natOfDigits (n.whole ++ n.fraction), n.exponent - (n.fraction.length : Int)⟩

theorem value_decimal (n : Numeral) {digits : Nat} {exponent : Int}
    (hdigits : natOfDigits (n.whole ++ n.fraction) = digits)
    (hexponent : n.exponent - (n.fraction.length : Int) = exponent) :
    n.decimal.value = digits * 10 ^ exponent := by
  subst hdigits hexponent
  rfl

/-- An exponent starts with its mark. -/
theorem tail_cases (n : Numeral) :
    (n.tail = [] ∧ n.exponent = 0) ∨ ∃ rest, n.tail = 'e' :: rest := by
  have h := n.readExponent?_tail
  unfold readExponent? at h
  split at h
  · exact .inl ⟨‹_›, (Option.some.inj h).symm⟩
  · exact .inr ⟨_, ‹_›⟩
  · exact .inr ⟨_, ‹_›⟩
  · cases h

theorem isDigit_head?_tail (n : Numeral) : ∀ c ∈ n.tail.head?, isDigit c = false := by
  intro c hc
  rcases n.tail_cases with ⟨hnil, _⟩ | ⟨rest, hrest⟩
  · simp [hnil] at hc
  · obtain rfl : 'e' = c := by simpa [hrest] using hc
    decide

theorem readFraction?_append (n : Numeral) :
    readFraction? (pointed n.fraction ++ n.tail) = some (n.fraction, n.tail) := by
  have htail := n.isDigit_head?_tail
  cases hfraction : n.fraction with
  | nil =>
    rcases n.tail_cases with ⟨hnil, _⟩ | ⟨rest, hrest⟩
    · rw [hnil]
      rfl
    · rw [hrest]
      rfl
  | cons c digits =>
    obtain ⟨htake, hdrop⟩ := takeWhile_append_of_head? (hfraction ▸ n.isDigit_fraction) htail
    rw [pointed, List.cons_append, readFraction?, htake, hdrop, if_neg (List.cons_ne_nil _ _)]
    exact List.cons_ne_nil c digits

/-- A numeral is read as the decimal of its parts. -/
theorem readMagnitude?_text (n : Numeral) : readMagnitude? n.text = some n.decimal := by
  have hrest : ∀ c ∈ (pointed n.fraction ++ n.tail).head?, isDigit c = false := by
    cases hfraction : n.fraction with
    | nil => exact n.isDigit_head?_tail
    | cons c digits =>
      intro c' hc'
      obtain rfl : '.' = c' := by simpa [pointed] using hc'
      decide
  obtain ⟨htake, hdrop⟩ := takeWhile_append_of_head? n.isDigit_whole hrest
  rw [readMagnitude?, text, htake, hdrop, if_neg n.whole_ne_nil, readFraction?_append]
  simp only [Option.bind_some, n.readExponent?_tail, Option.map_some]
  rfl

end Numeral

/-! ### Texts of numbers -/

theorem natOfDigits_exponentDigits (width n : Nat) : natOfDigits (exponentDigits width n) = n := by
  rw [exponentDigits, natOfDigits_zeros_append, natOfDigits_digitChars]

/-- The exponent of a number is read back. -/
theorem readExponent?_exponentDigits (width : Nat) (exponent : Int) :
    readExponent? ('e' :: (if exponent < 0 then '-' else '+') ::
      exponentDigits width exponent.natAbs) = some exponent := by
  have hne : exponentDigits width exponent.natAbs ≠ [] :=
    List.append_ne_nil_of_right_ne_nil _ Nat.toDigits_ne_nil
  have hall : (exponentDigits width exponent.natAbs).all isDigit = true :=
    List.all_eq_true.mpr (isDigit_append (isDigit_zeros _) (isDigit_digitChars _))
  by_cases hneg : exponent < 0
  · rw [if_pos hneg, readExponent?, if_pos ⟨hne, hall⟩, natOfDigits_exponentDigits]
    congr 1
    omega
  · rw [if_neg hneg, readExponent?, if_pos ⟨hne, hall⟩, natOfDigits_exponentDigits]
    congr 1
    omega

/-- Digits are laid out as a numeral of the same value, wherever their point is. -/
theorem exists_numeral_place {digits : List Char} (hne : digits ≠ [])
    (hdigits : ∀ c ∈ digits, isDigit c = true) (point : Int) :
    ∃ n : Numeral, n.text = printed.place digits point ∧
      n.decimal.value = natOfDigits digits * 10 ^ (point - digits.length) := by
  have hlength : 0 < digits.length := List.length_pos_of_ne_nil hne
  -- cutting the digits in two leaves the number that they make
  have hcut : ∀ count, natOfDigits (digits.take count ++ digits.drop count) =
      natOfDigits digits := fun count => by rw [List.take_append_drop]
  have htake : ∀ count, ∀ c ∈ digits.take count, isDigit c = true := fun count c hc =>
    hdigits c (List.mem_of_mem_take hc)
  have hdrop : ∀ count, ∀ c ∈ digits.drop count, isDigit c = true := fun count c hc =>
    hdigits c (List.mem_of_mem_drop hc)
  have hnonempty : ∀ count, 0 < count → digits.take count ≠ [] := fun count hcount hnil => by
    have := congrArg List.length hnil
    rw [List.length_take, List.length_nil] at this
    omega
  unfold Layout.place
  simp only
  by_cases hpositional : printed.leastPoint ≤ point ∧ point ≤ printed.greatestPoint
  · rw [if_pos hpositional]
    by_cases hsmall : point ≤ 0
    · -- zeros stand between the point and the digits
      rw [if_pos hsmall]
      refine ⟨⟨['0'], List.replicate (-point).toNat '0' ++ digits, [], 0, List.cons_ne_nil _ _,
        isDigit_zeros 1, isDigit_append (isDigit_zeros _) hdigits, rfl⟩, ?_, ?_⟩
      · rw [Numeral.text, pointed_of_ne_nil (List.append_ne_nil_of_right_ne_nil _ hne),
          List.append_nil]
        rfl
      · have hsame : natOfDigits (['0'] ++ (List.replicate (-point).toNat '0' ++ digits)) =
            natOfDigits digits := by
          rw [← List.append_assoc]
          exact natOfDigits_zeros_append ((-point).toNat + 1) digits
        refine Numeral.value_decimal _ hsame ?_
        simp only [List.length_append, List.length_replicate]
        omega
    · rw [if_neg hsmall]
      by_cases hwhole : digits.length ≤ point.toNat
      · -- zeros stand behind the digits
        rw [if_pos hwhole]
        refine ⟨⟨digits ++ List.replicate (point.toNat - digits.length) '0', [], [], 0,
          List.append_ne_nil_of_left_ne_nil hne _, isDigit_append hdigits (isDigit_zeros _),
          fun c hc => absurd hc List.not_mem_nil, rfl⟩, rfl, ?_⟩
        rw [Decimal.value, Numeral.decimal, List.append_nil, natOfDigits_append_zeros,
          show point - (digits.length : Int) = (point.toNat - digits.length : Nat) by omega,
          zpow_natCast, List.length_nil, Nat.cast_zero, sub_zero, zpow_zero]
        push_cast
        ring
      · -- the point stands between digits
        rw [if_neg hwhole]
        refine ⟨⟨digits.take point.toNat, digits.drop point.toNat, [], 0, hnonempty _ (by omega),
          htake _, hdrop _, rfl⟩, ?_, ?_⟩
        · rw [Numeral.text, pointed_of_ne_nil, List.append_nil]
          rw [Ne, List.drop_eq_nil_iff]
          omega
        · refine Numeral.value_decimal _ (hcut _) ?_
          simp only [List.length_drop]
          omega
  · rw [if_neg hpositional]
    refine ⟨⟨digits.take 1, digits.drop 1, _, point - 1, hnonempty 1 Nat.one_pos, htake _, hdrop _,
      readExponent?_exponentDigits 2 (point - 1)⟩, ?_, ?_⟩
    · have hpointed : pointed (digits.drop 1) =
          if digits.length ≤ 1 then [] else '.' :: digits.drop 1 := by
        by_cases hone : digits.length ≤ 1
        · rw [if_pos hone, List.drop_eq_nil_of_le hone]
          rfl
        · rw [if_neg hone, pointed_of_ne_nil]
          rw [Ne, List.drop_eq_nil_iff]
          exact hone
      rw [Numeral.text, hpointed, List.append_assoc]
      rfl
    · refine Numeral.value_decimal _ (hcut _) ?_
      simp only [List.length_drop]
      omega

/-- The text of a magnitude is a numeral that rounds back to it. -/
theorem exists_numeral_magnitude {mag : Magnitude} {k bits : Nat} (h : mag.Encodes k bits) :
    ∃ n : Numeral, n.text = printed.magnitude mag ∧ n.decimal.toBits = bits := by
  unfold Layout.magnitude
  by_cases hzero : mag.mantissa = 0
  · rw [if_pos hzero]
    refine ⟨⟨['0'], [], [], 0, List.cons_ne_nil _ _, isDigit_zeros 1,
      fun c hc => absurd hc List.not_mem_nil, rfl⟩, rfl, ?_⟩
    have hk := h.normal.resolve_right (by rw [hzero]; decide)
    rw [h.bits_eq, hk, hzero]
    rfl
  · rw [if_neg hzero]
    have hpos := Nat.pos_of_ne_zero hzero
    obtain ⟨n, htext, hvalue⟩ := exists_numeral_place
      (significant_ne_nil (h.digits_shortest_ne_zero hpos)) (isDigit_significant mag.shortest)
      ((digitChars mag.shortest.digits).length + mag.shortest.exponent)
    rw [← value_eq_significant] at hvalue
    exact ⟨n, htext, n.decimal.roundsTo_toBits.unique (hvalue ▸ h.roundsTo_shortest hpos)⟩

end Treewalk.Number
