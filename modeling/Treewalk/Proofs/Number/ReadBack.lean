import Treewalk.Proofs.Number.Doubles
import Treewalk.Proofs.Number.Numerals
import Treewalk.Proofs.Token.Tiling

/-!
# Printed numbers read back

The text of a finite number is a numeral with the sign of the number, and correct rounding turns it
back into the bits of the number. So the texts of two numbers differ if their bits do; this holds of
the infinities too. A text without a sign and without an exponent is one token in a source, and the
token carries the number that was printed.
-/

namespace Treewalk

/-- Characters that spell a token, alone, are scanned as that token. -/
theorem scan_of_spells {kind : TokenKind} {chars : List Char} (h : Spells (.token kind) chars)
    (hne : chars ≠ []) (file : Int) :
    ∃ t endToken, scan file (String.ofList chars) = ⟨[.token t], endToken⟩ ∧ t.kind = kind ∧
      endToken.kind = .endOfInput := by
  obtain ⟨c, rest, rfl⟩ := List.exists_cons_of_ne_nil hne
  obtain ⟨t, stop, hstep, hkind, hrest⟩ : ∃ t stop,
      Cursor.step file ⟨c :: rest, 0, 1, 0⟩ = some (some (.token t), stop) ∧ t.kind = kind ∧
        stop.rest = [] := by
    simp only [Cursor.step, h.lexeme_eq, itemAt?]
    refine ⟨_, _, rfl, rfl, ?_⟩
    rw [Cursor.rest_advance]
    exact List.drop_length
  refine ⟨t, stop.endToken file, ?_, hkind, rfl⟩
  rw [scan, String.toList_ofList, Cursor.scanAll_of_step hstep, Cursor.scanAll_of_rest_eq_nil hrest]
  rfl

end Treewalk

namespace Treewalk.Number

/-! ### Texts of finite numbers -/

/-- The sign of a numeral. -/
def signText (negative : Bool) : List Char := if negative then ['-'] else []

/-- The text of a finite number is a numeral that rounds back to it, behind its sign. -/
theorem exists_numeral_display {x : Float} (h : x.isFinite = true) :
    ∃ (negative : Bool) (n : Numeral), (display x).toList = signText negative ++ n.text ∧
      x.toBits.toNat = (if negative then Nat.pow 2 63 else 0) + n.decimal.toBits := by
  obtain ⟨negative, mag, hparts⟩ := parts_of_isFinite h
  have hbits : x.toBits.toNat < 2 * Nat.pow 2 63 := x.toBits.toNat_lt
  obtain ⟨⟨k, hencodes⟩, hsign⟩ := encodes_of_ofBits hbits hparts
  obtain ⟨n, htext, hround⟩ := exists_numeral_magnitude hencodes
  refine ⟨negative, n, ?_, hround ▸ hsign⟩
  rw [display, String.toList_ofList, Layout.text, hparts, htext, signText]

theorem readNumeral?_signText (negative : Bool) (n : Numeral) :
    readNumeral? (signText negative ++ n.text) = some (negative, n.decimal) := by
  cases negative with
  | true =>
    show (readMagnitude? n.text).map (true, ·) = _
    rw [n.readMagnitude?_text]
    rfl
  | false =>
    obtain ⟨c, rest, hwhole⟩ := List.exists_cons_of_ne_nil n.whole_ne_nil
    have hc : c ≠ '-' := by
      rintro rfl
      have := n.isDigit_whole '-' (hwhole ▸ List.mem_cons_self)
      exact absurd this (by decide)
    have hread : readNumeral? n.text = (readMagnitude? n.text).map (false, ·) := by
      unfold readNumeral?
      split
      · rename_i heq
        rw [Numeral.text, hwhole] at heq
        exact absurd (List.cons.inj heq).1 hc
      · rfl
    rw [signText, if_neg Bool.false_ne_true, List.nil_append, hread, n.readMagnitude?_text]
    rfl

/-- The bits into which correct rounding turns a text: those of the nearest double, with the sign of
the numeral. -/
def ConvertsTo (text : String) (bits : UInt64) : Prop :=
  ∃ negative d m, readNumeral? text.toList = some (negative, d) ∧ RoundsTo d.value m ∧
    bits.toNat = (if negative then Nat.pow 2 63 else 0) + m

/-- The text of a finite number converts to its bits and to no others. -/
theorem convertsTo_display_iff {x : Float} (h : x.isFinite = true) (bits : UInt64) :
    ConvertsTo (display x) bits ↔ bits = x.toBits := by
  obtain ⟨negative, n, htext, hbits⟩ := exists_numeral_display h
  have hread := readNumeral?_signText negative n
  have hround := n.decimal.roundsTo_toBits
  rw [ConvertsTo, htext, hread]
  constructor
  · rintro ⟨_, _, m, heq, hrounds, hvalue⟩
    obtain ⟨rfl, rfl⟩ := Prod.mk.inj (Option.some.inj heq)
    rw [hrounds.unique hround, ← hbits] at hvalue
    exact UInt64.toNat_inj.mp hvalue
  · rintro rfl
    exact ⟨negative, n.decimal, _, rfl, hround, hbits⟩

/-! ### Scanning numerals -/

/-- A numeral without an exponent spells one token. -/
theorem Numeral.spells_text (n : Numeral) (h : n.tail = []) :
    Spells (.token (.number n.decimal.toFloat)) n.text := by
  have hexponent : n.exponent = 0 := by
    have hread := n.readExponent?_tail
    rw [h] at hread
    exact (Option.some.inj hread).symm
  have hfloat : n.decimal.toFloat = readDigits n.whole n.fraction := by
    rw [Numeral.decimal, hexponent, zero_sub]
    rfl
  obtain ⟨c, digits, hwhole⟩ := List.exists_cons_of_ne_nil n.whole_ne_nil
  have hdigits := n.isDigit_whole
  rw [hwhole, List.forall_mem_cons] at hdigits
  rw [hfloat, text, h, List.append_nil, hwhole]
  cases hfraction : n.fraction with
  | nil =>
    rw [pointed, List.append_nil]
    exact .whole hdigits.1 hdigits.2
  | cons next more =>
    have hmore := n.isDigit_fraction
    rw [hfraction, List.forall_mem_cons] at hmore
    exact .fraction hdigits.1 hdigits.2 hmore.1 hmore.2

/-- A number that is printed without a sign and without an exponent is scanned as one token. -/
theorem scan_display {x : Float} (hfinite : x.isFinite = true)
    (hsign : x.toBits.toNat < Nat.pow 2 63) (hexponent : 'e' ∉ (display x).toList) (file : Int) :
    ∃ t endToken, scan file (display x) = ⟨[.token t], endToken⟩ ∧ t.kind = .number x ∧
      endToken.kind = .endOfInput := by
  obtain ⟨negative, n, htext, hbits⟩ := exists_numeral_display hfinite
  cases negative with
  | true =>
    rw [if_pos rfl] at hbits
    omega
  | false =>
    rw [if_neg Bool.false_ne_true, Nat.zero_add] at hbits
    rw [signText, if_neg Bool.false_ne_true, List.nil_append] at htext
    have htail : n.tail = [] := by
      rcases n.tail_cases with ⟨hnil, _⟩ | ⟨rest, hrest⟩
      · exact hnil
      · refine absurd ?_ hexponent
        rw [htext, Numeral.text, hrest]
        exact List.mem_append_right _ (List.mem_append_right _ List.mem_cons_self)
    have hvalue : n.decimal.toFloat = x := by
      rw [Decimal.toFloat, ← hbits, Nat.toUInt64, UInt64.ofNat_toNat]
      exact Float.ofBits_toBits x
    have hspells := n.spells_text htail
    rw [hvalue, ← htext] at hspells
    have hscan := scan_of_spells hspells (by
      rw [htext]
      exact List.append_ne_nil_of_left_ne_nil n.whole_ne_nil _) file
    rwa [String.ofList_toList] at hscan

/-! ### Texts that differ -/

theorem toList_display_infinite {x : Float} (hnan : x.isNaN = false) (h : x.isFinite = false) :
    (display x).toList = signText (x.toBits.toNat / Nat.pow 2 63 == 1) ++ "inf".toList := by
  rw [display, String.toList_ofList, Layout.text, (parts_of_infinite hnan h).1, signText]

/-- The text of an infinity is no numeral. -/
theorem not_convertsTo_infinite {x : Float} (hnan : x.isNaN = false) (h : x.isFinite = false)
    (bits : UInt64) : ¬ ConvertsTo (display x) bits := by
  rintro ⟨negative, d, m, hread, _⟩
  have hnone : ∀ negative, readNumeral? (signText negative ++ "inf".toList) = none := by decide
  rw [toList_display_infinite hnan h, hnone] at hread
  cases hread

/-- The bits of an infinity are determined by its sign. -/
theorem toBits_eq_of_infinite {x y : Float} (hx : x.isNaN = false) (hxinf : x.isFinite = false)
    (hy : y.isNaN = false) (hyinf : y.isFinite = false) (h : display x = display y) :
    x.toBits = y.toBits := by
  have htext := congrArg String.toList h
  rw [toList_display_infinite hx hxinf, toList_display_infinite hy hyinf] at htext
  have hsign : ∀ a b, signText a ++ "inf".toList = signText b ++ "inf".toList → a = b := by decide
  have hsame : x.toBits.toNat / Nat.pow 2 63 = 1 ↔ y.toBits.toNat / Nat.pow 2 63 = 1 := by
    rw [← beq_iff_eq, hsign _ _ htext, beq_iff_eq]
  have hxbits := (parts_of_infinite hx hxinf).2
  have hybits := (parts_of_infinite hy hyinf).2
  have hxlt := x.toBits.toNat_lt
  have hylt := y.toBits.toNat_lt
  rw [unsigned, pow_sixtyThree] at hxbits hybits
  rw [pow_sixtyThree] at hsame
  apply UInt64.toNat_inj.mp
  omega

/-- Numbers with the same text have the same bits, the infinities and the two zeros too. -/
theorem toBits_eq_of_display_eq {x y : Float} (hx : x.isNaN = false) (hy : y.isNaN = false)
    (h : display x = display y) : x.toBits = y.toBits := by
  cases hxfinite : x.isFinite with
  | true =>
    have hconverts := (convertsTo_display_iff hxfinite x.toBits).mpr rfl
    rw [h] at hconverts
    cases hyfinite : y.isFinite with
    | true => exact (convertsTo_display_iff hyfinite x.toBits).mp hconverts
    | false => exact absurd hconverts (not_convertsTo_infinite hy hyfinite x.toBits)
  | false =>
    cases hyfinite : y.isFinite with
    | true =>
      have hconverts := (convertsTo_display_iff hyfinite y.toBits).mpr rfl
      rw [← h] at hconverts
      exact absurd hconverts (not_convertsTo_infinite hx hxfinite y.toBits)
    | false => exact toBits_eq_of_infinite hx hxfinite hy hyfinite h

/-- Printed numbers read back exactly. Numbers with different bits have different texts. The bits
of a finite number are computed from its text, and correct rounding turns the text into no others.
The text of a finite number without a sign and without an exponent is scanned as one token with that
number, and then the end of the text. -/
theorem display_reads_back :
    (∀ x y : Float, x.isNaN = false → y.isNaN = false → x.toBits ≠ y.toBits →
      display x ≠ display y) ∧
    (∀ x : Float, x.isFinite = true →
      (∃ negative d, readNumeral? (display x).toList = some (negative, d) ∧
        x.toBits.toNat = (if negative then Nat.pow 2 63 else 0) + d.toBits) ∧
      ∀ bits, ConvertsTo (display x) bits ↔ bits = x.toBits) ∧
    ∀ x : Float, x.isFinite = true → x.toBits.toNat < Nat.pow 2 63 → 'e' ∉ (display x).toList →
      ∀ file, (scan file (display x)).errors = [] ∧
        ∃ t, (scan file (display x)).allTokens = [t, (scan file (display x)).endToken] ∧
          t.kind = .number x ∧ (scan file (display x)).endToken.kind = .endOfInput := by
  refine ⟨fun x y hx hy hne htext => hne (toBits_eq_of_display_eq hx hy htext),
    fun x hfinite => ⟨?_, convertsTo_display_iff hfinite⟩,
    fun x hfinite hsign hexponent file => ?_⟩
  · obtain ⟨negative, n, htext, hbits⟩ := exists_numeral_display hfinite
    exact ⟨negative, n.decimal, htext ▸ readNumeral?_signText negative n, hbits⟩
  · obtain ⟨t, endToken, hscan, hkind, hend⟩ := scan_display hfinite hsign hexponent file
    rw [hscan]
    exact ⟨rfl, t, rfl, hkind, hend⟩

theorem display_reads_back_samples :
    ((Float.ofBits 0).isNaN = false ∧ (Float.ofBits 0x8000000000000000).isNaN = false ∧
      display (Float.ofBits 0) ≠ display (Float.ofBits 0x8000000000000000)) ∧
    ((Float.ofBits 1).isFinite = true ∧ display (Float.ofBits 1) = "5e-324" ∧
      ConvertsTo "5e-324" 1) ∧
    ((Float.ofBits 0x3FB999999999999A).isFinite = true ∧
      display (Float.ofBits 0x3FB999999999999A) = "0.1" ∧
      ∃ t, (scan 1 "0.1").allTokens = [t, (scan 1 "0.1").endToken] ∧
        t.kind = .number (Float.ofBits 0x3FB999999999999A)) := by
  obtain ⟨hdiffer, hconvert, hscan⟩ := display_reads_back
  have hzero : (Float.ofBits 0).isNaN = false := by decide +kernel
  have hnegative : (Float.ofBits 0x8000000000000000).isNaN = false := by decide +kernel
  have hleast : (Float.ofBits 1).isFinite = true := by decide +kernel
  have hleastText : display (Float.ofBits 1) = "5e-324" := by decide +kernel
  have htenth : (Float.ofBits 0x3FB999999999999A).isFinite = true := by decide +kernel
  have htenthText : display (Float.ofBits 0x3FB999999999999A) = "0.1" := by decide +kernel
  have hconverts := ((hconvert _ hleast).2 (Float.ofBits 1).toBits).mpr rfl
  obtain ⟨_, t, hall, hkind, _⟩ := hscan _ htenth (by decide +kernel)
    (by rw [htenthText]; decide) 1
  rw [htenthText] at hall
  refine ⟨⟨hzero, hnegative, hdiffer _ _ hzero hnegative (by decide +kernel)⟩,
    ⟨hleast, hleastText, ?_⟩, htenth, htenthText, t, hall, hkind⟩
  rwa [hleastText, show (Float.ofBits 1).toBits = 1 by decide +kernel] at hconverts

end Treewalk.Number
