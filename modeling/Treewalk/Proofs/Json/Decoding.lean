import Treewalk.Json

/-!
# Reading JSON back

A reader of JSON texts that knows nothing of how they were written: blanks may stand between the
parts, every escape is understood, and of an object no name may occur twice. Numbers are whole, as
in every value. What is written from a value whose objects have distinct names is read back as that
value, and it is one line of printable ASCII characters.
-/

namespace Treewalk.Json

/-! ### The reader -/

/-- The blanks that may stand between the parts of a text. -/
def isSpace (c : Char) : Bool := c == ' ' || c == '\t' || c == '\n' || c == '\r'

/-- The value of a hexadecimal digit of either case. -/
def hexValue? (c : Char) : Option Nat :=
  if '0' ≤ c ∧ c ≤ '9' then some (c.toNat - 0x30)
  else if 'a' ≤ c ∧ c ≤ 'f' then some (c.toNat - 0x57)
  else if 'A' ≤ c ∧ c ≤ 'F' then some (c.toNat - 0x37)
  else none

/-- The 16-bit unit that the next four characters give as hexadecimal digits. -/
def unit? : List Char → Option Nat
  | a :: b :: c :: d :: _ => do
    let a ← hexValue? a
    let b ← hexValue? b
    let c ← hexValue? c
    let d ← hexValue? d
    return ((a * 16 + b) * 16 + c) * 16 + d
  | _ => none

/-- The character that a letter after a backslash stands for. -/
def shortEscape? (c : Char) : Option Char :=
  if c = Text.doubleQuote ∨ c = '\\' ∨ c = '/' then some c
  else if c = 'b' then some '\x08'
  else if c = 'f' then some '\x0c'
  else if c = 'n' then some '\n'
  else if c = 'r' then some '\r'
  else if c = 't' then some '\t'
  else none

/-- The character of a high surrogate and the low one whose escape follows. -/
def surrogatePair? (high : Nat) : List Char → Option Char
  | '\\' :: 'u' :: text =>
    (unit? text).bind fun low =>
      if 0xDC00 ≤ low ∧ low < 0xE000 then
        some (Char.ofNat (0x10000 + (high - 0xD800) * 0x400 + (low - 0xDC00)))
      else none
  | _ => none

/-- The character that an escape stands for, from behind its backslash, and the number of characters
that the escape takes from there. A surrogate alone stands for no character. -/
def escape? : List Char → Option (Char × Nat)
  | [] => none
  | c :: text =>
    if c = 'u' then
      (unit? text).bind fun unit =>
        if unit < 0xD800 ∨ 0xE000 ≤ unit then some (Char.ofNat unit, 5)
        else if unit < 0xDC00 then (surrogatePair? unit (text.drop 4)).map (·, 11)
        else none
    else (shortEscape? c).map (·, 1)

/-- The characters of a string up to its closing quote, and what follows. -/
def readString? (text : List Char) : Option (List Char × List Char) :=
  match text with
  | [] => none
  | c :: rest =>
    if c = Text.doubleQuote then some ([], rest)
    else if c = '\\' then
      match escape? rest with
      | none => none
      | some (d, taken) =>
        (readString? (rest.drop taken)).map fun (body, behind) => (d :: body, behind)
    else if c.toNat < 0x20 then none
    else (readString? rest).map fun (body, behind) => (c :: body, behind)
termination_by text.length
decreasing_by all_goals (simp only [List.length_cons, List.length_drop]; omega)

/-- A number and what follows. It has no zero in front of other digits, no fraction and no
exponent. -/
def readNat? (text : List Char) : Option (Nat × List Char) :=
  let digits := text.takeWhile Char.isDigit
  let rest := text.dropWhile Char.isDigit
  if digits = [] ∨ (digits.head? = some '0' ∧ digits ≠ ['0']) then none
  else if rest.head? ∈ [some '.', some 'e', some 'E'] then none
  else some (Nat.ofDigitChars 10 digits 0, rest)

/-- A number with or without a sign, and what follows. -/
def readInt? (text : List Char) : Option (Int × List Char) :=
  if text.head? = some '-' then (readNat? text.tail).map fun (n, rest) => (-n, rest)
  else (readNat? text).map fun (n, rest) => (n, rest)

/-- One of the three words that are values, and what follows. -/
def readWord? : List Char → Option (Json × List Char)
  | 'n' :: 'u' :: 'l' :: 'l' :: rest => some (.null, rest)
  | 't' :: 'r' :: 'u' :: 'e' :: rest => some (.bool true, rest)
  | 'f' :: 'a' :: 'l' :: 's' :: 'e' :: rest => some (.bool false, rest)
  | _ => none

/-- A text without the blanks in front. -/
def skipSpaces (text : List Char) : List Char := text.dropWhile isSpace

/-- The name of a member and its colon, and what follows. -/
def readName? : List Char → Option (String × List Char)
  | '\x22' :: rest =>
    (readString? rest).bind fun (name, rest) =>
      match skipSpaces rest with
      | ':' :: rest => some (String.ofList name, rest)
      | _ => none
  | _ => none

mutual

/-- A value and what follows. The budget bounds the values that can be read. -/
def readValue? : Nat → List Char → Option (Json × List Char)
  | 0, _ => none
  | budget + 1, text =>
    match skipSpaces text with
    | [] => none
    | c :: rest =>
      if c = '[' then
        let inner := skipSpaces rest
        if inner.head? = some ']' then some (.arr [], inner.tail)
        else (readItems? budget inner).map fun (items, rest) => (.arr items, rest)
      else if c = '\x7b' then
        let inner := skipSpaces rest
        if inner.head? = some '\x7d' then some (.obj [], inner.tail)
        else
          (readMembers? budget inner).bind fun (members, rest) =>
            if (members.map Prod.fst).Nodup then some (.obj members, rest) else none
      else if c = Text.doubleQuote then
        (readString? rest).map fun (body, rest) => (.str (String.ofList body), rest)
      else if c = '-' ∨ c.isDigit then
        (readInt? (c :: rest)).map fun (n, rest) => (.int n, rest)
      else readWord? (c :: rest)

/-- The items of an array, one or more, up to the closing bracket, and what follows. -/
def readItems? : Nat → List Char → Option (List Json × List Char)
  | 0, _ => none
  | budget + 1, text =>
    (readValue? budget text).bind fun (item, rest) =>
      match skipSpaces rest with
      | ']' :: rest => some ([item], rest)
      | ',' :: rest => (readItems? budget rest).map fun (items, rest) => (item :: items, rest)
      | _ => none

/-- The members of an object, one or more, up to the closing brace, and what follows. -/
def readMembers? : Nat → List Char → Option (List (String × Json) × List Char)
  | 0, _ => none
  | budget + 1, text =>
    (readName? (skipSpaces text)).bind fun (name, rest) =>
      (readValue? budget rest).bind fun (value, rest) =>
        match skipSpaces rest with
        | '\x7d' :: rest => some ([(name, value)], rest)
        | ',' :: rest =>
          (readMembers? budget rest).map fun (members, rest) => ((name, value) :: members, rest)
        | _ => none

end

theorem hexValue?_digitChar {n : Nat} (h : n < 16) : hexValue? (Nat.digitChar n) = some n := by
  have hall : ∀ n < 16, hexValue? (Nat.digitChar n) = some n := by decide
  exact hall n h

theorem unit?_hexDigits {n : Nat} (h : n < 0x10000) (text : List Char) :
    unit? (Text.hexDigits 4 n ++ text) = some n := by
  have hdigits : Text.hexDigits 4 n ++ text =
      Nat.digitChar (n / 16 / 16 / 16 % 16) :: Nat.digitChar (n / 16 / 16 % 16) ::
        Nat.digitChar (n / 16 % 16) :: Nat.digitChar (n % 16) :: text := by
    simp [Text.hexDigits]
  have hvalue : ∀ m : Nat, hexValue? (Nat.digitChar (m % 16)) = some (m % 16) :=
    fun m => hexValue?_digitChar (Nat.mod_lt m (by decide))
  rw [hdigits]
  simp only [unit?, hvalue, Option.pure_def, Option.bind_eq_bind, Option.bind_some,
    Option.some.injEq]
  omega

theorem toNat_scalar (c : Char) :
    c.toNat < 0xD800 ∨ 0xDFFF < c.toNat ∧ c.toNat < 0x110000 := c.valid

/-- A character of the basic plane is read back from its escape. -/
theorem escape?_unit {c : Char} (h : c.toNat < 0x10000) (text : List Char) :
    escape? ('u' :: (Text.hexDigits 4 c.toNat ++ text)) = some (c, 5) := by
  have hscalar := toNat_scalar c
  rw [escape?, if_pos rfl, unit?_hexDigits h, Option.bind_some, if_pos (by omega),
    Char.ofNat_toNat]

/-- A character above the basic plane is read back from the escapes of its surrogates. -/
theorem escape?_surrogates {c : Char} (h : ¬ c.toNat < 0x10000) (text : List Char) :
    escape? ('u' :: (Text.hexDigits 4 (0xD800 + (c.toNat - 0x10000) / 0x400) ++
      (unitEscape (0xDC00 + (c.toNat - 0x10000) % 0x400) ++ text))) = some (c, 11) := by
  have hscalar := toNat_scalar c
  generalize hhigh : (c.toNat - 0x10000) / 0x400 = high
  generalize hlow : (c.toNat - 0x10000) % 0x400 = low
  have hvalue : 0x10000 + (0xD800 + high - 0xD800) * 0x400 + (0xDC00 + low - 0xDC00) =
      c.toNat := by omega
  have hpair : surrogatePair? (0xD800 + high) (unitEscape (0xDC00 + low) ++ text) = some c := by
    rw [unitEscape, List.cons_append, List.cons_append, surrogatePair?, unit?_hexDigits (by omega),
      Option.bind_some, if_pos (by omega), hvalue, Char.ofNat_toNat]
  have hdrop : (Text.hexDigits 4 (0xD800 + high) ++ (unitEscape (0xDC00 + low) ++ text)).drop 4 =
      unitEscape (0xDC00 + low) ++ text := List.drop_left' (by simp [Text.hexDigits])
  rw [escape?, if_pos rfl, unit?_hexDigits (by omega), Option.bind_some, if_neg (by omega),
    if_pos (by omega), hdrop, hpair]
  rfl

/-- A string goes on behind an escape. -/
theorem readString?_escape {c : Char} {code text : List Char}
    (h : escape? (code ++ text) = some (c, code.length)) :
    readString? ('\\' :: (code ++ text)) =
      (readString? text).map fun (body, behind) => (c :: body, behind) := by
  rw [readString?, if_neg (by decide), if_pos rfl]
  simp only [h, List.drop_left]

/-- Every character is read back from its escape. -/
theorem readString?_escapeChar (c : Char) (text : List Char) :
    readString? (escapeChar c ++ text) =
      (readString? text).map fun (body, behind) => (c :: body, behind) := by
  have hshort : ∀ {letter : Char}, escape? (letter :: text) = some (c, 1) →
      readString? (['\\', letter] ++ text) =
        (readString? text).map fun (body, behind) => (c :: body, behind) :=
    fun h => readString?_escape h
  unfold escapeChar
  dsimp only
  split
  · next hc =>
    subst hc
    exact hshort rfl
  split
  · next hc =>
    subst hc
    exact hshort rfl
  split
  · next hc =>
    subst hc
    exact hshort rfl
  split
  · next hc =>
    subst hc
    exact hshort rfl
  split
  · next hc =>
    subst hc
    exact hshort rfl
  split
  · next hn =>
    obtain rfl : c = '\x08' := Char.toNat_inj.mp hn
    exact hshort rfl
  split
  · next hn =>
    obtain rfl : c = '\x0c' := Char.toNat_inj.mp hn
    exact hshort rfl
  split
  · rw [List.singleton_append, readString?, if_neg ‹¬ c = Text.doubleQuote›, if_neg ‹¬ c = '\\'›,
      if_neg (by omega)]
  split
  · next hbasic => exact readString?_escape (escape?_unit hbasic text)
  · next hbasic =>
    have hread := escape?_surrogates hbasic text
    rw [← List.append_assoc, ← List.cons_append] at hread
    exact readString?_escape hread

/-- A string is read back from its characters and the closing quote. -/
theorem readString?_flatMap (body text : List Char) :
    readString? (body.flatMap escapeChar ++ Text.doubleQuote :: text) = some (body, text) := by
  induction body with
  | nil => rw [List.flatMap_nil, List.nil_append, readString?, if_pos rfl]
  | cons c rest ih =>
    rw [List.flatMap_cons, List.append_assoc, readString?_escapeChar, ih]
    rfl

/-! ### Numbers -/

/-- What may follow a value inside a text: nothing, a comma or a closing bracket. -/
def Closes (text : List Char) : Prop :=
  ∀ c ∈ text.head?, c = ',' ∨ c = ']' ∨ c = '\x7d'

theorem Closes.not_isDigit {text : List Char} (h : Closes text) {c : Char}
    (hc : text.head? = some c) : c.isDigit = false := by
  rcases h c hc with rfl | rfl | rfl <;> rfl

theorem toDigits_eq_cons (n : Nat) : ∃ first rest, Nat.toDigits 10 n = first :: rest ∧
    first.isDigit = true := by
  obtain ⟨first, rest, hdigits⟩ := List.exists_cons_of_ne_nil (@Nat.toDigits_ne_nil n 10)
  have hfirst : first ∈ Nat.toDigits 10 n := by
    rw [hdigits]
    exact List.mem_cons_self
  exact ⟨first, rest, hdigits, Nat.isDigit_of_mem_toDigits (by decide) (by decide) hfirst⟩

/-- Numbers other than zero are written without a zero in front. -/
theorem eq_zero_of_head?_toDigits {n : Nat} (h : (Nat.toDigits 10 n).head? = some '0') :
    n = 0 := by
  induction n using Nat.strongRecOn with
  | ind n ih =>
    rw [Nat.toDigits_eq_if (by decide)] at h
    by_cases hlt : n < 10
    · rw [if_pos hlt] at h
      have hall : ∀ m < 10, [Nat.digitChar m].head? = some '0' → m = 0 := by decide
      exact hall n hlt h
    · obtain ⟨first, rest, hdigits, _⟩ := toDigits_eq_cons (n / 10)
      rw [if_neg hlt, hdigits] at h
      have hzero := ih (n / 10) (by omega) (by rw [hdigits]; exact h)
      omega

theorem readNat?_toDigits (n : Nat) {text : List Char} (h : Closes text) :
    readNat? (Nat.toDigits 10 n ++ text) = some (n, text) := by
  have hdigits : ∀ c ∈ Nat.toDigits 10 n, c.isDigit = true :=
    fun c hc => Nat.isDigit_of_mem_toDigits (by decide) (by decide) hc
  have hnone : text.takeWhile Char.isDigit = [] ∧ text.dropWhile Char.isDigit = text := by
    cases text with
    | nil => exact ⟨rfl, rfl⟩
    | cons c rest =>
      have hc : c.isDigit = false := h.not_isDigit rfl
      exact ⟨List.takeWhile_cons_of_neg (by simp [hc]), List.dropWhile_cons_of_neg (by simp [hc])⟩
  have htake : (Nat.toDigits 10 n ++ text).takeWhile Char.isDigit = Nat.toDigits 10 n := by
    rw [List.takeWhile_append_of_pos hdigits, hnone.1, List.append_nil]
  have hdrop : (Nat.toDigits 10 n ++ text).dropWhile Char.isDigit = text := by
    rw [List.dropWhile_append_of_pos hdigits, hnone.2]
  have hhead : ¬ (Nat.toDigits 10 n = [] ∨
      ((Nat.toDigits 10 n).head? = some '0' ∧ Nat.toDigits 10 n ≠ ['0'])) := by
    rintro (hnil | ⟨hzero, hne⟩)
    · exact Nat.toDigits_ne_nil hnil
    · rw [eq_zero_of_head?_toDigits hzero] at hne
      exact hne (Nat.toDigits_zero 10)
  have hafter : text.head? ∉ [some '.', some 'e', some 'E'] := by
    cases text with
    | nil => decide
    | cons c rest => rcases h c rfl with rfl | rfl | rfl <;> simp
  simp only [readNat?, htake, hdrop, if_neg hhead, if_neg hafter, Nat.ofDigitChars_ten_toDigits]

theorem readInt?_toString (n : Int) {text : List Char} (h : Closes text) :
    readInt? ((toString n).toList ++ text) = some (n, text) := by
  rw [Int.toString_eq_repr, Int.repr_eq_if]
  by_cases hn : 0 ≤ n
  · have hhead : (Nat.toDigits 10 n.toNat ++ text).head? ≠ some '-' := by
      obtain ⟨first, rest, hdigits, hfirst⟩ := toDigits_eq_cons n.toNat
      rw [hdigits]
      rintro ⟨⟩
      exact absurd hfirst (by decide)
    rw [if_pos hn, Nat.toList_repr, readInt?, if_neg hhead, readNat?_toDigits _ h]
    simp only [Option.map_some, Option.some.injEq, Prod.mk.injEq, and_true]
    omega
  · rw [if_neg hn, String.toList_append, Nat.toList_repr]
    change (readNat? (Nat.toDigits 10 (-n).toNat ++ text)).map _ = _
    rw [readNat?_toDigits _ h]
    simp only [Option.map_some, Option.some.injEq, Prod.mk.injEq, and_true]
    omega

/-- The text of a number begins with a sign or a digit. -/
theorem toString_eq_cons (n : Int) : ∃ c rest, (toString n).toList = c :: rest ∧
    (c = '-' ∨ c.isDigit = true) := by
  rw [Int.toString_eq_repr, Int.repr_eq_if]
  by_cases hn : 0 ≤ n
  · obtain ⟨first, rest, hdigits, hfirst⟩ := toDigits_eq_cons n.toNat
    rw [if_pos hn, Nat.toList_repr]
    exact ⟨first, rest, hdigits, .inr hfirst⟩
  · rw [if_neg hn, String.toList_append]
    exact ⟨'-', _, rfl, .inl rfl⟩

/-! ### Values -/

mutual

/-- No name occurs twice in an object of a value. -/
def Proper : Json → Prop
  | .arr items => ItemsProper items
  | .obj members => (members.map Prod.fst).Nodup ∧ MembersProper members
  | _ => True

/-- Proper items. -/
def ItemsProper : List Json → Prop
  | [] => True
  | item :: rest => item.Proper ∧ ItemsProper rest

/-- Members with proper values. -/
def MembersProper : List (String × Json) → Prop
  | [] => True
  | (_, value) :: rest => value.Proper ∧ MembersProper rest

end

theorem skipSpaces_cons {c : Char} (h : isSpace c = false) (text : List Char) :
    skipSpaces (c :: text) = c :: text :=
  List.dropWhile_cons_of_neg (by simp [h])

theorem numeric_spec {c : Char} (h : c = '-' ∨ c.isDigit = true) :
    isSpace c = false ∧ c ≠ '[' ∧ c ≠ ']' ∧ c ≠ '\x7b' ∧ c ≠ Text.doubleQuote := by
  refine ⟨?_, ?_, ?_, ?_, ?_⟩
  · rw [Bool.eq_false_iff]
    intro hspace
    simp only [isSpace, Bool.or_eq_true, beq_iff_eq] at hspace
    rcases hspace with ((rfl | rfl) | rfl) | rfl <;> exact absurd h (by decide)
  all_goals
    rintro rfl
    exact absurd h (by decide)

/-- The text of a value begins with a character that is neither blank nor a closing bracket. -/
theorem encodeChars_eq_cons (v : Json) : ∃ c rest, v.encodeChars = c :: rest ∧
    isSpace c = false ∧ c ≠ ']' := by
  cases v with
  | null | str | arr | obj => exact ⟨_, _, rfl, rfl, by decide⟩
  | bool b => cases b <;> exact ⟨_, _, rfl, rfl, by decide⟩
  | int n =>
    obtain ⟨c, rest, htext, hc⟩ := toString_eq_cons n
    obtain ⟨hspace, hne⟩ := numeric_spec hc
    exact ⟨c, rest, htext, hspace, hne.2.1⟩

theorem encodeItems_eq_cons (item : Json) (rest : List Json) :
    ∃ c more, encodeItems (item :: rest) = c :: more ∧ isSpace c = false ∧ c ≠ ']' := by
  obtain ⟨c, more, hitem, hc⟩ := encodeChars_eq_cons item
  cases rest with
  | nil => exact ⟨c, more, hitem, hc⟩
  | cons next others =>
    refine ⟨c, more ++ [',', ' '] ++ encodeItems (next :: others), ?_, hc⟩
    rw [encodeItems, hitem]
    rfl

theorem encodeMembers_eq_cons (name : String) (value : Json) (rest : List (String × Json)) :
    ∃ more, encodeMembers ((name, value) :: rest) = Text.doubleQuote :: more := by
  cases rest with
  | nil => exact ⟨_, rfl⟩
  | cons next others => exact ⟨_, rfl⟩

theorem readItems?_space (budget : Nat) (text : List Char) :
    readItems? budget (' ' :: text) = readItems? budget text := by
  cases budget with
  | zero => rfl
  | succ budget =>
    cases budget with
    | zero => rfl
    | succ budget => rfl

theorem readValue?_space (budget : Nat) (text : List Char) :
    readValue? budget (' ' :: text) = readValue? budget text := by
  cases budget with
  | zero => rfl
  | succ budget => rfl

theorem readMembers?_space (budget : Nat) (text : List Char) :
    readMembers? budget (' ' :: text) = readMembers? budget text := by
  cases budget with
  | zero => rfl
  | succ budget => rfl

theorem readValue?_toString (n : Int) (budget : Nat) {text : List Char} (h : Closes text) :
    readValue? (budget + 1) ((toString n).toList ++ text) = some (.int n, text) := by
  have hread := readInt?_toString n h
  obtain ⟨c, rest, hchars, hc⟩ := toString_eq_cons n
  obtain ⟨hspace, hbracket, _, hbrace, hquote⟩ := numeric_spec hc
  rw [hchars, List.cons_append] at hread ⊢
  simp only [readValue?, skipSpaces_cons hspace, if_neg hbracket, if_neg hbrace, if_neg hquote,
    if_pos hc, hread, Option.map_some]

theorem readValue?_string (value : String) (budget : Nat) (text : List Char) :
    readValue? (budget + 1) (encodeString value ++ text) = some (.str value, text) := by
  have hread := readString?_flatMap value.toList text
  have hchars : encodeString value ++ text =
      Text.doubleQuote :: (value.toList.flatMap escapeChar ++ Text.doubleQuote :: text) := by
    simp [encodeString]
  rw [hchars]
  change (readString? (value.toList.flatMap escapeChar ++ Text.doubleQuote :: text)).map _ = _
  simp only [hread, Option.map_some, String.ofList_toList]

theorem readName?_encodeString (name : String) (text : List Char) :
    readName? (skipSpaces (encodeString name ++ ':' :: text)) = some (name, text) := by
  have hread := readString?_flatMap name.toList (':' :: text)
  have hchars : encodeString name ++ ':' :: text =
      '\x22' :: (name.toList.flatMap escapeChar ++ Text.doubleQuote :: ':' :: text) := by
    simp [encodeString, Text.doubleQuote]
  rw [hchars, skipSpaces_cons rfl, readName?, hread]
  simp only [Option.bind_some, skipSpaces_cons (rfl : isSpace ':' = false), String.ofList_toList]

/-- Behind an opening bracket and a character that does not close it stand the items. -/
theorem readValue?_bracket {c : Char} (hspace : isSpace c = false) (hne : c ≠ ']') (budget : Nat)
    (text : List Char) :
    readValue? (budget + 1) ('[' :: c :: text) =
      (readItems? budget (c :: text)).map fun (items, rest) => (.arr items, rest) := by
  have hhead : ¬ (c :: text).head? = some ']' := fun h => hne (Option.some.inj h)
  simp only [readValue?, skipSpaces_cons (rfl : isSpace '[' = false), skipSpaces_cons hspace,
    if_true, if_neg hhead]

/-- Behind an opening brace and a quote stand the members. -/
theorem readValue?_brace (budget : Nat) (text : List Char) :
    readValue? (budget + 1) ('\x7b' :: Text.doubleQuote :: text) =
      (readMembers? budget (Text.doubleQuote :: text)).bind fun (members, rest) =>
        if (members.map Prod.fst).Nodup then some (.obj members, rest) else none := rfl

theorem closes_cons {c : Char} (h : c = ',' ∨ c = ']' ∨ c = '\x7d') (text : List Char) :
    Closes (c :: text) := by
  rintro _ ⟨⟩
  exact h

/-- With a budget, whatever needs no more is read back from its text, up to what closes it. -/
structure Recovers (budget : Nat) : Prop where
  value : ∀ (v : Json) (text : List Char), v.Proper → v.encodeChars.length < budget →
    Closes text → readValue? budget (v.encodeChars ++ text) = some (v, text)
  items : ∀ (item : Json) (rest : List Json) (text : List Char), ItemsProper (item :: rest) →
    (encodeItems (item :: rest)).length + 1 < budget →
    readItems? budget (encodeItems (item :: rest) ++ ']' :: text) = some (item :: rest, text)
  members : ∀ (name : String) (value : Json) (rest : List (String × Json)) (text : List Char),
    MembersProper ((name, value) :: rest) →
    (encodeMembers ((name, value) :: rest)).length < budget →
    readMembers? budget (encodeMembers ((name, value) :: rest) ++ '\x7d' :: text) =
      some ((name, value) :: rest, text)

variable {budget : Nat}

theorem Recovers.array (h : Recovers budget) {items : List Json} {text : List Char}
    (hproper : ItemsProper items) (hbudget : (encodeItems items).length + 1 < budget) :
    readValue? (budget + 1) ((Json.arr items).encodeChars ++ text) = some (.arr items, text) := by
  cases items with
  | nil => rfl
  | cons item rest =>
    have hread := h.items item rest text hproper hbudget
    obtain ⟨c, more, hitems, hspace, hne⟩ := encodeItems_eq_cons item rest
    have hchars : (Json.arr (item :: rest)).encodeChars ++ text =
        '[' :: c :: (more ++ ']' :: text) := by
      rw [encodeChars, hitems]
      simp
    rw [hitems, List.cons_append] at hread
    rw [hchars, readValue?_bracket hspace hne, hread]
    rfl

theorem Recovers.object (h : Recovers budget) {members : List (String × Json)} {text : List Char}
    (hnames : (members.map Prod.fst).Nodup) (hproper : MembersProper members)
    (hbudget : (encodeMembers members).length < budget) :
    readValue? (budget + 1) ((Json.obj members).encodeChars ++ text) =
      some (.obj members, text) := by
  cases members with
  | nil => rfl
  | cons member rest =>
    obtain ⟨name, value⟩ := member
    have hread := h.members name value rest text hproper hbudget
    obtain ⟨more, hmembers⟩ := encodeMembers_eq_cons name value rest
    have hchars : (Json.obj ((name, value) :: rest)).encodeChars ++ text =
        '\x7b' :: Text.doubleQuote :: (more ++ '\x7d' :: text) := by
      rw [encodeChars, hmembers]
      simp
    rw [hmembers, List.cons_append] at hread
    simp only [hchars, readValue?_brace, hread, Option.bind_some, if_pos hnames]

theorem Recovers.items_succ (h : Recovers budget) (item : Json) (rest : List Json)
    (text : List Char) (hproper : ItemsProper (item :: rest))
    (hbudget : (encodeItems (item :: rest)).length + 1 < budget + 1) :
    readItems? (budget + 1) (encodeItems (item :: rest) ++ ']' :: text) =
      some (item :: rest, text) := by
  cases rest with
  | nil =>
    rw [encodeItems] at hbudget
    have hitem := h.value item (']' :: text) hproper.1 (by omega) (closes_cons (by simp) _)
    rw [readItems?, encodeItems, hitem]
    rfl
  | cons next more =>
    simp only [encodeItems, List.length_append, List.length_cons, List.length_nil] at hbudget
    have hitem := h.value item (',' :: ' ' :: (encodeItems (next :: more) ++ ']' :: text))
      hproper.1 (by omega) (closes_cons (by simp) _)
    have hrest := h.items next more text hproper.2 (by omega)
    have hchars : encodeItems (item :: next :: more) ++ ']' :: text =
        item.encodeChars ++ ',' :: ' ' :: (encodeItems (next :: more) ++ ']' :: text) := by
      simp [encodeItems]
    simp only [hchars, readItems?, hitem, Option.bind_some,
      skipSpaces_cons (rfl : isSpace ',' = false), readItems?_space, hrest, Option.map_some]

theorem Recovers.members_succ (h : Recovers budget) (name : String) (value : Json)
    (rest : List (String × Json)) (text : List Char)
    (hproper : MembersProper ((name, value) :: rest))
    (hbudget : (encodeMembers ((name, value) :: rest)).length < budget + 1) :
    readMembers? (budget + 1) (encodeMembers ((name, value) :: rest) ++ '\x7d' :: text) =
      some ((name, value) :: rest, text) := by
  cases rest with
  | nil =>
    simp only [encodeMembers, List.length_append, List.length_cons, List.length_nil] at hbudget
    have hvalue := h.value value ('\x7d' :: text) hproper.1 (by omega) (closes_cons (by simp) _)
    have hchars : encodeMembers [(name, value)] ++ '\x7d' :: text =
        encodeString name ++ ':' :: ' ' :: (value.encodeChars ++ '\x7d' :: text) := by
      simp [encodeMembers]
    simp only [hchars, readMembers?, readName?_encodeString, Option.bind_some, readValue?_space,
      hvalue, skipSpaces_cons (rfl : isSpace '\x7d' = false)]
  | cons next more =>
    obtain ⟨nextName, nextValue⟩ := next
    simp only [encodeMembers, List.length_append, List.length_cons, List.length_nil] at hbudget
    have hvalue := h.value value
      (',' :: ' ' :: (encodeMembers ((nextName, nextValue) :: more) ++ '\x7d' :: text))
      hproper.1 (by omega) (closes_cons (by simp) _)
    have hrest := h.members nextName nextValue more text hproper.2 (by omega)
    have hchars :
        encodeMembers ((name, value) :: (nextName, nextValue) :: more) ++ '\x7d' :: text =
          encodeString name ++ ':' :: ' ' :: (value.encodeChars ++
            ',' :: ' ' :: (encodeMembers ((nextName, nextValue) :: more) ++ '\x7d' :: text)) := by
      simp [encodeMembers]
    simp only [hchars, readMembers?, readName?_encodeString, Option.bind_some, readValue?_space,
      hvalue, skipSpaces_cons (rfl : isSpace ',' = false), readMembers?_space, hrest,
      Option.map_some]

/-- Whatever needs no more than a budget is read back with it. -/
theorem recovers (budget : Nat) : Recovers budget := by
  induction budget with
  | zero =>
    exact ⟨fun _ _ _ h => absurd h (Nat.not_lt_zero _),
      fun _ _ _ _ h => absurd h (Nat.not_lt_zero _),
      fun _ _ _ _ _ h => absurd h (Nat.not_lt_zero _)⟩
  | succ budget ih =>
    refine ⟨fun v text hproper hbudget htext => ?_, ih.items_succ, ih.members_succ⟩
    cases v with
    | null => rfl
    | bool b => cases b <;> rfl
    | int n => exact readValue?_toString n budget htext
    | str value => exact readValue?_string value budget text
    | arr items =>
      refine ih.array hproper ?_
      simp only [encodeChars, List.cons_append, List.length_cons, List.length_append,
        List.length_nil] at hbudget
      omega
    | obj members =>
      refine ih.object hproper.1 hproper.2 ?_
      simp only [encodeChars, List.cons_append, List.length_cons, List.length_append,
        List.length_nil] at hbudget
      omega

/-- A printable ASCII character. -/
def IsPlain (c : Char) : Prop := 0x20 ≤ c.toNat ∧ c.toNat < 0x7F

instance (c : Char) : Decidable (IsPlain c) := inferInstanceAs (Decidable (_ ∧ _))

theorem isPlain_of_all {chars : List Char} (h : chars.all (decide <| IsPlain ·) = true) :
    ∀ c ∈ chars, IsPlain c :=
  fun c hc => of_decide_eq_true (List.all_eq_true.mp h c hc)

theorem isPlain_hexDigits (width n : Nat) : ∀ c ∈ Text.hexDigits width n, IsPlain c := by
  have hdigit : ∀ m < 16, IsPlain (Nat.digitChar m) := by decide
  induction width generalizing n with
  | zero => exact fun c hc => absurd hc List.not_mem_nil
  | succ width ih =>
    rw [Text.hexDigits, List.forall_mem_append, List.forall_mem_singleton]
    exact ⟨ih _, hdigit _ (Nat.mod_lt n (by decide))⟩

theorem isPlain_unitEscape (unit : Nat) : ∀ c ∈ unitEscape unit, IsPlain c := by
  rw [unitEscape, List.forall_mem_cons, List.forall_mem_cons]
  exact ⟨by decide, by decide, isPlain_hexDigits 4 unit⟩

theorem isPlain_escapeChar (c : Char) : ∀ d ∈ escapeChar c, IsPlain d := by
  unfold escapeChar
  dsimp only
  -- the seven escapes by a letter
  iterate 7
    split
    · exact isPlain_of_all (by decide)
  split
  · next hplain => rwa [List.forall_mem_singleton]
  split
  · exact isPlain_unitEscape _
  · rw [List.forall_mem_append]
    exact ⟨isPlain_unitEscape _, isPlain_unitEscape _⟩

theorem isPlain_encodeString (text : String) : ∀ c ∈ encodeString text, IsPlain c := by
  rw [encodeString, List.cons_append, List.forall_mem_cons, List.forall_mem_append,
    List.forall_mem_flatMap]
  exact ⟨by decide, fun c _ => isPlain_escapeChar c, isPlain_of_all (by decide)⟩

theorem isPlain_toString (n : Int) : ∀ c ∈ (toString n).toList, IsPlain c := by
  have hdigits : ∀ m : Nat, ∀ c ∈ Nat.toDigits 10 m, IsPlain c := by
    intro m c hc
    have hdigit : 0x30 ≤ c.toNat ∧ c.toNat ≤ 0x39 :=
      Char.isDigit_iff_toNat.mp (Nat.isDigit_of_mem_toDigits (by decide) (by decide) hc)
    unfold IsPlain
    omega
  rw [Int.toString_eq_repr, Int.repr_eq_if]
  by_cases hn : 0 ≤ n
  · rw [if_pos hn, Nat.toList_repr]
    exact hdigits _
  · rw [if_neg hn, String.toList_append, Nat.toList_repr, List.forall_mem_append]
    exact ⟨isPlain_of_all (by decide), hdigits _⟩

mutual

/-- The text of a value has printable ASCII characters only. -/
theorem isPlain_encodeChars (v : Json) : ∀ c ∈ v.encodeChars, IsPlain c := by
  match v with
  | .null | .bool true | .bool false => exact isPlain_of_all (by decide)
  | .int n => exact isPlain_toString n
  | .str value => exact isPlain_encodeString value
  | .arr items =>
    rw [encodeChars, List.cons_append, List.forall_mem_cons, List.forall_mem_append]
    exact ⟨by decide, isPlain_encodeItems items, isPlain_of_all (by decide)⟩
  | .obj members =>
    rw [encodeChars, List.cons_append, List.forall_mem_cons, List.forall_mem_append]
    exact ⟨by decide, isPlain_encodeMembers members, isPlain_of_all (by decide)⟩

theorem isPlain_encodeItems (items : List Json) : ∀ c ∈ encodeItems items, IsPlain c := by
  match items with
  | [] => exact fun c hc => absurd hc List.not_mem_nil
  | [item] => exact isPlain_encodeChars item
  | item :: next :: rest =>
    simp only [encodeItems, List.forall_mem_append]
    exact ⟨⟨isPlain_encodeChars item, isPlain_of_all (by decide)⟩,
      isPlain_encodeItems (next :: rest)⟩

theorem isPlain_encodeMembers (members : List (String × Json)) :
    ∀ c ∈ encodeMembers members, IsPlain c := by
  match members with
  | [] => exact fun c hc => absurd hc List.not_mem_nil
  | [(name, value)] =>
    simp only [encodeMembers, List.forall_mem_append]
    exact ⟨⟨isPlain_encodeString name, isPlain_of_all (by decide)⟩, isPlain_encodeChars value⟩
  | (name, value) :: next :: rest =>
    simp only [encodeMembers, List.forall_mem_append]
    exact ⟨⟨⟨⟨isPlain_encodeString name, isPlain_of_all (by decide)⟩, isPlain_encodeChars value⟩,
      isPlain_of_all (by decide)⟩,
      isPlain_encodeMembers (next :: rest)⟩

end

end Treewalk.Json
