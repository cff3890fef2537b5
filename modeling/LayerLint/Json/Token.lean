import LayerLint.Json.Numeral

/-! # The tokens of a JSON text

A text is cut into punctuation, strings and other scalars, with blanks between them. A string may
not hold raw control characters, and its escapes must spell whole characters: of two surrogates
that belong together neither may stand alone.
-/

namespace LayerLint.Json

/-- A token of a JSON text. -/
inductive Token where
  | openBrace
  | closeBrace
  | openBracket
  | closeBracket
  | comma
  | colon
  /-- A string, its escapes resolved. -/
  | quoted (value : String)
  /-- Any other value that is not built from others. -/
  | scalar (value : Json)

namespace Token

/-- A blank between tokens. -/
def isSpace (c : Char) : Bool :=
  c == ' ' || c == '\t' || c == '\n' || c == '\r'

/-- The value of a hexadecimal digit. -/
def hexDigit? (c : Char) : Option Nat :=
  if c.isDigit then some (c.toNat - '0'.toNat)
  else if 'a' ≤ c ∧ c ≤ 'f' then some (c.toNat - 'a'.toNat + 10)
  else if 'A' ≤ c ∧ c ≤ 'F' then some (c.toNat - 'A'.toNat + 10)
  else none

/-- The value of four hexadecimal digits. -/
def hexUnit? (a b c d : Char) : Option Nat := do
  return ((← hexDigit? a) * 16 + (← hexDigit? b)) * 256 +
    ((← hexDigit? c) * 16 + (← hexDigit? d))

/-- Whether a unit is the first half of a character beyond U+FFFF. -/
def isHighSurrogate (unit : Nat) : Bool := decide (0xD800 ≤ unit) && decide (unit < 0xDC00)

/-- Whether a unit is the second half of such a character. -/
def isLowSurrogate (unit : Nat) : Bool := decide (0xDC00 ≤ unit) && decide (unit < 0xE000)

/-- The character that two halves spell. -/
def joinSurrogates (high low : Nat) : Char :=
  Char.ofNat (0x10000 + (high - 0xD800) * 0x400 + (low - 0xDC00))

/-- The character that a backslash and a letter stand for. -/
def escaped? : Char → Option Char
  | '"' => some '"'
  | '\\' => some '\\'
  | '/' => some '/'
  | 'b' => some '\x08'
  | 'f' => some '\x0c'
  | 'n' => some '\n'
  | 'r' => some '\r'
  | 't' => some '\t'
  | _ => none

/-- Puts one more character before what has been read. -/
def prepend (c : Char) (read : List Char × List Char) : List Char × List Char :=
  (c :: read.1, read.2)

/-- Reads a string behind its opening quote: its characters, and what follows the closing quote.
`half` is the first half of a character whose second half is due. -/
def readString (half : Option Nat) : List Char → Option (List Char × List Char)
  | '\\' :: 'u' :: a :: b :: c :: d :: rest =>
      -- where fewer characters are left, the escape is read below and refused
      match hexUnit? a b c d, half with
      | some unit, some high =>
          if isLowSurrogate unit then
            (readString none rest).map (prepend (joinSurrogates high unit))
          else none
      | some unit, none =>
          if isHighSurrogate unit then readString (some unit) rest
          else if isLowSurrogate unit then none
          else (readString none rest).map (prepend (Char.ofNat unit))
      | none, _ => none
  | c :: rest =>
      if half.isSome then none
      else if c = '"' then some ([], rest)
      else if c = '\\' then
        match rest with
        | e :: rest =>
            match escaped? e with
            | some meant => (readString none rest).map (prepend meant)
            | none => none
        | [] => none
      else if c.toNat < 0x20 then none
      else (readString none rest).map (prepend c)
  | [] => none

/-- Reads at least one digit. -/
def readDigits? (text : List Char) : Option (List Char × List Char) :=
  match text.takeWhile Char.isDigit with
  | [] => none
  | digits => some (digits, text.dropWhile Char.isDigit)

/-- Reads the fraction of a numeral, if there is one. -/
def readFraction : List Char → Option (Option (List Char) × List Char)
  | '.' :: rest => (readDigits? rest).map fun (digits, left) => (some digits, left)
  | text => some (none, text)

/-- Reads the exponent of a numeral, if there is one. -/
def readExponent (text : List Char) : Option (Option (Bool × List Char) × List Char) :=
  match text with
  | c :: rest =>
      if c = 'e' ∨ c = 'E' then
        match rest with
        | '-' :: rest => (readDigits? rest).map fun (digits, left) => (some (true, digits), left)
        | '+' :: rest => (readDigits? rest).map fun (digits, left) => (some (false, digits), left)
        | rest => (readDigits? rest).map fun (digits, left) => (some (false, digits), left)
      else some (none, text)
  | [] => some (none, [])

/-- Reads a numeral behind its sign. A whole part of several digits does not begin with a zero. -/
def readNumeral (negative : Bool) (text : List Char) : Option (Numeral × List Char) := do
  let (whole, left) ← readDigits? text
  if whole.head? = some '0' ∧ 1 < whole.length then none
  let (fraction, left) ← readFraction left
  let (exponent, left) ← readExponent left
  return (⟨negative, whole, fraction, exponent⟩, left)

/-- Reads a number behind its sign. -/
def readNumber (negative : Bool) (text : List Char) : Option (Token × List Char) := do
  let (numeral, left) ← readNumeral negative text
  return (scalar (← numeral.toJson?), left)

/-- Reads the token that begins with the first of some characters. -/
def read? : List Char → Option (Token × List Char)
  | [] => none
  | '\x7b' :: rest => some (openBrace, rest)
  | '\x7d' :: rest => some (closeBrace, rest)
  | '[' :: rest => some (openBracket, rest)
  | ']' :: rest => some (closeBracket, rest)
  | ',' :: rest => some (comma, rest)
  | ':' :: rest => some (colon, rest)
  | '"' :: rest => (readString none rest).map fun (chars, left) =>
      (quoted (String.ofList chars), left)
  | 'n' :: 'u' :: 'l' :: 'l' :: rest => some (scalar null, rest)
  | 't' :: 'r' :: 'u' :: 'e' :: rest => some (scalar (bool true), rest)
  | 'f' :: 'a' :: 'l' :: 's' :: 'e' :: rest => some (scalar (bool false), rest)
  | '-' :: rest => readNumber true rest
  | text => readNumber false text

/-! ## A token is never empty -/

theorem length_of_map_prepend {c : Char} {read : Option (List Char × List Char)} {n : Nat}
    {chars left : List Char}
    (hread : ∀ {chars left}, read = some (chars, left) → left.length < n)
    (h : read.map (prepend c) = some (chars, left)) : left.length < n := by
  obtain ⟨⟨inner, rest⟩, hinner, heq⟩ := Option.map_eq_some_iff.mp h
  simp only [prepend, Prod.mk.injEq] at heq
  exact heq.2 ▸ hread hinner

theorem readString_length {half : Option Nat} {text chars left : List Char}
    (h : readString half text = some (chars, left)) : left.length < text.length := by
  fun_induction readString half text generalizing chars left <;>
    simp only [List.length_cons, reduceCtorEq, Option.some.injEq, Prod.mk.injEq] at h ⊢
  all_goals first
    | exact Nat.lt_of_lt_of_le (length_of_map_prepend (by assumption) h) (by omega)
    | grind

theorem length_dropWhile_le (ok : Char → Bool) (text : List Char) :
    (text.dropWhile ok).length ≤ text.length :=
  (List.dropWhile_sublist ok).length_le

theorem readDigits?_length {text digits left : List Char}
    (h : readDigits? text = some (digits, left)) : left.length < text.length := by
  unfold readDigits? at h
  split at h
  · simp at h
  next heq =>
    simp only [Option.some.injEq, Prod.mk.injEq] at h
    cases text with
    | nil => simp at heq
    | cons c rest =>
        cases hc : c.isDigit with
        | false => simp [hc] at heq
        | true =>
            have hle := length_dropWhile_le Char.isDigit rest
            simp only [List.dropWhile_cons, hc, if_true] at h
            rw [← h.2, List.length_cons]
            omega

theorem readFraction_length {text : List Char} {fraction : Option (List Char)} {left : List Char}
    (h : readFraction text = some (fraction, left)) : left.length ≤ text.length := by
  unfold readFraction at h
  split at h
  · obtain ⟨⟨digits, rest⟩, hdigits, heq⟩ := Option.map_eq_some_iff.mp h
    have hlt := readDigits?_length hdigits
    simp only [Prod.mk.injEq] at heq
    rw [← heq.2, List.length_cons]
    omega
  · simp_all

theorem readExponent_length {text : List Char} {exponent : Option (Bool × List Char)}
    {left : List Char} (h : readExponent text = some (exponent, left)) :
    left.length ≤ text.length := by
  unfold readExponent at h
  repeat' split at h
  all_goals first
    | (obtain ⟨⟨digits, rest⟩, hdigits, heq⟩ := Option.map_eq_some_iff.mp h
       have hlt := readDigits?_length hdigits
       simp only [Prod.mk.injEq] at heq
       simp only [← heq.2, List.length_cons]
       omega)
    | simp_all

theorem readNumber_length {negative : Bool} {text : List Char} {token : Token} {left : List Char}
    (h : readNumber negative text = some (token, left)) : left.length < text.length := by
  simp only [readNumber, Option.bind_eq_bind, Option.bind_eq_some_iff, Prod.exists,
    Option.pure_def, Option.some.injEq, Prod.mk.injEq] at h
  obtain ⟨numeral, rest, hread, _, _, _, rfl⟩ := h
  unfold readNumeral at hread
  simp only [Option.bind_eq_bind, Option.bind_eq_some_iff, Prod.exists] at hread
  obtain ⟨whole, afterWhole, hwhole, hread⟩ := hread
  split at hread
  · simp at hread
  · simp only [Option.pure_def, Option.bind_eq_some_iff, Prod.exists, Option.some.injEq,
      Prod.mk.injEq] at hread
    obtain ⟨_, _, hfraction, _, _, hexponent, _, rfl⟩ := hread
    have h₁ := readDigits?_length hwhole
    have h₂ := readFraction_length hfraction
    have h₃ := readExponent_length hexponent
    omega

theorem read?_length {text : List Char} {token : Token} {left : List Char}
    (h : read? text = some (token, left)) : left.length < text.length := by
  unfold read? at h
  split at h
  case h_8 =>
    obtain ⟨⟨chars, rest⟩, hread, heq⟩ := Option.map_eq_some_iff.mp h
    have hlt := readString_length hread
    simp only [Prod.mk.injEq] at heq
    rw [← heq.2, List.length_cons]
    omega
  case h_12 =>
    have hlt := readNumber_length h
    rw [List.length_cons]
    omega
  case h_13 => exact readNumber_length h
  case h_1 => simp at h
  all_goals
    simp only [Option.some.injEq, Prod.mk.injEq] at h
    simp only [← h.2, List.length_cons]
    omega

/-- The tokens of a text; none if some part of it is no token. -/
def list? (text : List Char) : Option (List Token) :=
  match _hdrop : text.dropWhile isSpace with
  | [] => some []
  | c :: rest =>
      match _hread : read? (c :: rest) with
      | none => none
      | some (token, left) => (list? left).map (token :: ·)
termination_by text.length
decreasing_by
  have hlt := read?_length _hread
  have hle := length_dropWhile_le isSpace text
  rw [_hdrop] at hle
  omega

end Token

end LayerLint.Json
