import LayerLint.Json.Token
import Mathlib.Data.List.TakeWhile

/-! # Tokens as they are written

A token is written as a mark, a string, a word or a numeral. Marks, strings and words are read as
they stand, whatever follows them, and numerals are if nothing follows that would go on with them.
The other way round, whatever is read as a token is written in one of these ways.
-/

namespace LayerLint.Json.Token

variable {text rest left chars body digits whole fraction exponent lexeme : List Char}
variable {negative : Bool} {half : Option Nat} {token : Token} {c : Char}

/-! ## Strings -/

/-- What may stand between the quotes of a string. -/
inductive IsBody : List Char → Prop where
  | nil : IsBody []
  | plain {c : Char} {rest : List Char} (hquote : c ≠ '"') (hbackslash : c ≠ '\\')
      (hcontrol : ¬ c.toNat < 0x20) (hrest : IsBody rest) : IsBody (c :: rest)
  | escape {c : Char} {rest : List Char} (hescape : (escaped? c).isSome = true)
      (hrest : IsBody rest) : IsBody ('\\' :: c :: rest)
  | unit {a b c d : Char} {rest : List Char} (hdigits : (hexUnit? a b c d).isSome = true)
      (hrest : IsBody rest) : IsBody ('\\' :: 'u' :: a :: b :: c :: d :: rest)

theorem readString_quote (half : Option Nat) (rest : List Char) :
    readString half ('"' :: rest) = if half.isSome then none else some ([], rest) := by
  cases rest <;> simp [readString]

theorem readString_plain (hquote : c ≠ '"') (hbackslash : c ≠ '\\') (hcontrol : ¬ c.toNat < 0x20)
    (half : Option Nat) (rest : List Char) :
    readString half (c :: rest) =
      if half.isSome then none else (readString none rest).map (prepend c) := by
  cases rest <;> simp [readString, hquote, hbackslash, hcontrol]

theorem readString_escape {meant : Char} (h : escaped? c = some meant) (half : Option Nat)
    (rest : List Char) :
    readString half ('\\' :: c :: rest) =
      if half.isSome then none else (readString none rest).map (prepend meant) := by
  have hunit : c ≠ 'u' := by
    rintro rfl
    cases h
  simp [readString, h, hunit]

theorem readString_unit {a b c d : Char} {unit : Nat} (h : hexUnit? a b c d = some unit)
    (rest : List Char) :
    readString none ('\\' :: 'u' :: a :: b :: c :: d :: rest) =
      if isHighSurrogate unit then readString (some unit) rest
      else if isLowSurrogate unit then none
      else (readString none rest).map (prepend (Char.ofNat unit)) := by
  simp [readString, h]

/-- Two units may make one character. -/
theorem readString_secondUnit {a b c d : Char} {unit : Nat} (h : hexUnit? a b c d = some unit)
    (high : Nat) (rest : List Char) :
    readString (some high) ('\\' :: 'u' :: a :: b :: c :: d :: rest) =
      if isLowSurrogate unit then
        (readString none rest).map (prepend (joinSurrogates high unit))
      else none := by
  simp [readString, h]

theorem map_prepend_map (c : Char) (rest : List Char) (read : Option (List Char × List Char)) :
    (read.map fun inner => (inner.1, rest)).map (prepend c) =
      (read.map (prepend c)).map fun inner => (inner.1, rest) := by
  cases read <;> rfl

/-- What follows a string says nothing about how it is read. -/
theorem IsBody.readString_append (h : IsBody body) (half : Option Nat) (rest : List Char) :
    readString half (body ++ '"' :: rest) =
      (readString half (body ++ ['"'])).map fun read => (read.1, rest) := by
  induction h generalizing half with
  | nil =>
      simp only [List.nil_append, readString_quote]
      split <;> rfl
  | plain hquote hbackslash hcontrol _ ih =>
      simp only [List.cons_append, readString_plain hquote hbackslash hcontrol]
      rw [ih none, map_prepend_map]
      split <;> rfl
  | escape hescape _ ih =>
      obtain ⟨meant, hmeant⟩ := Option.isSome_iff_exists.mp hescape
      simp only [List.cons_append, readString_escape hmeant]
      rw [ih none, map_prepend_map]
      split <;> rfl
  | unit hdigits _ ih =>
      obtain ⟨unit, hunit⟩ := Option.isSome_iff_exists.mp hdigits
      cases half with
      | none =>
          simp only [List.cons_append, readString_unit hunit]
          rw [ih none, ih (some unit), map_prepend_map]
          split
          · rfl
          · split <;> rfl
      | some high =>
          simp only [List.cons_append, readString_secondUnit hunit]
          rw [ih none, map_prepend_map]
          split <;> rfl

theorem exists_of_map_prepend {read : Option (List Char × List Char)}
    (h : read.map (prepend c) = some (chars, left)) : ∃ inner, read = some (inner, left) := by
  obtain ⟨⟨inner, rest⟩, hread, heq⟩ := Option.map_eq_some_iff.mp h
  cases heq
  exact ⟨inner, hread⟩

theorem exists_isBody_of_readString (h : readString half text = some (chars, left)) :
    ∃ body, IsBody body ∧ text = body ++ '"' :: left := by
  fun_induction readString half text generalizing chars left with
  | case1 a b c d rest unit high hunit hlow ih =>
      obtain ⟨inner, hinner⟩ := exists_of_map_prepend h
      obtain ⟨body, hbody, rfl⟩ := ih hinner
      exact ⟨_, .unit (Option.isSome_of_mem hunit) hbody, rfl⟩
  | case3 a b c d rest unit hunit hhigh ih =>
      obtain ⟨body, hbody, rfl⟩ := ih h
      exact ⟨_, .unit (Option.isSome_of_mem hunit) hbody, rfl⟩
  | case5 a b c d rest unit hunit hhigh hlow ih =>
      obtain ⟨inner, hinner⟩ := exists_of_map_prepend h
      obtain ⟨body, hbody, rfl⟩ := ih hinner
      exact ⟨_, .unit (Option.isSome_of_mem hunit) hbody, rfl⟩
  | case8 half rest hhalf _ =>
      cases h
      exact ⟨[], .nil, rfl⟩
  | case9 half hhalf c rest meant hmeant _ _ ih =>
      obtain ⟨inner, hinner⟩ := exists_of_map_prepend h
      obtain ⟨body, hbody, rfl⟩ := ih hinner
      exact ⟨_, .escape (Option.isSome_of_mem hmeant) hbody, rfl⟩
  | case13 half c rest _ hhalf hquote hbackslash hcontrol ih =>
      obtain ⟨inner, hinner⟩ := exists_of_map_prepend h
      obtain ⟨body, hbody, rfl⟩ := ih hinner
      exact ⟨_, .plain hquote hbackslash hcontrol hbody, rfl⟩
  | _ => cases h

/-! ## Numerals -/

/-- One digit or more. -/
def IsDigits (text : List Char) : Prop :=
  text ≠ [] ∧ ∀ c ∈ text, c.isDigit = true

/-- The whole part of a numeral: zero, or digits that do not begin with a zero. -/
def IsWhole (text : List Char) : Prop :=
  IsDigits text ∧ (text.head? = some '0' → text.length = 1)

/-- The fraction of a numeral, if there is one. -/
def IsFraction (text : List Char) : Prop :=
  text = [] ∨ ∃ digits, IsDigits digits ∧ text = '.' :: digits

/-- The exponent of a numeral, if there is one. -/
def IsExponent (text : List Char) : Prop :=
  text = [] ∨ ∃ mark sign digits, (mark = 'e' ∨ mark = 'E') ∧
    (sign = [] ∨ sign = ['+'] ∨ sign = ['-']) ∧ IsDigits digits ∧ text = mark :: (sign ++ digits)

/-- A numeral behind its sign. -/
def IsNumeral (text : List Char) : Prop :=
  ∃ whole fraction exponent, IsWhole whole ∧ IsFraction fraction ∧ IsExponent exponent ∧
    text = whole ++ (fraction ++ exponent)

/-- The text does not begin with a character of a class. -/
def Stops (ok : Char → Bool) (text : List Char) : Prop :=
  ∀ c, text.head? = some c → ok c = false

/-- A character that would go on with a numeral. -/
def goesOn (c : Char) : Bool :=
  c.isDigit || c == '.' || c == 'e' || c == 'E'

theorem Stops.mono {ok other : Char → Bool} (h : Stops ok rest)
    (hother : ∀ c, ok c = false → other c = false) : Stops other rest :=
  fun c hc => hother c (h c hc)

theorem not_isDigit_of_not_goesOn (h : goesOn c = false) : c.isDigit = false := by
  simp only [goesOn, Bool.or_eq_false_iff] at h
  exact h.1.1.1

theorem not_isPoint_of_not_goesOn (h : goesOn c = false) : (c == '.') = false := by
  simp only [goesOn, Bool.or_eq_false_iff] at h
  exact h.1.1.2

theorem not_goesOn_of_isSpace (h : isSpace c = true) : goesOn c = false := by
  simp only [isSpace, Bool.or_eq_true, beq_iff_eq] at h
  rcases h with ((rfl | rfl) | rfl) | rfl <;> decide

theorem IsFraction.stops {ok : Char → Bool} (h : IsFraction fraction) (hpoint : ok '.' = false)
    (hrest : Stops ok rest) : Stops ok (fraction ++ rest) := by
  rcases h with rfl | ⟨digits, -, rfl⟩
  · exact hrest
  · rintro c ⟨⟩
    exact hpoint

theorem IsExponent.stops {ok : Char → Bool} (h : IsExponent exponent)
    (hmark : ok 'e' = false ∧ ok 'E' = false) (hrest : Stops ok rest) :
    Stops ok (exponent ++ rest) := by
  rcases h with rfl | ⟨mark, sign, digits, rfl | rfl, -, -, rfl⟩
  · exact hrest
  · rintro c ⟨⟩
    exact hmark.1
  · rintro c ⟨⟩
    exact hmark.2

theorem readDigits?_append (h : IsDigits digits) (hrest : Stops Char.isDigit rest) :
    readDigits? (digits ++ rest) = some (digits, rest) := by
  have hnone : rest.takeWhile Char.isDigit = [] ∧ rest.dropWhile Char.isDigit = rest := by
    cases rest with
    | nil => exact ⟨rfl, rfl⟩
    | cons c rest => simp [hrest c rfl]
  rw [readDigits?, List.takeWhile_append_of_pos h.2, List.dropWhile_append_of_pos h.2, hnone.1,
    hnone.2, List.append_nil]
  split
  next => exact (h.1 rfl).elim
  next => rfl

theorem IsFraction.exists_read (h : IsFraction fraction) :
    ∃ read, ∀ rest, Stops Char.isDigit rest → Stops (· == '.') rest →
      readFraction (fraction ++ rest) = some (read, rest) := by
  rcases h with rfl | ⟨digits, hdigits, rfl⟩
  · refine ⟨none, fun rest _ hpoint => ?_⟩
    rw [List.nil_append]
    unfold readFraction
    split
    next tail => simpa using hpoint '.' rfl
    next => rfl
  · refine ⟨some digits, fun rest hrest _ => ?_⟩
    rw [List.cons_append, readFraction, readDigits?_append hdigits hrest]
    rfl

theorem IsExponent.exists_read (h : IsExponent exponent) :
    ∃ read, ∀ rest, Stops goesOn rest → readExponent (exponent ++ rest) = some (read, rest) := by
  rcases h with rfl | ⟨mark, sign, digits, hmark, hsign, hdigits, rfl⟩
  · refine ⟨none, fun rest hrest => ?_⟩
    cases rest with
    | nil => rfl
    | cons c rest =>
        have hgoes := hrest c rfl
        simp only [goesOn, Bool.or_eq_false_iff, beq_eq_false_iff_ne] at hgoes
        simp [readExponent, hgoes]
  · have hread (rest : List Char) (hrest : Stops goesOn rest) :
        readDigits? (digits ++ rest) = some (digits, rest) :=
      readDigits?_append hdigits (hrest.mono fun _ => not_isDigit_of_not_goesOn)
    refine ⟨some (sign == ['-'], digits), fun rest hrest => ?_⟩
    rw [readExponent.eq_def]
    rcases hsign with rfl | rfl | rfl
    · obtain ⟨c, tail, rfl⟩ := List.exists_cons_of_ne_nil hdigits.1
      have hc := hdigits.2 c List.mem_cons_self
      simp only [List.nil_append, List.cons_append, if_pos hmark]
      split
      next heq =>
        cases heq
        cases hc
      next heq =>
        cases heq
        cases hc
      next =>
        rw [← List.cons_append, hread rest hrest]
        rfl
    · simp [hmark, hread rest hrest]
    · simp [hmark, hread rest hrest]

/-- A numeral is read as a whole if nothing behind it goes on with it. -/
theorem IsNumeral.exists_read (h : IsNumeral text) (negative : Bool) :
    ∃ numeral, ∀ rest, Stops goesOn rest →
      readNumeral negative (text ++ rest) = some (numeral, rest) := by
  obtain ⟨whole, fraction, exponent, hwhole, hfraction, hexponent, rfl⟩ := h
  obtain ⟨read, hread⟩ := hfraction.exists_read
  obtain ⟨read', hread'⟩ := hexponent.exists_read
  refine ⟨⟨negative, whole, read, read'⟩, fun rest hrest => ?_⟩
  have hdigits : Stops Char.isDigit rest := hrest.mono fun _ => not_isDigit_of_not_goesOn
  have hpoint : Stops (· == '.') rest := hrest.mono fun _ => not_isPoint_of_not_goesOn
  have hbehind : Stops Char.isDigit (exponent ++ rest) :=
    hexponent.stops ⟨by decide, by decide⟩ hdigits
  have hzero : ¬ (whole.head? = some '0' ∧ 1 < whole.length) := fun ⟨hhead, hlength⟩ =>
    Nat.lt_irrefl 1 (hwhole.2 hhead ▸ hlength)
  simp only [readNumeral, List.append_assoc,
    readDigits?_append hwhole.1 (hfraction.stops (by decide) hbehind), Option.bind_eq_bind,
    Option.bind_some, if_neg hzero]
  rw [hread _ hbehind (hexponent.stops ⟨by decide, by decide⟩ hpoint), Option.bind_some,
    hread' rest hrest]
  rfl

theorem isDigits_of_readDigits? (h : readDigits? text = some (digits, left)) :
    IsDigits digits ∧ text = digits ++ left := by
  unfold readDigits? at h
  split at h
  · cases h
  next hne =>
    cases h
    exact ⟨⟨hne, fun c hc => List.mem_takeWhile_imp hc⟩, List.takeWhile_append_dropWhile.symm⟩

theorem exists_isFraction_of_readFraction {read : Option (List Char)}
    (h : readFraction text = some (read, left)) :
    ∃ fraction, IsFraction fraction ∧ text = fraction ++ left := by
  unfold readFraction at h
  split at h
  next rest =>
    obtain ⟨⟨digits, _⟩, hdigits, heq⟩ := Option.map_eq_some_iff.mp h
    cases heq
    obtain ⟨hok, rfl⟩ := isDigits_of_readDigits? hdigits
    exact ⟨_, .inr ⟨digits, hok, rfl⟩, rfl⟩
  next =>
    cases h
    exact ⟨[], .inl rfl, rfl⟩

theorem exists_isExponent_of_readExponent {read : Option (Bool × List Char)}
    (h : readExponent text = some (read, left)) :
    ∃ exponent, IsExponent exponent ∧ text = exponent ++ left := by
  unfold readExponent at h
  split at h
  next mark rest =>
    split at h
    next hmark =>
      -- the sign, if there is one, stands between the mark and the digits
      have hread (sign rest : List Char) (negative : Bool)
          (hsign : sign = [] ∨ sign = ['+'] ∨ sign = ['-'])
          (h : ((readDigits? rest).map fun read => (some (negative, read.1), read.2)) =
            some (read, left)) :
          ∃ exponent, IsExponent exponent ∧ mark :: (sign ++ rest) = exponent ++ left := by
        obtain ⟨⟨digits, _⟩, hdigits, heq⟩ := Option.map_eq_some_iff.mp h
        cases heq
        obtain ⟨hok, rfl⟩ := isDigits_of_readDigits? hdigits
        exact ⟨_, .inr ⟨mark, sign, digits, hmark, hsign, hok, rfl⟩, by simp⟩
      split at h
      · exact hread ['-'] _ true (.inr (.inr rfl)) h
      · exact hread ['+'] _ false (.inr (.inl rfl)) h
      · exact hread [] _ false (.inl rfl) h
    next =>
      cases h
      exact ⟨[], .inl rfl, rfl⟩
  next =>
    cases h
    exact ⟨[], .inl rfl, rfl⟩

theorem exists_isNumeral_of_readNumeral {numeral : Numeral}
    (h : readNumeral negative text = some (numeral, left)) :
    ∃ lexeme, IsNumeral lexeme ∧ text = lexeme ++ left := by
  unfold readNumeral at h
  simp only [Option.bind_eq_bind, Option.bind_eq_some_iff, Prod.exists] at h
  obtain ⟨whole, afterWhole, hwhole, h⟩ := h
  split at h
  · simp at h
  next hzero =>
    simp only [Option.pure_def, Option.bind_eq_some_iff, Prod.exists, Option.some.injEq,
      Prod.mk.injEq] at h
    obtain ⟨_, _, hfraction, _, _, hexponent, -, rfl⟩ := h
    obtain ⟨hdigits, rfl⟩ := isDigits_of_readDigits? hwhole
    obtain ⟨fraction, hfraction', rfl⟩ := exists_isFraction_of_readFraction hfraction
    obtain ⟨exponent, hexponent', rfl⟩ := exists_isExponent_of_readExponent hexponent
    have hone : whole.head? = some '0' → whole.length = 1 := by
      intro hhead
      have hpos := List.length_pos_iff.mpr hdigits.1
      have hle : ¬ 1 < whole.length := fun hlt => hzero ⟨hhead, hlt⟩
      omega
    exact ⟨_, ⟨whole, fraction, exponent, ⟨hdigits, hone⟩, hfraction', hexponent', rfl⟩, by simp⟩

/-! ## Tokens -/

/-- A word or a numeral. -/
inductive IsScalar : List Char → Prop where
  | nullWord : IsScalar ['n', 'u', 'l', 'l']
  | trueWord : IsScalar ['t', 'r', 'u', 'e']
  | falseWord : IsScalar ['f', 'a', 'l', 's', 'e']
  | numeral {text : List Char} (h : IsNumeral text) : IsScalar text
  | negative {text : List Char} (h : IsNumeral text) : IsScalar ('-' :: text)

/-- The characters of a token. -/
inductive IsLexeme : Token → List Char → Prop where
  | openBrace : IsLexeme .openBrace ['\x7b']
  | closeBrace : IsLexeme .closeBrace ['\x7d']
  | openBracket : IsLexeme .openBracket ['[']
  | closeBracket : IsLexeme .closeBracket [']']
  | comma : IsLexeme .comma [',']
  | colon : IsLexeme .colon [':']
  | quoted {body : List Char} (value : String) (h : IsBody body) :
      IsLexeme (.quoted value) ('"' :: (body ++ ['"']))
  | scalar {lexeme : List Char} (value : Json) (h : IsScalar lexeme) :
      IsLexeme (.scalar value) lexeme

theorem IsNumeral.exists_cons (h : IsNumeral text) :
    ∃ c rest, text = c :: rest ∧ c.isDigit = true := by
  obtain ⟨whole, fraction, exponent, ⟨⟨hne, hall⟩, -⟩, -, -, rfl⟩ := h
  obtain ⟨c, rest, rfl⟩ := List.exists_cons_of_ne_nil hne
  exact ⟨c, rest ++ (fraction ++ exponent), rfl, hall c List.mem_cons_self⟩

theorem read?_digit (hc : c.isDigit = true) (rest : List Char) :
    read? (c :: rest) = readNumber false (c :: rest) := by
  unfold read?
  split
  case h_13 => rfl
  case h_1 heq => cases heq
  all_goals
    next heq =>
      cases heq
      cases hc

theorem IsNumeral.exists_readNumber (h : IsNumeral text) (negative : Bool) :
    ∃ value : Option Json, ∀ rest, Stops goesOn rest →
      readNumber negative (text ++ rest) = value.map fun value => (.scalar value, rest) := by
  obtain ⟨numeral, hread⟩ := h.exists_read negative
  refine ⟨numeral.toJson?, fun rest hrest => ?_⟩
  cases hvalue : numeral.toJson? <;> simp [readNumber, hread rest hrest, hvalue]

theorem IsScalar.exists_read (h : IsScalar lexeme) :
    ∃ value : Option Json, ∀ rest, Stops goesOn rest →
      read? (lexeme ++ rest) = value.map fun value => (.scalar value, rest) := by
  cases h with
  | nullWord => exact ⟨some .null, fun _ _ => rfl⟩
  | trueWord => exact ⟨some (.bool true), fun _ _ => rfl⟩
  | falseWord => exact ⟨some (.bool false), fun _ _ => rfl⟩
  | numeral h =>
      obtain ⟨value, hread⟩ := h.exists_readNumber false
      obtain ⟨c, tail, rfl, hc⟩ := h.exists_cons
      refine ⟨value, fun rest hrest => ?_⟩
      rw [List.cons_append, read?_digit hc]
      exact hread rest hrest
  | negative h => exact h.exists_readNumber true

/-- A word or a numeral is read as a whole if nothing behind it goes on with it. -/
theorem IsScalar.read?_append (h : IsScalar lexeme) (hrest : Stops goesOn rest) :
    read? (lexeme ++ rest) = (read? lexeme).map fun read => (read.1, rest) := by
  obtain ⟨value, hread⟩ := h.exists_read
  have hnil := hread [] (fun _ h => by cases h)
  rw [List.append_nil] at hnil
  rw [hread rest hrest, hnil]
  cases value <;> rfl

/-- A string is read as a whole. -/
theorem IsBody.read?_append (h : IsBody body) (rest : List Char) :
    read? ('"' :: (body ++ '"' :: rest)) =
      (read? ('"' :: (body ++ ['"']))).map fun read => (read.1, rest) := by
  change (readString none _).map _ = ((readString none _).map _).map _
  rw [h.readString_append]
  cases readString none (body ++ ['"']) <;> rfl

/-- Whatever is read as a token is written as one. -/
theorem exists_isLexeme_of_read? (h : read? text = some (token, left)) :
    ∃ lexeme, IsLexeme token lexeme ∧ text = lexeme ++ left := by
  have hnumber {negative : Bool} {text : List Char}
      (h : readNumber negative text = some (token, left)) :
      ∃ lexeme value, IsNumeral lexeme ∧ token = .scalar value ∧ text = lexeme ++ left := by
    simp only [readNumber, Option.bind_eq_bind, Option.bind_eq_some_iff, Prod.exists,
      Option.pure_def, Option.some.injEq, Prod.mk.injEq] at h
    obtain ⟨numeral, _, hread, value, -, rfl, rfl⟩ := h
    obtain ⟨lexeme, hlexeme, rfl⟩ := exists_isNumeral_of_readNumeral hread
    exact ⟨lexeme, value, hlexeme, rfl, rfl⟩
  unfold read? at h
  split at h
  case h_1 => cases h
  case h_8 =>
    obtain ⟨⟨chars, _⟩, hread, heq⟩ := Option.map_eq_some_iff.mp h
    cases heq
    obtain ⟨body, hbody, rfl⟩ := exists_isBody_of_readString hread
    exact ⟨_, .quoted _ hbody, by simp⟩
  case h_9 =>
    cases h
    exact ⟨_, .scalar _ .nullWord, rfl⟩
  case h_10 =>
    cases h
    exact ⟨_, .scalar _ .trueWord, rfl⟩
  case h_11 =>
    cases h
    exact ⟨_, .scalar _ .falseWord, rfl⟩
  case h_12 =>
    obtain ⟨lexeme, value, hlexeme, rfl, rfl⟩ := hnumber h
    exact ⟨_, .scalar _ (.negative hlexeme), rfl⟩
  case h_13 =>
    obtain ⟨lexeme, value, hlexeme, rfl, rfl⟩ := hnumber h
    exact ⟨_, .scalar _ (.numeral hlexeme), rfl⟩
  all_goals
    cases h
    exact ⟨_, by constructor, rfl⟩

/-- Whether a token is a word or a numeral. -/
def isScalar : Token → Bool
  | .scalar _ => true
  | _ => false

/-- A token is read as a whole, a numeral if nothing behind it goes on with it. -/
theorem read?_append (h : read? lexeme = some (token, []))
    (hrest : token.isScalar = true → Stops goesOn rest) :
    read? (lexeme ++ rest) = some (token, rest) := by
  obtain ⟨_, hlexeme, heq⟩ := exists_isLexeme_of_read? h
  rw [List.append_nil] at heq
  cases heq
  cases hlexeme with
  | quoted value hbody =>
      have hread := hbody.read?_append rest
      rw [h] at hread
      simpa using hread
  | scalar value hscalar => rw [hscalar.read?_append (hrest rfl), h, Option.map_some]
  | _ => rfl

/-- A token does not begin with a blank, and only a numeral would go on with a numeral. -/
theorem IsLexeme.exists_cons (h : IsLexeme token lexeme) :
    ∃ c tail, lexeme = c :: tail ∧ isSpace c = false ∧
      (token.isScalar = false → goesOn c = false) := by
  cases h with
  | scalar value h =>
      cases h with
      | numeral h =>
          obtain ⟨c, tail, rfl, hc⟩ := h.exists_cons
          refine ⟨c, tail, rfl, ?_, nofun⟩
          by_contra hspace
          simp only [isSpace, Bool.not_eq_false, Bool.or_eq_true, beq_iff_eq] at hspace
          rcases hspace with ((rfl | rfl) | rfl) | rfl <;> cases hc
      | _ => exact ⟨_, _, rfl, rfl, nofun⟩
  | _ => exact ⟨_, _, rfl, rfl, fun _ => by decide⟩

/-! ## The tokens of a text -/

/-- The first token stands behind the blanks, and the others are those of what it leaves. -/
theorem list?_eq (text : List Char) :
    list? text =
      if text.dropWhile isSpace = [] then some []
      else (read? (text.dropWhile isSpace)).bind fun read => (list? read.2).map (read.1 :: ·) := by
  rw [list?.eq_1 text]
  split
  next heq => rw [if_pos heq]
  next c rest heq =>
    rw [heq, if_neg (List.cons_ne_nil c rest)]
    split
    next hread => simp [hread]
    next hread => simp [hread]

theorem list?_nil : list? [] = some [] := by
  rw [list?_eq]
  rfl

theorem list?_space (hc : isSpace c = true) (rest : List Char) :
    list? (c :: rest) = list? rest := by
  have hdrop : (c :: rest).dropWhile isSpace = rest.dropWhile isSpace := by
    rw [List.dropWhile_cons, if_pos hc]
  rw [list?_eq, list?_eq rest, hdrop]

theorem list?_cons (hc : isSpace c = false) (rest : List Char) :
    list? (c :: rest) =
      (read? (c :: rest)).bind fun read => (list? read.2).map (read.1 :: ·) := by
  have hdrop : (c :: rest).dropWhile isSpace = c :: rest := by
    rw [List.dropWhile_cons, hc, if_neg Bool.false_ne_true]
  rw [list?_eq, hdrop, if_neg (List.cons_ne_nil c rest)]

/-- A token is read first, and then what stands behind it. -/
theorem list?_append (h : read? lexeme = some (token, []))
    (hrest : token.isScalar = true → Stops goesOn rest) :
    list? (lexeme ++ rest) = (list? rest).map (token :: ·) := by
  have hread := read?_append h hrest
  obtain ⟨_, hlexeme, heq⟩ := exists_isLexeme_of_read? h
  rw [List.append_nil] at heq
  cases heq
  obtain ⟨c, tail, rfl, hspace, -⟩ := hlexeme.exists_cons
  rw [List.cons_append] at hread ⊢
  rw [list?_cons hspace, hread, Option.bind_some]

theorem list?_spaces {spaces : List Char} (h : ∀ c ∈ spaces, isSpace c = true) (rest : List Char) :
    list? (spaces ++ rest) = list? rest := by
  induction spaces with
  | nil => rfl
  | cons c spaces ih =>
      obtain ⟨hc, hspaces⟩ := List.forall_mem_cons.mp h
      rw [List.cons_append, list?_space hc, ih hspaces]

theorem isSpace_of_list?_eq_nil (h : list? text = some []) : ∀ c ∈ text, isSpace c = true := by
  rw [list?_eq] at h
  split at h
  next hdrop => simpa using List.dropWhile_eq_nil_iff.mp hdrop
  next =>
    obtain ⟨read, -, hread⟩ := Option.bind_eq_some_iff.mp h
    obtain ⟨tokens, -, heq⟩ := Option.map_eq_some_iff.mp hread
    cases heq

theorem exists_isLexeme_of_list? {tokens : List Token} (h : list? text = some (token :: tokens)) :
    ∃ spaces lexeme left, (∀ c ∈ spaces, isSpace c = true) ∧ IsLexeme token lexeme ∧
      list? left = some tokens ∧ text = spaces ++ (lexeme ++ left) := by
  rw [list?_eq] at h
  split at h
  · cases h
  · obtain ⟨⟨first, left⟩, hread, hrest⟩ := Option.bind_eq_some_iff.mp h
    obtain ⟨others, hothers, heq⟩ := Option.map_eq_some_iff.mp hrest
    cases heq
    obtain ⟨lexeme, hlexeme, hdrop⟩ := exists_isLexeme_of_read? hread
    refine ⟨text.takeWhile isSpace, lexeme, left, ?_, hlexeme, hothers, ?_⟩
    · exact fun c hc => List.mem_takeWhile_imp hc
    · rw [← hdrop, List.takeWhile_append_dropWhile]

end LayerLint.Json.Token
