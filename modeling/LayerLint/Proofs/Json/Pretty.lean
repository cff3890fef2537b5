import LayerLint.Json.Document
import LayerLint.Json.Pretty
import LayerLint.Proofs.Json.Lexeme

/-! # A written value is read back

The tokens of a value are those of the text that it is written as, whatever blanks stand between
them. The reader makes the value of its tokens.
-/

namespace LayerLint.Json

open Token (IsDigits IsWhole Stops goesOn isSpace read? list? readString prepend)

variable {rest : List Char} {value : Json} {n room : Nat}

/-! ## Strings -/

/-- A character is written as a letter behind a backslash, by its number, or as it is. -/
theorem escape_cases (c : Char) :
    (∃ letter, Token.escaped? letter = some c ∧ escape c = ['\\', letter]) ∨
      (c.toNat < 0x20 ∧ escape c =
        ['\\', 'u', '0', '0', hexChar (c.toNat / 16), hexChar (c.toNat % 16)]) ∨
      (c ≠ '"' ∧ c ≠ '\\' ∧ ¬ c.toNat < 0x20 ∧ escape c = [c]) := by
  unfold escape
  split
  next h => exact .inl ⟨'"', by rw [h]; rfl, rfl⟩
  next hquote =>
    split
    next h => exact .inl ⟨'\\', by rw [h]; rfl, rfl⟩
    next hbackslash =>
      iterate 5
        split
        next h => exact .inl ⟨_, h ▸ rfl, rfl⟩
      split
      next hcontrol => exact .inr (.inl ⟨hcontrol, rfl⟩)
      next hcontrol => exact .inr (.inr ⟨hquote, hbackslash, hcontrol, rfl⟩)

theorem hexUnit?_control (h : n < 0x20) :
    Token.hexUnit? '0' '0' (hexChar (n / 16)) (hexChar (n % 16)) = some n := by
  have hall : ∀ n < 0x20,
      Token.hexUnit? '0' '0' (hexChar (n / 16)) (hexChar (n % 16)) = some n := by decide
  exact hall n h

/-- A written character is read as itself. -/
theorem readString_escape_append (c : Char) (rest : List Char) :
    readString none (escape c ++ rest) = (readString none rest).map (prepend c) := by
  obtain ⟨letter, hletter, heq⟩ | ⟨hcontrol, heq⟩ | ⟨hquote, hslash, hplain, heq⟩ :=
    escape_cases c
  · rw [heq]
    exact Token.readString_escape hletter none rest
  · have hhigh : Token.isHighSurrogate c.toNat = false := by
      simp only [Token.isHighSurrogate, Bool.and_eq_false_imp, decide_eq_true_eq]
      omega
    have hlow : Token.isLowSurrogate c.toNat = false := by
      simp only [Token.isLowSurrogate, Bool.and_eq_false_imp, decide_eq_true_eq]
      omega
    rw [heq]
    simp only [List.cons_append, List.nil_append, Token.readString_unit (hexUnit?_control hcontrol),
      hhigh, hlow, Char.ofNat_toNat]
    rfl
  · rw [heq]
    exact Token.readString_plain hquote hslash hplain none rest

theorem readString_escape_text (text rest : List Char) :
    readString none (text.flatMap escape ++ '"' :: rest) = some (text, rest) := by
  induction text with
  | nil => exact Token.readString_quote none rest
  | cons c text ih =>
      rw [List.flatMap_cons, List.append_assoc, readString_escape_append, ih]
      rfl

theorem read?_quote (text : String) : read? (quote text) = some (.quoted text, []) := by
  change (readString none (text.toList.flatMap escape ++ ['"'])).map _ = _
  simp only [readString_escape_text, Option.map_some, String.ofList_toList]

/-! ## Natural numbers -/

theorem head?_toDigits (h : (Nat.toDigits 10 n).head? = some '0') : n = 0 := by
  induction n using Nat.strongRecOn with
  | ind n ih =>
      rw [Nat.toDigits_eq_if (by omega)] at h
      split at h
      next hlt =>
        have hall : ∀ n < 10, [n.digitChar].head? = some '0' → n = 0 := by decide
        exact hall n hlt h
      next hge =>
        obtain ⟨c, digits, hdigits⟩ :=
          List.exists_cons_of_ne_nil (Nat.toDigits_ne_nil (n := n / 10) (b := 10))
        have hzero := ih (n / 10) (by omega) (by rw [hdigits] at h ⊢; exact h)
        omega

theorem isWhole_toDigits (n : Nat) : IsWhole (Nat.toDigits 10 n) := by
  refine ⟨⟨Nat.toDigits_ne_nil, ?_⟩, ?_⟩
  · exact fun c hc => Nat.isDigit_of_mem_toDigits (by decide) (by decide) hc
  · intro h
    rw [head?_toDigits h, Nat.toDigits_zero, List.length_singleton]

theorem value_toDigits (n : Nat) : Numeral.value (Nat.toDigits 10 n) = n := by
  have hspell := Nat.ofDigitChars_ten_toDigits (n := n)
  simpa only [Nat.ofDigitChars, Numeral.value, Nat.mul_comm] using hspell

theorem toJson?_toDigits (h : n < Numeral.wordLimit) :
    Numeral.toJson? ⟨false, Nat.toDigits 10 n, none, none⟩ = some (.natural n) := by
  simp [Numeral.toJson?, value_toDigits, h]

theorem readNumeral_toDigits (n : Nat) :
    Token.readNumeral false (Nat.toDigits 10 n) =
      some (⟨false, Nat.toDigits 10 n, none, none⟩, []) := by
  obtain ⟨hdigits, hzero⟩ := isWhole_toDigits n
  have hread : Token.readDigits? (Nat.toDigits 10 n ++ []) = some (Nat.toDigits 10 n, []) :=
    Token.readDigits?_append hdigits nofun
  have hone : ¬ ((Nat.toDigits 10 n).head? = some '0' ∧ 1 < (Nat.toDigits 10 n).length) :=
    fun ⟨hhead, hlength⟩ => Nat.lt_irrefl 1 (hzero hhead ▸ hlength)
  rw [List.append_nil] at hread
  simp [Token.readNumeral, hread, hone, Token.readFraction, Token.readExponent]

theorem read?_natural (h : n < Numeral.wordLimit) :
    read? (toString n).toList = some (.scalar (.natural n), []) := by
  obtain ⟨c, tail, heq⟩ := List.exists_cons_of_ne_nil (isWhole_toDigits n).1.1
  have hc : c.isDigit = true := (isWhole_toDigits n).1.2 c (heq ▸ List.mem_cons_self)
  have hnumeral := readNumeral_toDigits n
  rw [Nat.toString_eq_ofList_toDigits, String.toList_ofList, heq, Token.read?_digit hc, ← heq]
  simp [Token.readNumber, hnumeral, toJson?_toDigits h]

/-! ## Values -/

/-- The value is written as it is read: numbers are natural and fit into 64 bits, and at most `room`
containers stand inside one another. -/
inductive IsWritable : Nat → Json → Prop where
  | null {room : Nat} : IsWritable room .null
  | bool {room : Nat} (value : Bool) : IsWritable room (.bool value)
  | natural {room value : Nat} (h : value < Numeral.wordLimit) : IsWritable room (.natural value)
  | string {room : Nat} (value : String) : IsWritable room (.string value)
  | array {room : Nat} {items : List Json} (h : ∀ item ∈ items, IsWritable room item) :
      IsWritable (room + 1) (.array items)
  | object {room : Nat} {members : List (String × Json)}
      (h : ∀ member ∈ members, IsWritable room member.2) : IsWritable (room + 1) (.object members)

mutual

/-- The tokens of a value. -/
def tokens : Json → List Token
  | null => [.scalar null]
  | bool value => [.scalar (bool value)]
  | natural value => [.scalar (natural value)]
  | number text => [.scalar (number text)]
  | string value => [.quoted value]
  | array [] => [.openBracket, .closeBracket]
  | array (first :: rest) =>
      .openBracket :: (tokens first ++ (itemTokens rest ++ [.closeBracket]))
  | object [] => [.openBrace, .closeBrace]
  | object ((key, first) :: rest) =>
      .openBrace :: .quoted key :: .colon ::
        (tokens first ++ (memberTokens rest ++ [.closeBrace]))

/-- The tokens of the items behind the first one. -/
def itemTokens : List Json → List Token
  | [] => []
  | item :: rest => .comma :: (tokens item ++ itemTokens rest)

/-- The tokens of the members behind the first one. -/
def memberTokens : List (String × Json) → List Token
  | [] => []
  | (key, value) :: rest => .comma :: .quoted key :: .colon :: (tokens value ++ memberTokens rest)

end

theorem list?_newLine (depth : Nat) (rest : List Char) :
    list? (newLine depth ++ rest) = list? rest := by
  refine Token.list?_spaces ?_ rest
  refine List.forall_mem_cons.mpr ⟨rfl, fun c hc => ?_⟩
  rw [List.eq_of_mem_replicate hc]
  rfl

theorem list?_quote (text : String) (rest : List Char) :
    list? (quote text ++ rest) = (list? rest).map (.quoted text :: ·) :=
  Token.list?_append (read?_quote text) nofun

theorem list?_mark {c : Char} {token : Token} (h : read? [c] = some (token, []))
    (hmark : token.isScalar = false) (rest : List Char) :
    list? (c :: rest) = (list? rest).map (token :: ·) :=
  Token.list?_append h (by simp [hmark])

theorem list?_key (key : String) (rest : List Char) :
    list? (quote key ++ (": ".toList ++ rest)) =
      (list? rest).map ([.quoted key, .colon] ++ ·) := by
  rw [list?_quote, String.toList_ofList, List.cons_append, list?_mark rfl rfl, List.cons_append,
    Token.list?_space rfl, Option.map_map]
  rfl

theorem stops_cons {c : Char} (h : goesOn c = false) (rest : List Char) :
    Stops goesOn (c :: rest) := by
  rintro _ ⟨⟩
  exact h

/-- The tokens of a text are those of a value, whatever stands behind it. -/
def Spells (text : List Char) (tokens : List Token) : Prop :=
  ∀ rest, Stops goesOn rest → list? (text ++ rest) = (list? rest).map (tokens ++ ·)

theorem stops_renderItems (items : List Json) (depth : Nat) (hrest : Stops goesOn rest) :
    Stops goesOn (renderItems depth items ++ rest) := by
  cases items with
  | nil => exact hrest
  | cons => exact stops_cons (by decide) _

theorem stops_renderMembers (members : List (String × Json)) (depth : Nat)
    (hrest : Stops goesOn rest) : Stops goesOn (renderMembers depth members ++ rest) := by
  cases members with
  | nil => exact hrest
  | cons => exact stops_cons (by decide) _

theorem spells_renderItems {items : List Json} {depth : Nat}
    (h : ∀ item ∈ items, Spells (render depth item) (tokens item)) :
    Spells (renderItems depth items) (itemTokens items) := by
  induction items with
  | nil =>
      intro rest _
      simp [renderItems, itemTokens]
  | cons item items ih =>
      obtain ⟨hitem, hitems⟩ := List.forall_mem_cons.mp h
      intro rest hrest
      simp only [renderItems, itemTokens, List.cons_append, List.append_assoc]
      rw [list?_mark rfl rfl, list?_newLine, hitem _ (stops_renderItems items depth hrest),
        ih hitems rest hrest]
      simp [Function.comp_def]

theorem spells_renderMembers {members : List (String × Json)} {depth : Nat}
    (h : ∀ member ∈ members, Spells (render depth member.2) (tokens member.2)) :
    Spells (renderMembers depth members) (memberTokens members) := by
  induction members with
  | nil =>
      intro rest _
      simp [renderMembers, memberTokens]
  | cons member members ih =>
      obtain ⟨hmember, hmembers⟩ := List.forall_mem_cons.mp h
      intro rest hrest
      simp only [renderMembers, memberTokens, List.cons_append, List.append_assoc]
      rw [list?_mark rfl rfl, list?_newLine, list?_key,
        hmember _ (stops_renderMembers members depth hrest), ih hmembers rest hrest]
      simp [Function.comp_def]

/-- A value is written in its tokens. -/
theorem spells_render (h : IsWritable room value) (depth : Nat) :
    Spells (render depth value) (tokens value) := by
  induction h generalizing depth with
  | null => exact fun rest hrest => Token.list?_append rfl fun _ => hrest
  | bool value => cases value <;> exact fun rest hrest => Token.list?_append rfl fun _ => hrest
  | natural h => exact fun rest hrest => Token.list?_append (read?_natural h) fun _ => hrest
  | string value => exact fun rest _ => list?_quote value rest
  | @array room items h ih =>
      intro rest _
      cases items with
      | nil =>
          have hclose : list? (']' :: rest) = (list? rest).map (.closeBracket :: ·) :=
            list?_mark rfl rfl rest
          change list? ('[' :: ']' :: rest) = _
          rw [list?_mark rfl rfl, hclose]
          simp [tokens, Function.comp_def]
      | cons first items =>
          obtain ⟨hfirst, hitems⟩ := List.forall_mem_cons.mp ih
          have hclose : Stops goesOn (newLine depth ++ ']' :: rest) := stops_cons (by decide) _
          simp only [render, tokens, List.cons_append, List.nil_append, List.append_assoc]
          rw [list?_mark rfl rfl, list?_newLine,
            hfirst (depth + 1) _ (stops_renderItems items _ hclose),
            spells_renderItems (fun item hitem => hitems item hitem (depth + 1)) _ hclose,
            list?_newLine, list?_mark rfl rfl]
          simp [Function.comp_def]
  | @object room members h ih =>
      intro rest _
      cases members with
      | nil =>
          have hclose : list? ('\x7d' :: rest) = (list? rest).map (.closeBrace :: ·) :=
            list?_mark rfl rfl rest
          change list? ('\x7b' :: '\x7d' :: rest) = _
          rw [list?_mark rfl rfl, hclose]
          simp [tokens, Function.comp_def]
      | cons first members =>
          obtain ⟨hfirst, hmembers⟩ := List.forall_mem_cons.mp ih
          have hclose : Stops goesOn (newLine depth ++ '\x7d' :: rest) := stops_cons (by decide) _
          simp only [render, tokens, List.cons_append, List.nil_append, List.append_assoc]
          rw [list?_mark rfl rfl, list?_newLine, list?_key,
            hfirst (depth + 1) _ (stops_renderMembers members _ hclose),
            spells_renderMembers (fun member hmember => hmembers member hmember (depth + 1)) _
              hclose,
            list?_newLine, list?_mark rfl rfl]
          simp [Function.comp_def]

/-! ## Reading the tokens -/

variable {reader : Reader} {frames : List Frame}

/-- The reader takes the first token of a value, and what is open is `frames`. -/
def Reader.Opens (reader : Reader) (frames : List Frame) : Prop :=
  ∀ token : Token, token ≠ .closeBracket → reader.read token = Reader.openValue frames token

theorem Reader.opens_value (frames : List Frame) : (Reader.value frames).Opens frames := by
  intro token _
  rfl

theorem Reader.opens_item (frames : List Frame) :
    (Reader.item frames).Opens (.array [] :: frames) := by
  intro token hne
  cases token <;> first | rfl | exact (hne rfl).elim

theorem Reader.Opens.foldlM_cons {token : Token} {next : Reader} (h : reader.Opens frames)
    (hread : Reader.openValue frames token = some next) (more : List Token) :
    (token :: more).foldlM Reader.read reader = more.foldlM Reader.read next := by
  have hne : token ≠ .closeBracket := by
    rintro rfl
    cases hread
  rw [List.foldlM_cons, h token hne, hread]
  rfl

/-- The reader is behind a value when it has read the tokens of it. -/
def Makes (tokens : List Token) (value : Json) (room : Nat) : Prop :=
  ∀ (reader : Reader) (frames : List Frame) (more : List Token), reader.Opens frames →
    frames.length + room ≤ Reader.depthLimit →
    (tokens ++ more).foldlM Reader.read reader = more.foldlM Reader.read (.behind value frames)

theorem foldlM_itemTokens {items : List Json} (h : ∀ item ∈ items, Makes (tokens item) item room)
    (last : Json) (done : List Json) (frames : List Frame) (more : List Token)
    (hroom : frames.length + (room + 1) ≤ Reader.depthLimit) :
    (itemTokens items ++ .closeBracket :: more).foldlM Reader.read
        (.behind last (.array done :: frames)) =
      more.foldlM Reader.read (.behind (.array (done.reverse ++ last :: items)) frames) := by
  induction items generalizing last done with
  | nil =>
      rw [itemTokens, List.nil_append, List.foldlM_cons, Reader.read, List.reverse_cons]
      rfl
  | cons item items ih =>
      obtain ⟨hitem, hitems⟩ := List.forall_mem_cons.mp h
      simp only [itemTokens, List.cons_append, List.append_assoc, List.foldlM_cons]
      change List.foldlM Reader.read (.value (.array (last :: done) :: frames)) _ = _
      rw [hitem _ _ _ (Reader.opens_value _) (by rw [List.length_cons]; omega), ih hitems,
        List.reverse_cons, List.append_assoc]
      rfl

theorem foldlM_memberTokens {members : List (String × Json)}
    (h : ∀ member ∈ members, Makes (tokens member.2) member.2 room) (key : String) (last : Json)
    (done : List (String × Json)) (frames : List Frame) (more : List Token)
    (hroom : frames.length + (room + 1) ≤ Reader.depthLimit) :
    (memberTokens members ++ .closeBrace :: more).foldlM Reader.read
        (.behind last (.object done key :: frames)) =
      more.foldlM Reader.read
        (.behind (.object (done.reverse ++ (key, last) :: members)) frames) := by
  induction members generalizing key last done with
  | nil =>
      rw [memberTokens, List.nil_append, List.foldlM_cons, Reader.read, List.reverse_cons]
      rfl
  | cons member members ih =>
      obtain ⟨hmember, hmembers⟩ := List.forall_mem_cons.mp h
      simp only [memberTokens, List.cons_append, List.append_assoc, List.foldlM_cons]
      change List.foldlM Reader.read
        (.value (.object ((key, last) :: done) member.1 :: frames)) _ = _
      rw [hmember _ _ _ (Reader.opens_value _) (by rw [List.length_cons]; omega), ih hmembers,
        List.reverse_cons, List.append_assoc]
      rfl

/-- The reader makes a value of its tokens. -/
theorem makes_tokens (h : IsWritable room value) : Makes (tokens value) value room := by
  induction h with
  | null => exact fun reader frames more hopens _ => hopens.foldlM_cons rfl more
  | bool value => exact fun reader frames more hopens _ => hopens.foldlM_cons rfl more
  | natural h => exact fun reader frames more hopens _ => hopens.foldlM_cons rfl more
  | string value => exact fun reader frames more hopens _ => hopens.foldlM_cons rfl more
  | @array room items h ih =>
      intro reader frames more hopens hroom
      have hread : Reader.openValue frames .openBracket = some (.item frames) :=
        if_pos (by omega)
      cases items with
      | nil =>
          rw [tokens, List.cons_append, hopens.foldlM_cons hread]
          rfl
      | cons first items =>
          obtain ⟨hfirst, hitems⟩ := List.forall_mem_cons.mp ih
          simp only [tokens, List.cons_append, List.nil_append, List.append_assoc]
          rw [hopens.foldlM_cons hread,
            hfirst _ _ _ (Reader.opens_item frames) (by rw [List.length_cons]; omega),
            foldlM_itemTokens hitems first [] frames more hroom]
          rfl
  | @object room members h ih =>
      intro reader frames more hopens hroom
      have hread : Reader.openValue frames .openBrace = some (.key [] frames) :=
        if_pos (by omega)
      cases members with
      | nil =>
          rw [tokens, List.cons_append, hopens.foldlM_cons hread]
          rfl
      | cons first members =>
          obtain ⟨hfirst, hmembers⟩ := List.forall_mem_cons.mp ih
          simp only [tokens, List.cons_append, List.nil_append, List.append_assoc]
          rw [hopens.foldlM_cons hread]
          change List.foldlM Reader.read (.value (.object [] first.1 :: frames)) _ = _
          rw [hfirst _ _ _ (Reader.opens_value _) (by rw [List.length_cons]; omega),
            foldlM_memberTokens hmembers first.1 first.2 [] frames more hroom]
          rfl

/-- A written value is read back, whatever blanks stand behind it. -/
theorem parse?_pretty_append (h : IsWritable Reader.depthLimit value) {spaces : String}
    (hspaces : ∀ c ∈ spaces.toList, isSpace c = true) :
    parse? (value.pretty ++ spaces) = some value := by
  have hstops : Stops goesOn spaces.toList := fun c hc =>
    Token.not_goesOn_of_isSpace (hspaces c (List.mem_of_mem_head? hc))
  have hnone := Token.list?_spaces hspaces []
  rw [List.append_nil, Token.list?_nil] at hnone
  have hmade := makes_tokens h (.value []) [] [] (Reader.opens_value []) (Nat.zero_add _).le
  rw [List.append_nil] at hmade
  rw [parse?, pretty, String.toList_append, String.toList_ofList, spells_render h 0 _ hstops, hnone,
    Option.map_some, List.append_nil]
  simp [hmade, Reader.finished?]

end LayerLint.Json
