import LayerLint.Proofs.Json.Stripping
import Mathlib.Data.List.Chain

/-! # Comments do not change what a JSON text says

A text with comments is a row of tokens with blanks and comments around them, where the end of a
container may have a surplus comma before it. Once it is stripped, the same tokens are read from it
as from the row alone. A text that is read as it stands is not changed by stripping.
-/

namespace LayerLint.Json

open Token (IsLexeme Stops goesOn isSpace list?)

variable {chars rest spaces lexeme left : List Char} {token first second : Token}
variable {tokens : List Token} {reader mid last : Reader}

/-! ## Neighbours -/

namespace Token

/-- Whether a second token may follow a first one: no end of a container follows a comma, and no
two words or numerals follow one another. -/
def admits : Token → Token → Bool
  | .comma, second => !second.isCloser
  | .scalar _, second => !second.isScalar
  | _, _ => true

end Token

/-- Behind a comma a value or another key is due. -/
theorem Reader.of_read_comma (h : reader.read .comma = some mid) :
    (∃ frames, mid = .value frames) ∨
      ∃ member done frames, mid = .key (member :: done) frames := by
  cases reader with
  | key done frames => cases done <;> cases h
  | behind value frames =>
      rcases frames with _ | ⟨_ | _, frames⟩ <;> cases h
      · exact .inl ⟨_, rfl⟩
      · exact .inr ⟨_, _, _, rfl⟩
  | _ => cases h

theorem Reader.of_read_scalar {plain : Json} (h : reader.read (.scalar plain) = some mid) :
    ∃ frames, mid = .behind plain frames := by
  cases reader with
  | value frames =>
      cases h
      exact ⟨_, rfl⟩
  | item frames =>
      cases h
      exact ⟨_, rfl⟩
  | key done frames => cases done <;> cases h
  | colon => cases h
  | behind value frames => rcases frames with _ | ⟨_ | _, frames⟩ <;> cases h

theorem Reader.admits_of_read (hfirst : reader.read first = some mid)
    (hsecond : mid.read second = some last) : first.admits second = true := by
  cases first with
  | comma =>
      obtain ⟨frames, rfl⟩ | ⟨member, done, frames, rfl⟩ := Reader.of_read_comma hfirst
      · cases second <;> first | rfl | cases hsecond
      · cases second <;> first | rfl | cases hsecond
  | scalar plain =>
      obtain ⟨frames, rfl⟩ := Reader.of_read_scalar hfirst
      cases second with
      | scalar => rcases frames with _ | ⟨_ | _, _⟩ <;> cases hsecond
      | _ => rfl
  | _ => rfl

/-- Tokens that are read one after another may follow one another. -/
theorem Reader.isChain_of_foldlM (h : tokens.foldlM Reader.read reader = some last) :
    tokens.IsChain fun first second => first.admits second = true := by
  induction tokens generalizing reader with
  | nil => exact .nil
  | cons first tokens ih =>
      rw [List.foldlM_cons, Option.bind_eq_bind, Option.bind_eq_some_iff] at h
      obtain ⟨mid, hfirst, hrest⟩ := h
      cases tokens with
      | nil => exact .singleton first
      | cons second tokens =>
          have hsecond := hrest
          rw [List.foldlM_cons, Option.bind_eq_bind, Option.bind_eq_some_iff] at hsecond
          obtain ⟨_, hsecond, -⟩ := hsecond
          exact .cons_cons (Reader.admits_of_read hfirst hsecond) (ih hrest)

theorem parse?_eq_some_iff {text : String} {value : Json} :
    parse? text = some value ↔ ∃ tokens, Token.list? text.toList = some tokens ∧
      (tokens.foldlM Reader.read (.value [])).bind Reader.finished? = some value := by
  simp only [parse?, Option.bind_eq_bind, Option.bind_eq_some_iff]

theorem isChain_of_parse {value : Json}
    (h : (tokens.foldlM Reader.read (.value [])).bind Reader.finished? = some value) :
    tokens.IsChain fun first second => first.admits second = true := by
  obtain ⟨reader, hreader, -⟩ := Option.bind_eq_some_iff.mp h
  exact Reader.isChain_of_foldlM hreader

/-! ## Texts without comments -/

theorem stripFrom_spaces (h : ∀ c ∈ spaces, isSpace c = true) (rest : List Char) :
    stripFrom .plain (spaces ++ rest) = spaces ++ stripFrom .plain rest :=
  stripFrom_append_of_inert (fun c hc => (isBlank_of_isSpace (h c hc)).2) rest

theorem closesNext_spaces (h : ∀ c ∈ spaces, isSpace c = true) (rest : List Char) :
    closesNext (spaces ++ rest) = closesNext rest := by
  induction spaces with
  | nil => rfl
  | cons c spaces ih =>
      obtain ⟨hc, hspaces⟩ := List.forall_mem_cons.mp h
      obtain ⟨hblank, hinert⟩ := isBlank_of_isSpace hc
      rw [List.cons_append, closesNext, significant?_blank hblank hinert]
      exact ih hspaces

theorem closesNext_of_list? (h : list? chars = some tokens) :
    closesNext chars = tokens.head?.any Token.isCloser := by
  cases tokens with
  | nil =>
      rw [← List.append_nil chars, closesNext_spaces (Token.isSpace_of_list?_eq_nil h)]
      rfl
  | cons token tokens =>
      obtain ⟨spaces, lexeme, left, hspaces, hlexeme, -, rfl⟩ := Token.exists_isLexeme_of_list? h
      rw [closesNext_spaces hspaces, hlexeme.closesNext_append]
      rfl

theorem stripFrom_of_list? (h : list? chars = some tokens)
    (hchain : tokens.IsChain fun first second => first.admits second = true) :
    stripFrom .plain chars = chars := by
  induction tokens generalizing chars with
  | nil =>
      have hspaces := stripFrom_spaces (Token.isSpace_of_list?_eq_nil h) []
      simpa [stripFrom] using hspaces
  | cons token tokens ih =>
      obtain ⟨spaces, lexeme, left, hspaces, hlexeme, hleft, rfl⟩ :=
        Token.exists_isLexeme_of_list? h
      have hcomma : token = .comma → closesNext left = false := by
        rintro rfl
        rw [closesNext_of_list? hleft]
        cases tokens with
        | nil => rfl
        | cons second tokens => simpa [Token.admits] using hchain.rel
      rw [stripFrom_spaces hspaces, hlexeme.stripFrom_append hcomma, ih hleft hchain.tail]

theorem stripComments_eq_of_parse? {text : String} {value : Json}
    (h : parse? text = some value) : stripComments text = text := by
  obtain ⟨tokens, htokens, hvalue⟩ := parse?_eq_some_iff.mp h
  rw [stripComments, stripFrom_of_list? htokens (isChain_of_parse hvalue), String.ofList_toList]

/-! ## Texts with comments -/

/-- A token as it is written, with the blanks and comments before it. -/
structure Written where
  before : Layout
  /-- What stands between a surplus comma and the token, if there is such a comma. -/
  surplus : Option Layout
  token : Token
  lexeme : List Char
  hread : Token.read? lexeme = some (token, [])
  /-- Only the end of a container has a surplus comma before it. -/
  hcloser : surplus.isSome = true → token.isCloser = true

namespace Written

variable {written : List Written} {w : Written}

/-- The characters before the token. -/
def lead (w : Written) : List Char :=
  w.before.chars ++ w.surplus.elim [] fun behind => ',' :: behind.chars

/-- What stripping leaves of them. -/
def blanks (w : Written) : List Char :=
  w.before.spaces ++ w.surplus.elim [] Layout.spaces

theorem isSpace_of_mem_blanks (w : Written) : ∀ c ∈ w.blanks, isSpace c = true := by
  refine List.forall_mem_append.mpr ⟨isSpace_of_mem_spaces w.before, ?_⟩
  cases w.surplus with
  | none => exact List.forall_mem_nil _
  | some behind => exact isSpace_of_mem_spaces behind

theorem isLexeme (w : Written) : IsLexeme w.token w.lexeme := by
  obtain ⟨lexeme, hlexeme, heq⟩ := Token.exists_isLexeme_of_read? w.hread
  rwa [heq, List.append_nil]

/-- Tokens, each with some characters before it. -/
def textBehind (lead : Written → List Char) (written : List Written) : List Char :=
  written.flatMap fun w => lead w ++ w.lexeme

theorem textBehind_cons (lead : Written → List Char) (w : Written) (written : List Written) :
    textBehind lead (w :: written) = lead w ++ (w.lexeme ++ textBehind lead written) := by
  simp [textBehind]

theorem stripFrom_lead (w : Written) (rest : List Char) :
    stripFrom .plain (w.lead ++ (w.lexeme ++ rest)) =
      w.blanks ++ stripFrom .plain (w.lexeme ++ rest) := by
  unfold lead blanks
  cases hsurplus : w.surplus with
  | none => simp [Layout.stripFrom_append]
  | some behind =>
      -- the comma goes, since the end of a container follows
      have hcloses : closesNext (behind.chars ++ (w.lexeme ++ rest)) = true := by
        rw [Layout.closesNext_append, w.isLexeme.closesNext_append]
        exact w.hcloser (by rw [hsurplus, Option.isSome_some])
      simp [Layout.stripFrom_append, stripFrom_comma, hcloses]

theorem closesNext_lead (hnot : w.token.isCloser = false) (rest : List Char) :
    closesNext (w.lead ++ (w.lexeme ++ rest)) = false := by
  have hnone : w.surplus = none := by
    cases hsurplus : w.surplus with
    | none => rfl
    | some behind =>
        have hcloser := w.hcloser (by rw [hsurplus, Option.isSome_some])
        rw [hnot] at hcloser
        cases hcloser
  rw [lead, hnone, Option.elim_none, List.append_nil, Layout.closesNext_append,
    w.isLexeme.closesNext_append, hnot]

/-- Stripping leaves the tokens and the blanks between them. -/
theorem stripFrom_textBehind
    (hchain : (written.map Written.token).IsChain fun first second => first.admits second = true)
    (hrest : closesNext rest = false) :
    stripFrom .plain (textBehind lead written ++ rest) =
      textBehind blanks written ++ stripFrom .plain rest := by
  induction written with
  | nil => rfl
  | cons w written ih =>
      have hcomma : w.token = .comma → closesNext (textBehind lead written ++ rest) = false := by
        intro htoken
        cases written with
        | nil => exact hrest
        | cons w' written =>
            have hnot : w'.token.isCloser = false := by
              have hadmits := hchain.rel
              rw [htoken] at hadmits
              simpa [Token.admits] using hadmits
            rw [textBehind_cons, List.append_assoc, List.append_assoc]
            exact closesNext_lead hnot _
      simp only [textBehind_cons, List.append_assoc]
      rw [stripFrom_lead, w.isLexeme.stripFrom_append hcomma, ih hchain.tail]

/-- A token behind a word or a numeral does not go on with it, where blanks keep them apart or the
token may follow. -/
theorem stops_textBehind {blanks : Written → List Char}
    (hblanks : ∀ w, ∀ c ∈ blanks w, isSpace c = true) {w w' : Written}
    (happart : blanks w' ≠ [] ∨ w.token.admits w'.token = true) (hscalar : w.token.isScalar = true)
    (written : List Written) : Stops goesOn (textBehind blanks (w' :: written) ++ rest) := by
  rw [textBehind_cons, List.append_assoc]
  intro c hc
  cases hlead : blanks w' with
  | cons d lead =>
      rw [hlead] at hc
      cases hc
      exact Token.not_goesOn_of_isSpace (hblanks w' c (hlead ▸ List.mem_cons_self))
  | nil =>
      obtain ⟨d, tail, hlexeme, -, hgoes⟩ := w'.isLexeme.exists_cons
      have hadmits := happart.resolve_left (fun hne => hne hlead)
      rw [hlead, hlexeme] at hc
      cases hc
      refine hgoes ?_
      cases htoken : w.token with
      | scalar plain => simpa [htoken, Token.admits] using hadmits
      | _ => simp [htoken, Token.isScalar] at hscalar

/-- Tokens are read one by one where blanks keep them apart, or need not. -/
theorem list?_textBehind {blanks : Written → List Char}
    (hblanks : ∀ w, ∀ c ∈ blanks w, isSpace c = true)
    (hchain : written.IsChain fun w w' => blanks w' ≠ [] ∨ w.token.admits w'.token = true)
    (hrest : ∀ c ∈ rest, isSpace c = true) :
    list? (textBehind blanks written ++ rest) = some (written.map Written.token) := by
  induction written with
  | nil =>
      have hlist := Token.list?_spaces hrest []
      rwa [List.append_nil, Token.list?_nil] at hlist
  | cons w written ih =>
      have hstops : w.token.isScalar = true →
          Stops goesOn (textBehind blanks written ++ rest) := by
        intro hscalar
        cases written with
        | nil => exact fun c hc => Token.not_goesOn_of_isSpace (hrest c (List.mem_of_mem_head? hc))
        | cons w' written => exact stops_textBehind hblanks hchain.rel hscalar written
      rw [textBehind_cons, List.append_assoc, Token.list?_spaces (hblanks w), List.append_assoc,
        Token.list?_append w.hread hstops, ih hchain.tail]
      rfl

end Written

/-- A text with comments: its tokens, and what stands behind the last of them. -/
structure CommentedText where
  written : List Written
  after : Layout
  /-- A line comment that the text ends in, if there is one. -/
  final : Option (List Char)
  hfinal : ∀ body ∈ final, '\n' ∉ body

namespace CommentedText

open Written (textBehind lead blanks)

variable (commented : CommentedText)

/-- The line comment that the text ends in. -/
def ending : List Char :=
  commented.final.elim [] fun body => '/' :: '/' :: body

/-- The text with its comments and surplus commas. -/
def text : String :=
  String.ofList <|
    textBehind lead commented.written ++ (commented.after.chars ++ commented.ending)

/-- The text without comments and surplus commas: its tokens, one blank before each. -/
def plain : String :=
  String.ofList (textBehind (fun _ => [' ']) commented.written)

/-- The value that the tokens of the text spell. -/
def value? : Option Json :=
  ((commented.written.map Written.token).foldlM Reader.read (.value [])).bind Reader.finished?

theorem parse?_plain : parse? commented.plain = commented.value? := by
  have hlist : list? (textBehind (fun _ => [' ']) commented.written ++ []) =
      some (commented.written.map Written.token) :=
    Written.list?_textBehind (fun _ => List.forall_mem_singleton.mpr rfl)
      (List.pairwise_of_forall fun _ _ => .inl (List.cons_ne_nil _ _)).isChain
      (List.forall_mem_nil _)
  rw [List.append_nil] at hlist
  rw [parse?, plain, String.toList_ofList, hlist]
  rfl

theorem ending_blank : stripFrom .plain commented.ending = [] ∧
    closesNext commented.ending = false := by
  unfold ending
  cases hfinal : commented.final with
  | none => exact ⟨rfl, rfl⟩
  | some body =>
      have hstrip := stripFrom_lineComment (commented.hfinal body hfinal) []
      have hnext := significant?_lineComment (commented.hfinal body hfinal) []
      rw [List.append_nil] at hstrip hnext
      constructor
      · simpa [stripFrom, staysIn, Stretch.next, Stretch.opensComment] using hstrip
      · simp [closesNext, significant?, Stretch.next, Stretch.opensComment, hnext]

theorem parse?_stripComments_text {value : Json} (h : commented.value? = some value) :
    parse? (stripComments commented.text) = some value := by
  have hchain := isChain_of_parse h
  obtain ⟨hending, hcloses⟩ := commented.ending_blank
  have hstrip : stripFrom .plain
      (textBehind lead commented.written ++ (commented.after.chars ++ commented.ending)) =
      textBehind blanks commented.written ++ commented.after.spaces := by
    rw [Written.stripFrom_textBehind hchain (by rw [Layout.closesNext_append, hcloses]),
      Layout.stripFrom_append, hending, List.append_nil]
  have hlist := Written.list?_textBehind Written.isSpace_of_mem_blanks
    (((List.isChain_map _).mp hchain).imp fun _ _ hadmits => .inr hadmits)
    (isSpace_of_mem_spaces commented.after)
  rw [parse?, stripComments, text, String.toList_ofList, String.toList_ofList, hstrip, hlist]
  exact h

end CommentedText

/-- Whatever value the tokens of a text with comments spell is read from it once it is stripped, and
stripping leaves a text that is read as it stands. -/
theorem parse?_stripComments :
    (∀ (commented : CommentedText) (value : Json), parse? commented.plain = some value →
      parse? (stripComments commented.text) = some value) ∧
    ∀ (text : String) (value : Json), parse? text = some value → stripComments text = text := by
  constructor
  · intro commented value h
    rw [commented.parse?_plain] at h
    exact commented.parse?_stripComments_text h
  · exact fun _ _ => stripComments_eq_of_parse?

/-- An object whose key and whose comments look like one another. -/
def sample : CommentedText where
  written :=
    [⟨[.blockComment ['a', ',', '*'] (by decide)], none, .openBrace, ['\x7b'], rfl, nofun⟩,
      ⟨[.lineComment [' ', '\x7d', '"'] (by decide)], none, .quoted "a//,]",
        ['"', 'a', '/', '/', ',', ']', '"'], rfl, nofun⟩,
      ⟨[], none, .colon, [':'], rfl, nofun⟩,
      ⟨[.space ' ' rfl], none, .openBracket, ['['], rfl, nofun⟩,
      ⟨[], none, .scalar (.natural 1), ['1'], rfl, nofun⟩,
      ⟨[], some [.space ' ' rfl, .blockComment [','] (by decide)], .closeBracket, [']'], rfl,
        fun _ => rfl⟩,
      ⟨[.space '\n' rfl], some [], .closeBrace, ['\x7d'], rfl, fun _ => rfl⟩]
  after := [.space ' ' rfl]
  final := some ['e', 'n', 'd']
  hfinal := by simp

theorem parse?_stripComments_sample :
    sample.text = "/*a,**/\x7b// \x7d\"\n\"a//,]\": [1, /*,*/]\n,\x7d //end" ∧
      parse? (stripComments sample.text) =
        some (.object [("a//,]", .array [.natural 1])]) ∧
      stripComments sample.plain = sample.plain := by
  have hvalue : parse? sample.plain = some (.object [("a//,]", .array [.natural 1])]) := by
    rw [sample.parse?_plain]
    rfl
  exact ⟨rfl, parse?_stripComments.1 sample _ hvalue, parse?_stripComments.2 _ _ hvalue⟩

end LayerLint.Json
