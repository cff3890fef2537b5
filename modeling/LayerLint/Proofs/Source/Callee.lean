import LayerLint.Proofs.Source.Quotation
import LayerLint.Proofs.Text.Widening
import LayerLint.Source.RouterHook

/-! # Names that are called

The name in a call is an identifier, and what follows it opens the call: blanks, maybe a mark, and
the parenthesis. None of those characters can stand in an identifier, so the name that is called is
all of the identifier at its place.
-/

namespace LayerLint.Source

open Pattern
open Text (Cursor Span)
open Text.Cursor (between)

variable {start stop : Cursor} {captures : Captures}

/-- Whether a character next to a name makes it a part of a longer one. -/
def isNamePart (c : Char) : Bool :=
  Text.isWordChar c || c == '$'

/-- What follows on a name that is called: an opening parenthesis, and before it blanks or a mark
with blanks around it. -/
def OpensCall (after : List Char) : Prop :=
  ∃ first mark second rest, after = first ++ (mark ++ (second ++ '(' :: rest)) ∧
    (∀ c ∈ first, Text.isBlank c = true) ∧ (mark = [] ∨ mark = "?.".toList) ∧
    ∀ c ∈ second, Text.isBlank c = true

namespace RouterBindings

/-! ## Names -/

theorem isNameChar_of_isNameStart {c : Char} (h : isNameStart c = true) : isNameChar c = true := by
  simp only [isNameStart, isNameChar, Char.isAlphanum, Bool.or_eq_true] at h ⊢
  tauto

theorem toNat_lt_of_isNameChar {c : Char} (h : isNameChar c = true) : c.toNat < 128 := by
  have hname : isNameChar c = (decide (c.val ≥ 'A'.val ∧ c.val ≤ 'Z'.val) ||
      (decide (c.val ≥ 'a'.val) && decide (c.val ≤ 'z'.val)) ||
      (decide (c.val ≥ '0'.val) && decide (c.val ≤ '9'.val)) || c == '_' || c == '$') := rfl
  simp only [hname, Bool.or_eq_true, Bool.and_eq_true, decide_eq_true_eq, beq_iff_eq, ge_iff_le,
    UInt32.le_iff_toNat_le] at h
  have hnat : c.toNat = c.val.toNat := rfl
  rcases h with ((((⟨-, h⟩ | ⟨-, h⟩) | ⟨-, h⟩) | rfl) | rfl)
  · exact hnat ▸ Nat.lt_of_le_of_lt h (by decide)
  · exact hnat ▸ Nat.lt_of_le_of_lt h (by decide)
  · exact hnat ▸ Nat.lt_of_le_of_lt h (by decide)
  · decide
  · decide

theorem isNamePart_of_isNameChar {c : Char} (h : isNameChar c = true) : isNamePart c = true := by
  have hall : ∀ n : Fin 128, isNameChar (Char.ofNat n) = true →
      isNamePart (Char.ofNat n) = true := by decide +kernel
  have hc := hall ⟨c.toNat, toNat_lt_of_isNameChar h⟩
  rw [Char.ofNat_toNat] at hc
  exact hc h

/-- A hook's name is an identifier that begins with a letter. -/
theorem exists_of_isHookName {name : String} (h : isHookName name = true) :
    ∃ rest, name.toList = 'u' :: rest ∧ ∀ c ∈ 'u' :: rest, isNameChar c = true := by
  obtain ⟨captures, stop, haccepts, hend⟩ := describes_iff.mp h
  have hcase : ∀ c : Char, (c.isUpper || c.isDigit || c == '_' || c == '$') = true →
      isNameChar c = true := by
    intro c hc
    have hname : isNameChar c =
        (c.isUpper || c.isLower || c.isDigit || c == '_' || c == '$') := rfl
    simp only [hname, Bool.or_eq_true] at hc ⊢
    tauto
  have hstays : hookName.StaysIn isNameChar :=
    ⟨staysIn_word (by decide), hcase, fun _ hc => hc, trivial⟩
  obtain ⟨-, piece, hreads, hplain⟩ := haccepts.reads_of_staysIn hstays
  have hname : name.toList = piece := by
    have hrest := hreads.rest_eq
    rwa [hend, List.append_nil] at hrest
  have hsplit : (all ([word "use"] ++ [one fun c => c.isUpper || c.isDigit || c == '_' || c == '$',
      long isNameChar])).Accepts (Cursor.start name.toList) captures stop := haccepts
  obtain ⟨middle, before, after, hword, -, -⟩ := hsplit.of_all_append
  have hbegin : name.toList = "use".toList ++ middle.rest :=
    hword.of_all_singleton.reads_of_word.2.rest_eq
  exact ⟨"se".toList ++ middle.rest, hbegin, fun c hc => hplain c (hname ▸ hbegin ▸ hc)⟩

/-- Whether all names that are bound as hooks have the form of hooks' names. -/
def HoldsHooks (bindings : RouterBindings) : Prop :=
  ∀ name ∈ bindings.hooks, isHookName name = true

theorem HoldsHooks.addHook {bindings : RouterBindings} (h : bindings.HoldsHooks) (name : String) :
    (bindings.addHook name).HoldsHooks := by
  intro other hother
  rw [RouterBindings.addHook] at hother
  split at hother
  next hname =>
    rcases List.mem_append.mp hother with hother | hother
    · exact h other hother
    · rw [List.mem_singleton.mp hother]
      exact (Bool.and_eq_true_iff.mp hname).1
  next => exact h other hother

theorem HoldsHooks.addClause {bindings : RouterBindings} (h : bindings.HoldsHooks)
    (clause : List Char) : (bindings.addClause clause).HoldsHooks := by
  rw [RouterBindings.addClause]
  exact List.foldlRecOn (motive := HoldsHooks) _ _ h fun _ hkept name _ => hkept.addHook name

theorem holdsHooks_collect (source masked : List Char) (routers : GlobSet) :
    (collect source masked routers).HoldsHooks := by
  refine List.foldlRecOn (motive := HoldsHooks) _ _ (by simp [HoldsHooks, empty]) ?_
  intro bindings hkept found _
  split
  · exact hkept.addClause _
  · exact hkept

end RouterBindings

namespace HookCall

open RouterBindings

/-! ## The form of a call -/

/-- Whether a character may stand between a name that is called and what is in the parentheses. -/
def isOpeningChar (c : Char) : Bool :=
  Text.isBlank c || c == '?' || c == '.' || c == '('

theorem isNamePart_eq_false_of_isOpeningChar {c : Char} (h : isOpeningChar c = true) :
    isNamePart c = false := by
  have hblank : ∀ c, Text.isBlank c = true → isNamePart c = false :=
    Text.forall_isBlank_not (by decide +kernel)
  simp only [isOpeningChar, Bool.or_eq_true, beq_iff_eq] at h
  rcases h with ((h | rfl) | rfl) | rfl
  · exact hblank c h
  · decide +kernel
  · decide +kernel
  · decide +kernel

theorem isNameChar_eq_false_of_isOpeningChar {c : Char} (h : isOpeningChar c = true) :
    isNameChar c = false := by
  rw [Bool.eq_false_iff]
  intro hname
  have hpart := isNamePart_of_isNameChar hname
  rw [isNamePart_eq_false_of_isOpeningChar h] at hpart
  cases hpart

theorem exists_of_accepts_identifier (h : identifier.Accepts start captures stop) :
    captures = [] ∧ ∃ name, name ≠ [] ∧ (∀ c ∈ name, isNameChar c = true) ∧
      start.Reads name stop := by
  cases h with
  | andThen hfirst hrest =>
      cases hfirst with
      | one hfirst hstart =>
          cases hrest with
          | long hrest hplain =>
              exact ⟨rfl, _, List.cons_ne_nil _ _,
                List.forall_mem_cons.mpr ⟨isNameChar_of_isNameStart hstart, hplain⟩,
                hfirst.append hrest⟩

theorem exists_of_accepts_opening (h : opening.Accepts start captures stop) :
    captures = [] ∧ ∃ c rest, (∀ d ∈ c :: rest, isOpeningChar d = true) ∧
      start.Reads (c :: rest) stop := by
  have hblank : ∀ c, Text.isBlank c = true → isOpeningChar c = true :=
    Text.forall_isBlank (by decide)
  have hstays : opening.StaysIn isOpeningChar :=
    ⟨hblank, ⟨⟨staysIn_word (by decide), hblank⟩, trivial⟩, staysIn_word (by decide), trivial⟩
  obtain ⟨rfl, piece, hreads, hplain⟩ := h.reads_of_staysIn hstays
  have hsplit : (all ([blanks, maybe (andThen (word "?.") blanks)] ++ [word "("])).Accepts
      start [] stop := h
  obtain ⟨middle, before, after, hlead, hparen, -⟩ := hsplit.of_all_append
  obtain ⟨lead, hlead⟩ := hlead.exists_reads
  have hpiece := hreads.unique (hlead.append hparen.of_all_singleton.reads_of_word.2)
  obtain ⟨c, rest, rfl⟩ := List.exists_cons_of_ne_nil
    (show piece ≠ [] by rw [hpiece]; exact List.append_ne_nil_of_right_ne_nil _ (by decide))
  exact ⟨rfl, c, rest, hplain, hreads⟩

/-- A name and, behind it, what opens its call. -/
structure Callee (span : Span) (stop : Cursor) where
  name : List Char
  mark : Char
  rest : List Char
  name_ne_nil : name ≠ []
  isNameChar_name : ∀ c ∈ name, isNameChar c = true
  isOpeningChar_rest : ∀ c ∈ mark :: rest, isOpeningChar c = true
  reads_name : span.start.Reads name span.stop
  reads_rest : span.stop.Reads (mark :: rest) stop

theorem callee_of_accepts {middle : Cursor} (hname : identifier.Accepts start [] middle)
    (hopening : opening.Accepts middle [] stop) : Nonempty (Callee ⟨start, middle⟩ stop) := by
  obtain ⟨-, name, hne, hplain, hreads⟩ := exists_of_accepts_identifier hname
  obtain ⟨-, mark, rest, hopens, hrest⟩ := exists_of_accepts_opening hopening
  exact ⟨⟨name, mark, rest, hne, hplain, hopens, hreads, hrest⟩⟩

theorem exists_of_accepts_direct (h : direct.Accepts start captures stop) :
    ∃ middle, captures = [("hook", ⟨start, middle⟩)] ∧ start.isAtWordBoundary = true ∧
      identifier.Accepts start [] middle ∧ opening.Accepts middle [] stop := by
  cases h with
  | andThen hboundary h =>
  cases hboundary with
  | boundary hboundary =>
  cases h with
  | andThen hname h =>
  cases hname with
  | named hname =>
  have hopening := h.of_all_singleton
  obtain ⟨rfl, -⟩ := exists_of_accepts_identifier hname
  obtain ⟨rfl, -⟩ := exists_of_accepts_opening hopening
  exact ⟨_, rfl, hboundary, hname, hopening⟩

theorem callee_of_accepts_direct (h : direct.Accepts start captures stop) :
    ∃ middle, captures = [("hook", ⟨start, middle⟩)] ∧ Nonempty (Callee ⟨start, middle⟩ stop) := by
  obtain ⟨middle, hcaptures, -, hname, hopening⟩ := exists_of_accepts_direct h
  exact ⟨middle, hcaptures, callee_of_accepts hname hopening⟩

/-- A called member stands behind the name of what it belongs to and a dot. -/
theorem exists_of_accepts_member (h : member.Accepts start captures stop) :
    ∃ spaceEnd span gap gap', captures = [("space", ⟨start, spaceEnd⟩), ("hook", span)] ∧
      identifier.Accepts start [] spaceEnd ∧ (∀ c ∈ gap, Text.isBlank c = true) ∧
      (∀ c ∈ gap', Text.isBlank c = true) ∧ spaceEnd.Reads (gap ++ '.' :: gap') span.start ∧
      identifier.Accepts span.start [] span.stop ∧ opening.Accepts span.stop [] stop := by
  cases h with
  | andThen hboundary h =>
  cases hboundary
  cases h with
  | andThen hspace h =>
  cases hspace with
  | named hspace =>
  cases h with
  | andThen hgap h =>
  cases hgap with
  | long hgap hblank =>
  cases h with
  | andThen hdot h =>
  obtain ⟨rfl, hpoint⟩ := hdot.reads_of_word
  cases h with
  | andThen hgap' h =>
  cases hgap' with
  | long hgap' hblank' =>
  cases h with
  | andThen hname h =>
  cases hname with
  | named hname =>
  have hopening := h.of_all_singleton
  obtain ⟨rfl, -⟩ := exists_of_accepts_identifier hspace
  obtain ⟨rfl, -⟩ := exists_of_accepts_identifier hname
  obtain ⟨rfl, -⟩ := exists_of_accepts_opening hopening
  exact ⟨_, _, _, _, rfl, hspace, hblank, hblank', hgap.append (hpoint.append hgap'), hname,
    hopening⟩

/-- The name of a called member stands behind another name and a dot. -/
theorem callee_of_accepts_member (h : member.Accepts start captures stop) :
    ∃ space span name gap gap', captures = [("space", space), ("hook", span)] ∧
      Nonempty (Callee span stop) ∧ name ≠ [] ∧ (∀ c ∈ name, isNameChar c = true) ∧
      (∀ c ∈ gap, Text.isBlank c = true) ∧ (∀ c ∈ gap', Text.isBlank c = true) ∧
      start.Reads (name ++ (gap ++ '.' :: gap')) span.start := by
  obtain ⟨spaceEnd, span, gap, gap', hcaptures, hspace, hblank, hblank', hdot, hname, hopening⟩ :=
    exists_of_accepts_member h
  obtain ⟨-, name, hne, hplain, hreads⟩ := exists_of_accepts_identifier hspace
  exact ⟨_, span, name, gap, gap', hcaptures, callee_of_accepts hname hopening, hne, hplain,
    hblank, hblank', hreads.append hdot⟩

/-- A callee is all of the name at its place. -/
theorem Callee.chars_eq {span : Span} (callee : Callee span stop) {name after : List Char}
    {c : Char} (hname : ∀ d ∈ name, isNameChar d = true) (hc : isNameChar c = false)
    (hrest : span.start.rest = name ++ c :: after) : span.chars = name := by
  rw [Span.chars_eq_of_reads callee.reads_name]
  have hmark := isNameChar_eq_false_of_isOpeningChar
    (callee.isOpeningChar_rest callee.mark List.mem_cons_self)
  have hreads : span.start.rest = callee.name ++ callee.mark :: (callee.rest ++ stop.rest) :=
    (callee.reads_name.append callee.reads_rest).rest_eq.trans (by simp)
  refine (eq_of_append_cons_eq (fun d => !isNameChar d) ?_ ?_ ?_ ?_ (hreads.symm.trans hrest)).1
  · intro d hd
    rw [callee.isNameChar_name d hd]
    rfl
  · intro d hd
    rw [hname d hd]
    rfl
  · rw [hmark]
    rfl
  · rw [hc]
    rfl

/-! ## What opens a call -/

theorem exists_cons_of_opensCall {after : List Char} (h : OpensCall after) :
    ∃ c rest, after = c :: rest ∧ isOpeningChar c = true := by
  have hblank : ∀ c, Text.isBlank c = true → isOpeningChar c = true :=
    Text.forall_isBlank (by decide)
  obtain ⟨first, mark, second, rest, rfl, hfirst, hmark, hsecond⟩ := h
  cases first with
  | cons c first => exact ⟨c, _, rfl, hblank c (hfirst c List.mem_cons_self)⟩
  | nil =>
      rcases hmark with rfl | rfl
      · cases second with
        | cons c second => exact ⟨c, _, rfl, hblank c (hsecond c List.mem_cons_self)⟩
        | nil => exact ⟨'(', _, rfl, rfl⟩
      · exact ⟨'?', _, rfl, rfl⟩

theorem opensCall_of_accepts (h : opening.Accepts start captures stop) : OpensCall start.rest := by
  cases h with
  | andThen hfirst h =>
  cases hfirst with
  | @long _ _ _ first hfirst hblank =>
  cases h with
  | andThen hmark h =>
  obtain ⟨-, hparen⟩ := h.of_all_singleton.reads_of_word
  cases hmark with
  | orElseFirst hmark =>
      cases hmark with
      | andThen hmark hsecond =>
      obtain ⟨-, hmark⟩ := hmark.reads_of_word
      cases hsecond with
      | @long _ _ _ second hsecond hblank' =>
      refine ⟨first, "?.".toList, second, stop.rest, ?_, hblank, .inr rfl, hblank'⟩
      rw [hfirst.rest_eq, hmark.rest_eq, hsecond.rest_eq, hparen.rest_eq]
      rfl
  | orElseSecond hmark =>
      cases hmark
      refine ⟨first, [], [], stop.rest, ?_, hblank, .inl rfl, List.forall_mem_nil _⟩
      rw [hfirst.rest_eq, hparen.rest_eq]
      rfl

theorem exists_accepts_opening {after : List Char} (before : List Char) (h : OpensCall after) :
    ∃ captures stop, opening.Accepts (between before after) captures stop := by
  obtain ⟨first, mark, second, rest, rfl, hfirst, hmark, hsecond⟩ := h
  have hlead := Cursor.reads_between before first (mark ++ (second ++ '(' :: rest))
  have hword := Cursor.reads_between (before ++ first) mark (second ++ '(' :: rest)
  have hgap := Cursor.reads_between ((before ++ first) ++ mark) second ('(' :: rest)
  have hparen := Cursor.reads_between (((before ++ first) ++ mark) ++ second) "(".toList rest
  have hclose := Accepts.andThen (Accepts.word_of_reads hparen) .empty
  rcases hmark with rfl | rfl
  · -- without a mark the blanks before the parenthesis are one run
    have hblank : ∀ c ∈ first ++ ([] ++ second), Text.isBlank c = true := by
      intro c hc
      exact (List.mem_append.mp hc).elim (hfirst c) (hsecond c)
    exact ⟨_, _, .andThen (.long (hlead.append (hword.append hgap)) hblank)
      (.andThen (.orElseSecond .empty) hclose)⟩
  · exact ⟨_, _, .andThen (.long hlead hfirst) (.andThen
      (.orElseFirst (.andThen (.word_of_reads hword) (.long hgap hsecond))) hclose)⟩

end HookCall

end LayerLint.Source
