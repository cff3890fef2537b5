import LayerLint.Pattern.Outcomes
import LayerLint.Proofs.Text.Reading

/-! # What a pattern describes

The language of a pattern is given by rules, one for each shape, without any order between the
ways in which a pattern can match. A piece of text is taken with its place, because word boundaries
look at the characters around it, and with the pieces that are remembered inside it.
-/

namespace LayerLint.Pattern

open Text (Cursor Span)

/-- The pattern describes the text between two places, and these pieces of it are remembered. -/
inductive Accepts : Pattern → Cursor → Captures → Cursor → Prop where
  | empty {place : Cursor} : Accepts .empty place [] place
  | one {ok : Char → Bool} {start stop : Cursor} {c : Char} (hreads : start.Reads [c] stop)
      (hok : ok c = true) : Accepts (.one ok) start [] stop
  | long {ok : Char → Bool} {start stop : Cursor} {run : List Char}
      (hreads : start.Reads run stop) (hok : ∀ c ∈ run, ok c = true) :
      Accepts (.long ok) start [] stop
  | short {ok : Char → Bool} {start stop : Cursor} {run : List Char}
      (hreads : start.Reads run stop) (hok : ∀ c ∈ run, ok c = true) :
      Accepts (.short ok) start [] stop
  | boundary {place : Cursor} (h : place.isAtWordBoundary = true) :
      Accepts .boundary place [] place
  | finish {place : Cursor} (h : place.isAtEnd = true) : Accepts .finish place [] place
  | andThen {first second : Pattern} {start middle stop : Cursor} {captures more : Captures}
      (hfirst : first.Accepts start captures middle) (hsecond : second.Accepts middle more stop) :
      Accepts (.andThen first second) start (captures ++ more) stop
  | orElseFirst {first second : Pattern} {start stop : Cursor} {captures : Captures}
      (h : first.Accepts start captures stop) : Accepts (.orElse first second) start captures stop
  | orElseSecond {first second : Pattern} {start stop : Cursor} {captures : Captures}
      (h : second.Accepts start captures stop) :
      Accepts (.orElse first second) start captures stop
  | named {name : String} {body : Pattern} {start stop : Cursor} {captures : Captures}
      (h : body.Accepts start captures stop) :
      Accepts (.named name body) start ((name, ⟨start, stop⟩) :: captures) stop

variable {pattern : Pattern} {start middle stop : Cursor} {captures : Captures}

namespace Accepts

theorem of_all_append {first second : List Pattern}
    (h : (all (first ++ second)).Accepts start captures stop) :
    ∃ middle before after, (all first).Accepts start before middle ∧
      (all second).Accepts middle after stop ∧ captures = before ++ after := by
  induction first generalizing start captures with
  | nil => exact ⟨start, [], captures, .empty, h, rfl⟩
  | cons pattern rest ih =>
      cases h with
      | andThen hpattern hrest =>
          obtain ⟨middle, before, after, hbefore, hafter, rfl⟩ := ih hrest
          exact ⟨middle, _, after, .andThen hpattern hbefore, hafter, (List.append_assoc ..).symm⟩

theorem all_append {first second : List Pattern} {before after : Captures}
    (hfirst : (all first).Accepts start before middle)
    (hsecond : (all second).Accepts middle after stop) :
    (all (first ++ second)).Accepts start (before ++ after) stop := by
  induction first generalizing start before with
  | nil =>
      cases hfirst
      exact hsecond
  | cons pattern rest ih =>
      cases hfirst with
      | andThen hpattern hrest =>
          rw [List.append_assoc]
          exact .andThen hpattern (ih hrest)

theorem of_all_singleton (h : (all [pattern]).Accepts start captures stop) :
    pattern.Accepts start captures stop := by
  cases h with
  | andThen hpattern hempty =>
      cases hempty
      rwa [List.append_nil]

theorem reads_of_word {text : String} (h : (word text).Accepts start captures stop) :
    captures = [] ∧ start.Reads text.toList stop := by
  unfold word at h
  generalize text.toList = chars at h ⊢
  induction chars generalizing start captures with
  | nil =>
      cases h
      exact ⟨rfl, .refl _⟩
  | cons c rest ih =>
      cases h with
      | andThen hfirst hrest =>
          cases hfirst with
          | one hreads hok =>
              obtain ⟨rfl, hmore⟩ := ih hrest
              have heq := eq_of_beq hok
              subst heq
              exact ⟨rfl, hreads.append hmore⟩

theorem word_of_reads {text : String} (h : start.Reads text.toList stop) :
    (word text).Accepts start [] stop := by
  unfold word
  generalize text.toList = chars at h ⊢
  induction chars generalizing start with
  | nil =>
      obtain rfl := h.eq_of_nil
      exact .empty
  | cons c rest ih =>
      have hfirst : (Pattern.one (· == c)).Accepts start [] (start.past c (rest ++ stop.rest)) :=
        .one (.past h.rest_eq) (beq_self_eq_true c)
      exact .andThen hfirst (ih h.tail)

end Accepts

/-- A pattern that remembers nothing and describes only characters of a class. -/
def StaysIn (ok : Char → Bool) : Pattern → Prop
  | empty | boundary | finish => True
  | one class' | long class' | short class' => ∀ c, class' c = true → ok c = true
  | andThen first second | orElse first second => first.StaysIn ok ∧ second.StaysIn ok
  | named _ _ => False

theorem Accepts.reads_of_staysIn {ok : Char → Bool} (h : pattern.Accepts start captures stop)
    (hstays : pattern.StaysIn ok) :
    captures = [] ∧ ∃ piece, start.Reads piece stop ∧ ∀ c ∈ piece, ok c = true := by
  induction h with
  | empty | boundary h | finish h => exact ⟨rfl, [], .refl _, by simp⟩
  | one hreads hok => exact ⟨rfl, _, hreads, by simpa using hstays _ hok⟩
  | long hreads hok | short hreads hok => exact ⟨rfl, _, hreads, fun c hc => hstays c (hok c hc)⟩
  | andThen hfirst hsecond ihfirst ihsecond =>
      obtain ⟨rfl, first, hfirst, hokfirst⟩ := ihfirst hstays.1
      obtain ⟨rfl, second, hsecond, hoksecond⟩ := ihsecond hstays.2
      refine ⟨rfl, first ++ second, hfirst.append hsecond, ?_⟩
      intro c hc
      exact (List.mem_append.mp hc).elim (hokfirst c) (hoksecond c)
  | orElseFirst h ih => exact ih hstays.1
  | orElseSecond h ih => exact ih hstays.2
  | named h ih => exact hstays.elim

theorem Accepts.exists_reads (h : pattern.Accepts start captures stop) :
    ∃ piece, start.Reads piece stop := by
  induction h with
  | empty | boundary | finish => exact ⟨[], .refl _⟩
  | one hreads | long hreads | short hreads => exact ⟨_, hreads⟩
  | andThen hfirst hsecond ihfirst ihsecond =>
      obtain ⟨first, hfirst⟩ := ihfirst
      obtain ⟨second, hsecond⟩ := ihsecond
      exact ⟨first ++ second, hfirst.append hsecond⟩
  | orElseFirst h ih | orElseSecond h ih | named h ih => exact ih

/-- A pattern that describes only texts without blanks, and not the empty one. -/
def Solid (pattern : Pattern) : Prop :=
  ∀ {start captures stop}, pattern.Accepts start captures stop →
    ∃ c piece, start.Reads (c :: piece) stop ∧ ∀ d ∈ c :: piece, Text.isBlank d = false

theorem solid_of_one_long {first rest : Char → Bool}
    (hfirst : ∀ c, Text.isBlank c = true → first c = false)
    (hrest : ∀ c, Text.isBlank c = true → rest c = false) :
    Solid (.andThen (.one first) (.long rest)) := by
  have hnot {ok : Char → Bool} (hok : ∀ c, Text.isBlank c = true → ok c = false) {c : Char}
      (hc : ok c = true) : Text.isBlank c = false := by
    rw [Bool.eq_false_iff]
    intro hblank
    rw [hok c hblank] at hc
    cases hc
  intro start captures stop h
  cases h with
  | andThen hone hlong =>
      cases hone with
      | one hreads hok =>
          cases hlong with
          | long hmore hrun =>
              refine ⟨_, _, hreads.append hmore, List.forall_mem_cons.mpr ⟨hnot hfirst hok, ?_⟩⟩
              exact fun d hd => hnot hrest (hrun d hd)

/-- Every pattern whose piece is remembered under the name has a property. -/
def Remembers (name : String) (property : Pattern → Prop) : Pattern → Prop
  | empty | one _ | long _ | short _ | boundary | finish => True
  | andThen first second | orElse first second =>
      first.Remembers name property ∧ second.Remembers name property
  | named other body => (other = name → property body) ∧ body.Remembers name property

theorem Accepts.exists_body {name : String} {property : Pattern → Prop} {span : Span}
    (h : pattern.Accepts start captures stop) (hremembers : pattern.Remembers name property)
    (hmem : (name, span) ∈ captures) :
    ∃ body inner, property body ∧ body.Accepts span.start inner span.stop := by
  induction h with
  | empty | one | long | short | boundary | finish => cases hmem
  | andThen hfirst hsecond ihfirst ihsecond =>
      exact (List.mem_append.mp hmem).elim (ihfirst hremembers.1) (ihsecond hremembers.2)
  | orElseFirst h ih => exact ih hremembers.1 hmem
  | orElseSecond h ih => exact ih hremembers.2 hmem
  | named h ih =>
      rcases List.mem_cons.mp hmem with heq | hmem
      · obtain ⟨rfl, rfl⟩ := Prod.mk.inj heq
        exact ⟨_, _, hremembers.1 rfl, h⟩
      · exact ih hremembers.2 hmem

theorem remembers_true (name : String) (pattern : Pattern) :
    pattern.Remembers name fun _ => True := by
  induction pattern with
  | empty | one | long | short | boundary | finish => trivial
  | andThen first second ihfirst ihsecond | orElse first second ihfirst ihsecond =>
      exact ⟨ihfirst, ihsecond⟩
  | named other body ih => exact ⟨fun _ => trivial, ih⟩

theorem remembers_all {name : String} {property : Pattern → Prop} {patterns : List Pattern}
    (h : ∀ pattern ∈ patterns, pattern.Remembers name property) :
    (all patterns).Remembers name property := by
  induction patterns with
  | nil => trivial
  | cons pattern rest ih =>
      exact ⟨h pattern List.mem_cons_self,
        ih fun next hnext => h next (List.mem_cons_of_mem _ hnext)⟩

theorem remembers_word {name : String} {property : Pattern → Prop} (text : String) :
    (word text).Remembers name property := by
  apply remembers_all
  intro pattern hpattern
  obtain ⟨c, -, rfl⟩ := List.mem_map.mp hpattern
  trivial

theorem mem_of_lookup_eq_some {name : String} {span : Span} (h : captures.lookup name = some span) :
    (name, span) ∈ captures := by
  obtain ⟨before, after, rfl, -⟩ := List.lookup_eq_some_iff.mp h
  exact List.mem_append_right _ List.mem_cons_self

theorem staysIn_all {ok : Char → Bool} {patterns : List Pattern}
    (h : ∀ pattern ∈ patterns, pattern.StaysIn ok) : (all patterns).StaysIn ok := by
  induction patterns with
  | nil => trivial
  | cons pattern rest ih =>
      exact ⟨h pattern List.mem_cons_self,
        ih fun next hnext => h next (List.mem_cons_of_mem _ hnext)⟩

theorem staysIn_word {ok : Char → Bool} {text : String} (h : text.toList.all ok = true) :
    (word text).StaysIn ok := by
  apply staysIn_all
  intro pattern hpattern
  obtain ⟨c, hc, rfl⟩ := List.mem_map.mp hpattern
  intro d hd
  rw [eq_of_beq hd]
  exact List.all_eq_true.mp h c hc

end LayerLint.Pattern
