import LayerLint.Glob.Set
import LayerLint.Proofs.Pattern.Search
import Mathlib.Data.List.Forall2

/-! # What globs match

A glob is cut into pieces in one way, from the left, and it matches the texts that are put together
from parts, one for each piece. How the wildcards share a text between them is left open: any way of
doing it will do.
-/

namespace LayerLint.Glob

open Text (Cursor)

/-- The parts of a text that a piece can stand for. -/
inductive Piece.Covers : Piece → List Char → Prop where
  | nowhere : Covers .directories []
  | directories {path : List Char} (hline : '\n' ∉ path) : Covers .directories (path ++ ['/'])
  | anything {run : List Char} (hline : '\n' ∉ run) : Covers .anything run
  | segment {run : List Char} (hslash : '/' ∉ run) : Covers .segment run
  | single {c : Char} (hslash : c ≠ '/') : Covers .single [c]
  | literal (c : Char) : Covers (.literal c) [c]

/-- The pieces that a written glob is cut into, from the left. -/
inductive Cuts : List Char → Glob → Prop where
  | nil : Cuts [] []
  | directories {rest : List Char} {glob : Glob} (h : Cuts rest glob) :
      Cuts ('*' :: '*' :: '/' :: rest) (.directories :: glob)
  | anything {rest : List Char} {glob : Glob} (hslash : rest.head? ≠ some '/')
      (h : Cuts rest glob) : Cuts ('*' :: '*' :: rest) (.anything :: glob)
  | segment {rest : List Char} {glob : Glob} (hstar : rest.head? ≠ some '*')
      (h : Cuts rest glob) : Cuts ('*' :: rest) (.segment :: glob)
  | single {rest : List Char} {glob : Glob} (h : Cuts rest glob) :
      Cuts ('?' :: rest) (.single :: glob)
  | literal {c : Char} {rest : List Char} {glob : Glob} (hstar : c ≠ '*') (hmark : c ≠ '?')
      (h : Cuts rest glob) : Cuts (c :: rest) (.literal c :: glob)

/-- The text is put together from parts, one for each piece of the written glob. -/
def Fits (written text : List Char) : Prop :=
  ∃ pieces parts, Cuts written pieces ∧ List.Forall₂ Piece.Covers pieces parts ∧
    text = parts.flatten

variable {written text : List Char} {glob : Glob} {piece : Piece}
variable {start stop : Cursor} {captures : Pattern.Captures}

/-! ## Cutting -/

theorem cuts_ofChars (written : List Char) : Cuts written (ofChars written) := by
  fun_induction ofChars written with
  | case1 rest ih => exact .directories ih
  | case2 rest hslash ih =>
      refine .anything ?_ ih
      intro hhead
      obtain ⟨tail, rfl⟩ := List.head?_eq_some_iff.mp hhead
      exact hslash tail rfl
  | case3 rest hdirectories hstar ih =>
      refine .segment ?_ ih
      intro hhead
      obtain ⟨tail, rfl⟩ := List.head?_eq_some_iff.mp hhead
      exact hstar tail rfl
  | case4 rest ih => exact .single ih
  | case5 c rest hdirectories hanything hstar hmark ih => exact .literal hstar hmark ih
  | case6 => exact .nil

theorem Cuts.eq_ofChars (h : Cuts written glob) : glob = ofChars written := by
  induction h with
  | nil => rfl
  | directories h ih => rw [ofChars, ih]
  | anything hslash h ih =>
      rw [ofChars, ih]
      rintro tail rfl
      exact hslash rfl
  | segment hstar h ih =>
      rw [ofChars, ih]
      · rintro tail rfl
        exact hstar rfl
      · rintro tail rfl
        exact hstar rfl
  | single h ih => rw [ofChars, ih]
  | literal hstar hmark h ih =>
      rw [ofChars, ih]
      · intro tail hc
        exact (hstar hc).elim
      · intro tail hc
        exact (hstar hc).elim
      · exact hstar
      · exact hmark

/-- A written glob is cut in one way. -/
theorem existsUnique_cuts (written : List Char) : ∃! pieces, Cuts written pieces :=
  ⟨ofChars written, cuts_ofChars written, fun _ => Cuts.eq_ofChars⟩

/-! ## Matching -/

theorem not_mem_iff_all (run : List Char) (other : Char) :
    other ∉ run ↔ ∀ c ∈ run, (c != other) = true := by
  simp only [bne_iff_ne]
  exact List.forall_mem_ne'.symm

theorem Piece.covers_of_accepts (h : piece.pattern.Accepts start captures stop) :
    captures = [] ∧ ∃ run, start.Reads run stop ∧ piece.Covers run := by
  cases piece with
  | directories =>
      cases h with
      | orElseFirst h =>
          cases h with
          | andThen hpath hslash =>
              cases hpath with
              | long hreads hok =>
                  cases hslash with
                  | one hslash hc =>
                      obtain rfl := eq_of_beq hc
                      exact ⟨rfl, _, hreads.append hslash,
                        .directories ((not_mem_iff_all _ _).mpr hok)⟩
      | orElseSecond h =>
          cases h with
          | empty => exact ⟨rfl, [], .refl _, .nowhere⟩
  | anything =>
      cases h with
      | long hreads hok => exact ⟨rfl, _, hreads, .anything ((not_mem_iff_all _ _).mpr hok)⟩
  | segment =>
      cases h with
      | long hreads hok => exact ⟨rfl, _, hreads, .segment ((not_mem_iff_all _ _).mpr hok)⟩
  | single =>
      cases h with
      | one hreads hok => exact ⟨rfl, _, hreads, .single (bne_iff_ne.mp hok)⟩
  | literal c =>
      cases h with
      | one hreads hok =>
          obtain rfl := eq_of_beq hok
          exact ⟨rfl, _, hreads, .literal _⟩

theorem Piece.accepts_of_covers {run : List Char} (h : piece.Covers run)
    (hreads : start.Reads run stop) : piece.pattern.Accepts start [] stop := by
  cases h with
  | nowhere =>
      rw [hreads.eq_of_nil]
      exact .orElseSecond .empty
  | directories hline =>
      obtain ⟨middle, hpath, hslash⟩ := hreads.of_append
      exact .orElseFirst (.andThen (.long hpath ((not_mem_iff_all _ _).mp hline))
        (.one hslash rfl))
  | anything hline => exact .long hreads ((not_mem_iff_all _ _).mp hline)
  | segment hslash => exact .long hreads ((not_mem_iff_all _ _).mp hslash)
  | single hslash => exact .one hreads (bne_iff_ne.mpr hslash)
  | literal c => exact .one hreads (beq_self_eq_true c)

/-- The parts follow one another as the pieces do. -/
theorem accepts_iff : glob.pattern.Accepts start captures stop ↔
    captures = [] ∧ ∃ parts, List.Forall₂ Piece.Covers glob parts ∧
      start.Reads parts.flatten stop := by
  induction glob generalizing start captures with
  | nil =>
      constructor
      · intro h
        cases h
        exact ⟨rfl, [], .nil, .refl _⟩
      · rintro ⟨rfl, parts, hparts, hreads⟩
        cases hparts
        rw [hreads.eq_of_nil]
        exact .empty
  | cons piece rest ih =>
      constructor
      · intro h
        cases h with
        | andThen hpiece hrest =>
            obtain ⟨rfl, run, hrun, hcovers⟩ := Piece.covers_of_accepts hpiece
            obtain ⟨rfl, parts, hparts, hreads⟩ := ih.mp hrest
            exact ⟨rfl, run :: parts, .cons hcovers hparts, hrun.append hreads⟩
      · rintro ⟨rfl, parts, hparts, hreads⟩
        cases hparts with
        | cons hcovers hparts =>
            obtain ⟨middle, hrun, hrest⟩ := hreads.of_append
            exact .andThen (Piece.accepts_of_covers hcovers hrun) (ih.mpr ⟨rfl, _, hparts, hrest⟩)

theorem isMatch_ofString_iff (written text : String) :
    (ofString written).isMatch text = true ↔ Fits written.toList text.toList := by
  rw [isMatch, Pattern.describes_iff]
  constructor
  · rintro ⟨captures, stop, haccepts, hend⟩
    obtain ⟨-, parts, hparts, hreads⟩ := accepts_iff.mp haccepts
    refine ⟨ofString written, parts, cuts_ofChars _, hparts, ?_⟩
    have hrest := hreads.rest_eq
    rwa [hend, List.append_nil] at hrest
  · rintro ⟨pieces, parts, hcuts, hparts, htext⟩
    obtain rfl := hcuts.eq_ofChars
    refine ⟨[], ⟨parts.flatten.getLast?.or none, Text.byteSize parts.flatten, []⟩,
      accepts_iff.mpr ⟨rfl, parts, hparts, ?_⟩, rfl⟩
    exact ⟨by simpa [Cursor.start] using htext, by simp [Cursor.start], rfl⟩

theorem ofString?_eq_some_iff {written : String} {glob : Glob} :
    ofString? written = some glob ↔ ofString written = glob ∧ glob.isAccepted = true := by
  rw [ofString?, Option.filter_eq_some_iff, Option.some.injEq]

/-- A glob that is not too large matches the texts that are put together from parts, one for each of
the pieces that it is cut into, and it is cut in one way. A set of globs matches what one of them
does, once backslashes are turned into slashes. -/
theorem isMatch_iff_fits :
    (∀ (written : String) (glob : Glob), ofString? written = some glob →
      ∀ text : String, glob.isMatch text = true ↔ Fits written.toList text.toList) ∧
    (∀ written : List Char, ∃! pieces, Cuts written pieces) ∧
    ∀ (globs : List String) (text : String),
      (GlobSet.ofList globs).isMatch text = true ↔
        ∃ written ∈ globs, (ofString? written).isSome = true ∧
          Fits written.toList (text.toList.map fun c => if c = '\\' then '/' else c) := by
  refine ⟨?_, existsUnique_cuts, ?_⟩
  · intro written glob hglob text
    obtain ⟨rfl, -⟩ := ofString?_eq_some_iff.mp hglob
    exact isMatch_ofString_iff written text
  · intro globs text
    have hposix : (Path.toPosix text).toList =
        text.toList.map fun c => if c = '\\' then '/' else c := by
      rw [Path.toPosix, String.toList_map]
    rw [GlobSet.isMatch, GlobSet.ofList, List.any_eq_true, ← hposix]
    constructor
    · rintro ⟨glob, hglob, hmatch⟩
      obtain ⟨written, hwritten, hglob⟩ := List.mem_filterMap.mp hglob
      obtain ⟨rfl, -⟩ := ofString?_eq_some_iff.mp hglob
      exact ⟨written, hwritten, Option.isSome_of_eq_some hglob,
        (isMatch_ofString_iff _ _).mp hmatch⟩
    · rintro ⟨written, hwritten, haccepted, hfits⟩
      obtain ⟨glob, hglob⟩ := Option.isSome_iff_exists.mp haccepted
      refine ⟨glob, List.mem_filterMap.mpr ⟨written, hwritten, hglob⟩, ?_⟩
      obtain ⟨rfl, -⟩ := ofString?_eq_some_iff.mp hglob
      exact (isMatch_ofString_iff _ _).mpr hfits

/-- Directories are matched whole, with none of them too; what means something in other patterns
means itself. -/
theorem isMatch_iff_fits_of_samples :
    (ofString? "**/*.type.ts").isSome = true ∧
      Fits "**/*.type.ts".toList "src/cart/cart.type.ts".toList ∧
      Fits "**/*.type.ts".toList "cart.type.ts".toList ∧
      ¬ Fits "**/*.type.ts".toList "cartXtypeXts".toList := by
  have hglob : ofString? "**/*.type.ts" = some (ofString "**/*.type.ts") := by decide +kernel
  have hfits := isMatch_iff_fits.1 _ _ hglob
  refine ⟨Option.isSome_of_eq_some hglob, ?_, ?_, ?_⟩
  · exact (hfits "src/cart/cart.type.ts").mp (by decide +kernel)
  · exact (hfits "cart.type.ts").mp (by decide +kernel)
  · exact mt (hfits "cartXtypeXts").mpr (by decide +kernel)

end LayerLint.Glob
