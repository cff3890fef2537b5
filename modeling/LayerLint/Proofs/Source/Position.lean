import LayerLint.Proofs.Source.Region
import LayerLint.Proofs.Text.Bytes
import Mathlib.Data.List.Forall2

/-! # Positions in a masked text

Masking changes bytes into spaces and nothing else, and leaves line breaks alone. So an offset into
the masked text is one into the source, on the same line, and in the same column as long as the
line is ASCII up to there; a character that is blanked takes more columns if it has more bytes.
-/

namespace LayerLint.Source

open Text (bytes encode lineEnd lineBefore byteSize)

/-- What a masked text may have in place of a byte of the source. -/
structure KeepsByte (source masked : UInt8) : Prop where
  eq_or_space : masked = source ∨ masked = 0x20
  lineFeed_iff : masked = 0x0A ↔ source = 0x0A
  carriageReturn_iff : masked = 0x0D ↔ source = 0x0D

theorem KeepsByte.refl (byte : UInt8) : KeepsByte byte byte := ⟨.inl rfl, .rfl, .rfl⟩

theorem KeepsByte.space {byte : UInt8} (hfeed : byte ≠ 0x0A) (hreturn : byte ≠ 0x0D) :
    KeepsByte byte 0x20 :=
  ⟨.inr rfl, ⟨fun h => absurd h (by decide), fun h => (hfeed h).elim⟩,
    ⟨fun h => absurd h (by decide), fun h => (hreturn h).elim⟩⟩

theorem forall₂_keepsByte_spaces {source : List UInt8}
    (h : ∀ byte ∈ source, byte ≠ 0x0A ∧ byte ≠ 0x0D) :
    List.Forall₂ KeepsByte source (List.replicate source.length 0x20) := by
  induction source with
  | nil => exact .nil
  | cons byte rest ih =>
      obtain ⟨⟨hfeed, hreturn⟩, hrest⟩ := List.forall_mem_cons.mp h
      exact .cons (.space hfeed hreturn) (ih hrest)

theorem forall₂_keepsByte_refl (source : List UInt8) : List.Forall₂ KeepsByte source source :=
  List.forall₂_same.mpr fun byte _ => KeepsByte.refl byte

theorem forall₂_keepsByte_blank (c : Char) :
    List.Forall₂ KeepsByte (String.utf8EncodeChar c) (encode (blank c)) := by
  have hspaces (n : Nat) : encode (List.replicate n ' ') = List.replicate n 0x20 := by
    induction n with
    | zero => rfl
    | succ n ih => rw [List.replicate_succ, Text.encode_cons, ih]; rfl
  unfold blank
  split
  next => simpa using forall₂_keepsByte_refl _
  next hbreak =>
    rw [not_or] at hbreak
    rw [hspaces, ← String.length_utf8EncodeChar]
    apply forall₂_keepsByte_spaces
    intro byte hbyte
    constructor
    · rintro rfl
      exact hbreak.1 (Text.eq_of_mem_utf8EncodeChar (d := '\n') (by decide) hbyte)
    · rintro rfl
      exact hbreak.2 (Text.eq_of_mem_utf8EncodeChar (d := '\r') (by decide) hbyte)

/-- Masking goes byte by byte. -/
theorem forall₂_keepsByte_maskFrom (region : Region) (text : List Char) :
    List.Forall₂ KeepsByte (encode text) (encode (maskFrom region text)) := by
  induction text generalizing region with
  | nil => exact .nil
  | cons c rest ih =>
      rw [maskFrom, Text.encode_cons, Text.encode_append]
      apply List.rel_append _ (ih _)
      split
      next => simpa using forall₂_keepsByte_refl _
      next => exact forall₂_keepsByte_blank c

theorem forall₂_keepsByte_mask (source : String) :
    List.Forall₂ KeepsByte (bytes source) (bytes (mask source)) := by
  rw [mask, maskChars, Text.bytes_ofList, Text.bytes_eq_encode]
  exact forall₂_keepsByte_maskFrom _ _

section

variable {source masked : List UInt8}

theorem count_eq_of_forall₂ (h : List.Forall₂ KeepsByte source masked) :
    masked.count 0x0A = source.count 0x0A := by
  induction h with
  | nil => rfl
  | cons hbyte hrest ih =>
      rw [List.count_cons, List.count_cons, ih]
      simp [hbyte.lineFeed_iff]

theorem forall₂_takeWhile (h : List.Forall₂ KeepsByte source masked) :
    List.Forall₂ KeepsByte (source.takeWhile (· != 0x0A)) (masked.takeWhile (· != 0x0A)) := by
  induction h with
  | nil => exact .nil
  | @cons byte kept rest more hbyte hrest ih =>
      rw [List.takeWhile_cons, List.takeWhile_cons]
      by_cases hfeed : byte = 0x0A
      · simp [hfeed, hbyte.lineFeed_iff.mpr hfeed]
      · have hkept : kept ≠ 0x0A := mt hbyte.lineFeed_iff.mp hfeed
        simp only [bne_iff_ne.mpr hfeed, bne_iff_ne.mpr hkept, if_true]
        exact .cons hbyte ih

theorem forall_ascii_of_forall₂ (h : List.Forall₂ KeepsByte source masked)
    (hascii : ∀ byte ∈ source, byte < 0x80) : ∀ byte ∈ masked, byte < 0x80 := by
  induction h with
  | nil => simp
  | cons hbyte hrest ih =>
      obtain ⟨hfirst, hothers⟩ := List.forall_mem_cons.mp hascii
      refine List.forall_mem_cons.mpr ⟨?_, ih hothers⟩
      rcases hbyte.eq_or_space with rfl | rfl
      · exact hfirst
      · decide

theorem getElem?_of_forall₂ (h : List.Forall₂ KeepsByte source masked) (index : Nat) :
    (source[index]? = none ∧ masked[index]? = none) ∨
      ∃ byte kept, source[index]? = some byte ∧ masked[index]? = some kept ∧
        KeepsByte byte kept := by
  induction h generalizing index with
  | nil => exact .inl ⟨rfl, rfl⟩
  | cons hbyte hrest ih =>
      cases index with
      | zero => exact .inr ⟨_, _, rfl, rfl, hbyte⟩
      | succ index => exact ih index

end

theorem forall₂_lineBefore (source : String) (offset : Nat) :
    List.Forall₂ KeepsByte (lineBefore source offset) (lineBefore (mask source) offset) := by
  apply forall₂_takeWhile
  rw [List.forall₂_reverse_iff]
  exact List.forall₂_take offset (forall₂_keepsByte_mask source)

/-- The end of each beginning of the source is a boundary of the masked text. -/
theorem isValid_mask {source : String} {place : String.Pos.Raw} (h : place.IsValid source) :
    place.IsValid (mask source) := by
  obtain ⟨first, second, rfl, rfl⟩ := String.Pos.Raw.isValid_iff_exists_append.mp h
  rw [String.Pos.Raw.isValid_iff_exists_append, mask, maskChars, String.toList_append,
    maskFrom_append, String.ofList_append]
  refine ⟨_, _, rfl, ?_⟩
  rw [Text.rawEndPos_ofList, byteSize_maskUntil, ← Text.rawEndPos_ofList, String.ofList_toList]

/-- A masked text has as many bytes as its source, each of them the source's or a space, and its
line breaks at the same bytes. Boundaries of the source are boundaries of the masked text. An offset
is on the same line of both, and in the same column if the source is ASCII on that line up to it. -/
theorem mask_keeps_positions (source : String) :
    (bytes (mask source)).length = (bytes source).length ∧
      (∀ index : Nat, (bytes (mask source))[index]? = (bytes source)[index]? ∨
        (bytes (mask source))[index]? = some 0x20) ∧
      (∀ index : Nat, (bytes (mask source))[index]? = some 0x0A ↔ (bytes source)[index]? = some 0x0A) ∧
      (∀ index : Nat, (bytes (mask source))[index]? = some 0x0D ↔ (bytes source)[index]? = some 0x0D) ∧
      (∀ place : String.Pos.Raw, place.IsValid source → place.IsValid (mask source)) ∧
      ∀ offset,
        (Text.Position.ofOffset (mask source).toList offset).line =
            (Text.Position.ofOffset source.toList offset).line ∧
          ((∀ byte ∈ lineBefore source offset, byte < 0x80) →
            (Text.Position.ofOffset (mask source).toList offset).column =
              (Text.Position.ofOffset source.toList offset).column) := by
  have hkeeps := forall₂_keepsByte_mask source
  refine ⟨hkeeps.length_eq.symm, ?_, ?_, ?_, fun place => isValid_mask, ?_⟩
  · intro index
    rcases getElem?_of_forall₂ hkeeps index with ⟨hnone, hnone'⟩ | ⟨byte, kept, hat, hat', hbyte⟩
    · exact .inl (hnone'.trans hnone.symm)
    · rw [hat, hat']
      exact hbyte.eq_or_space.imp (congrArg some) (congrArg some)
  · intro index
    rcases getElem?_of_forall₂ hkeeps index with ⟨hnone, hnone'⟩ | ⟨byte, kept, hat, hat', hbyte⟩
    · rw [hnone, hnone']
    · rw [hat, hat', Option.some.injEq, Option.some.injEq]
      exact hbyte.lineFeed_iff
  · intro index
    rcases getElem?_of_forall₂ hkeeps index with ⟨hnone, hnone'⟩ | ⟨byte, kept, hat, hat', hbyte⟩
    · rw [hnone, hnone']
    · rw [hat, hat', Option.some.injEq, Option.some.injEq]
      exact hbyte.carriageReturn_iff
  · intro offset
    constructor
    · rw [Text.Position.line_ofOffset, Text.Position.line_ofOffset,
        count_eq_of_forall₂ (List.forall₂_take offset hkeeps)]
    · intro hascii
      have hline := forall₂_lineBefore source offset
      rw [Text.Position.column_ofOffset hascii,
        Text.Position.column_ofOffset (forall_ascii_of_forall₂ hline hascii), hline.length_eq]

/-- What stands before an offset on other lines need not be ASCII. -/
theorem mask_keeps_positions_of_second_line :
    (∀ byte ∈ lineBefore "/*é*/\nf(\"é\")" 9, byte < 0x80) ∧
      (Text.Position.ofOffset (mask "/*é*/\nf(\"é\")").toList 9).column =
        (Text.Position.ofOffset "/*é*/\nf(\"é\")".toList 9).column := by
  have hascii : ∀ byte ∈ lineBefore "/*é*/\nf(\"é\")" 9, byte < 0x80 := by decide +kernel
  exact ⟨hascii, ((mask_keeps_positions "/*é*/\nf(\"é\")").2.2.2.2.2 9).2 hascii⟩

-- a character of two bytes becomes two spaces, so the columns after it move apart
example : (Text.Position.ofOffset (mask "/*é*/f").toList 6).column = 7 ∧
    (Text.Position.ofOffset "/*é*/f".toList 6).column = 6 := by decide +kernel

end LayerLint.Source
