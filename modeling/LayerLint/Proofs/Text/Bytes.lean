import LayerLint.Text.Position
import Mathlib.Data.List.Induction
import Mathlib.Data.List.TakeWhile

/-! # Positions read off bytes

The UTF-8 form of a text has the bytes of its characters one after another. A byte below `0x80` is a
whole character, so line feeds are found among the bytes as well as among the characters, and on a
line of ASCII characters columns count bytes.
-/

namespace LayerLint.Text

/-- The bytes of a text's UTF-8 form. -/
def bytes (text : String) : List UInt8 :=
  text.toByteArray.data.toList

/-- The bytes of the characters of a text. -/
def encode (text : List Char) : List UInt8 :=
  text.flatMap String.utf8EncodeChar

/-- The items behind the last break, the last one first. -/
def lineEnd {α : Type} [BEq α] (lineBreak : α) (items : List α) : List α :=
  items.reverse.takeWhile (· != lineBreak)

/-- The bytes of a text that stand before an offset on the line of that offset, the last one
first. -/
def lineBefore (text : String) (offset : Nat) : List UInt8 :=
  lineEnd 0x0A ((bytes text).take offset)

@[simp] theorem encode_nil : encode [] = [] := rfl

@[simp] theorem encode_cons (c : Char) (text : List Char) :
    encode (c :: text) = String.utf8EncodeChar c ++ encode text := rfl

@[simp] theorem encode_append (first second : List Char) :
    encode (first ++ second) = encode first ++ encode second :=
  List.flatMap_append

theorem bytes_ofList (text : List Char) : bytes (String.ofList text) = encode text := by
  rw [bytes, String.toByteArray_ofList, List.utf8Encode, List.data_toByteArray, encode]

theorem bytes_eq_encode (text : String) : bytes text = encode text.toList := by
  rw [← bytes_ofList, String.ofList_toList]

theorem length_encode (text : List Char) : (encode text).length = byteSize text := by
  induction text with
  | nil => rfl
  | cons c rest ih => rw [encode_cons, List.length_append, ih, String.length_utf8EncodeChar,
      byteSize_cons]

theorem rawEndPos_ofList (text : List Char) : (String.ofList text).rawEndPos = ⟨byteSize text⟩ := by
  rw [String.rawEndPos, ← length_encode, ← bytes_ofList]
  rfl

/-! ## The bytes of one character -/

/-- A character is one byte, its own number, or several bytes from `0x80` on. -/
theorem utf8EncodeChar_cases (c : Char) :
    (c.toNat < 0x80 ∧ String.utf8EncodeChar c = [c.toNat.toUInt8]) ∨
      (0x80 ≤ c.toNat ∧ ∀ byte ∈ String.utf8EncodeChar c, 0x80 ≤ byte) := by
  by_cases h : c.toNat < 0x80
  · left
    refine ⟨h, ?_⟩
    have hle : c.val.toNat ≤ 127 := by
      have : c.toNat = c.val.toNat := rfl
      omega
    simp only [String.utf8EncodeChar, hle, if_true]
    rfl
  · right
    refine ⟨by omega, ?_⟩
    have hlt : ¬ c.val.toNat ≤ 127 := by
      have : c.toNat = c.val.toNat := rfl
      omega
    intro byte hbyte
    simp only [String.utf8EncodeChar, hlt, if_false] at hbyte
    rw [UInt8.le_iff_toNat_le]
    split at hbyte
    next =>
      simp only [List.mem_cons, List.not_mem_nil, or_false] at hbyte
      rcases hbyte with rfl | rfl <;> simp <;> omega
    next =>
      split at hbyte
      next =>
        simp only [List.mem_cons, List.not_mem_nil, or_false] at hbyte
        rcases hbyte with rfl | rfl | rfl <;> simp <;> omega
      next =>
        simp only [List.mem_cons, List.not_mem_nil, or_false] at hbyte
        rcases hbyte with rfl | rfl | rfl | rfl <;> simp <;> omega

theorem utf8EncodeChar_eq_singleton {c : Char} {byte : UInt8} (hbyte : byte < 0x80)
    (h : byte ∈ String.utf8EncodeChar c) : c.toNat = byte.toNat := by
  rcases utf8EncodeChar_cases c with ⟨hsmall, heq⟩ | ⟨-, hlarge⟩
  · rw [heq, List.mem_singleton] at h
    rw [h, Nat.toUInt8_eq, UInt8.toNat_ofNat', Nat.mod_eq_of_lt (by omega)]
  · exact (UInt8.not_le.mpr hbyte (hlarge byte h)).elim

theorem eq_of_mem_utf8EncodeChar {c d : Char} (hd : d.toNat < 0x80)
    (h : d.toNat.toUInt8 ∈ String.utf8EncodeChar c) : c = d := by
  have hbyte : d.toNat.toUInt8.toNat = d.toNat := by
    rw [Nat.toUInt8_eq, UInt8.toNat_ofNat', Nat.mod_eq_of_lt (by omega)]
  have hsmall : d.toNat.toUInt8 < 0x80 := by
    rw [UInt8.lt_iff_toNat_lt, hbyte]
    exact hd
  apply Char.toNat_inj.mp
  rw [utf8EncodeChar_eq_singleton hsmall h, hbyte]

theorem utf8EncodeChar_lineFeed : String.utf8EncodeChar '\n' = [0x0A] := by decide

theorem lineFeed_mem_utf8EncodeChar {c : Char} :
    0x0A ∈ String.utf8EncodeChar c ↔ c = '\n' := by
  constructor
  · intro h
    exact eq_of_mem_utf8EncodeChar (d := '\n') (by decide) h
  · rintro rfl
    decide

theorem count_lineFeed_encode (text : List Char) :
    (encode text).count 0x0A = text.count '\n' := by
  induction text with
  | nil => rfl
  | cons c rest ih =>
      rw [encode_cons, List.count_append, ih, List.count_cons]
      by_cases hc : c = '\n'
      · subst hc
        rw [utf8EncodeChar_lineFeed]
        simp [Nat.add_comm]
      · rw [List.count_eq_zero.mpr (mt lineFeed_mem_utf8EncodeChar.mp hc)]
        simp [hc]

/-! ## The bytes before an offset -/

/-- As many bytes as a number hold the characters that fit into it, and of the next character only
bytes from `0x80` on. -/
theorem exists_take_encode (n : Nat) (text : List Char) :
    ∃ part, (encode text).take n = encode (prefixWithin n text) ++ part ∧
      ∀ byte ∈ part, 0x80 ≤ byte := by
  induction text generalizing n with
  | nil => exact ⟨[], by simp [prefixWithin]⟩
  | cons c rest ih =>
      rw [prefixWithin]
      split
      next hfits =>
        obtain ⟨part, heq, hpart⟩ := ih (n - c.utf8Size)
        refine ⟨part, ?_, hpart⟩
        rw [encode_cons, List.take_append, List.take_of_length_le (by simpa using hfits),
          String.length_utf8EncodeChar, heq, encode_cons, List.append_assoc]
      next hlong =>
        refine ⟨(String.utf8EncodeChar c).take n, ?_, ?_⟩
        · rw [encode_cons, List.take_append_of_le_length (by simp; omega)]
          rfl
        · intro byte hbyte
          rcases utf8EncodeChar_cases c with ⟨-, heq⟩ | ⟨-, hlarge⟩
          · -- a character of one byte fits unless there is no room at all
            have hsize : c.utf8Size = 1 := by rw [← String.length_utf8EncodeChar, heq]; rfl
            obtain rfl : n = 0 := by omega
            simp at hbyte
          · exact hlarge byte (List.mem_of_mem_take hbyte)

/-! ## Lines and columns -/

namespace Position

theorem foldl_advance_start (text : List Char) :
    text.foldl advance start = ⟨text.count '\n' + 1, (lineEnd '\n' text).length + 1⟩ := by
  induction text using List.reverseRecOn with
  | nil => rfl
  | append_singleton text c ih =>
      rw [List.foldl_append, ih, List.foldl_cons, List.foldl_nil, advance]
      by_cases hc : c = '\n'
      · simp [hc, lineEnd]
      · simp [hc, lineEnd]

theorem ofOffset_eq (text : List Char) (offset : Nat) :
    ofOffset text offset = ⟨(prefixWithin offset text).count '\n' + 1,
      (lineEnd '\n' (prefixWithin offset text)).length + 1⟩ := by
  rw [ofOffset, read_eq_foldl, foldl_advance_start]

/-- The line of an offset counts the line feeds among the bytes before it. -/
theorem line_ofOffset (text : String) (offset : Nat) :
    (ofOffset text.toList offset).line = ((bytes text).take offset).count 0x0A + 1 := by
  obtain ⟨part, htake, hpart⟩ := exists_take_encode offset text.toList
  have hnone : part.count 0x0A = 0 := by
    rw [List.count_eq_zero]
    intro hmem
    exact absurd (hpart _ hmem) (by decide)
  rw [ofOffset_eq, bytes_eq_encode, htake, List.count_append, count_lineFeed_encode, hnone]

end Position

theorem length_lineEnd_encode {text : List Char}
    (h : ∀ byte ∈ lineEnd 0x0A (encode text), byte < 0x80) :
    (lineEnd 0x0A (encode text)).length = (lineEnd '\n' text).length := by
  induction text using List.reverseRecOn with
  | nil => rfl
  | append_singleton text c ih =>
      have hencode : encode (text ++ [c]) = encode text ++ String.utf8EncodeChar c := by simp
      rw [hencode, lineEnd, List.reverse_append] at h ⊢
      rw [lineEnd, List.reverse_append, List.reverse_singleton, List.singleton_append,
        List.takeWhile_cons]
      by_cases hc : c = '\n'
      · simp [hc, utf8EncodeChar_lineFeed]
      · have hkept : ∀ byte ∈ (String.utf8EncodeChar c).reverse, (byte != 0x0A) = true := by
          intro byte hbyte
          rw [bne_iff_ne]
          rintro rfl
          exact hc (lineFeed_mem_utf8EncodeChar.mp (List.mem_reverse.mp hbyte))
        rw [List.takeWhile_append_of_pos hkept] at h ⊢
        rcases utf8EncodeChar_cases c with ⟨-, heq⟩ | ⟨-, hlarge⟩
        · have hrest := ih fun byte hbyte => h byte (List.mem_append_right _ hbyte)
          rw [lineEnd, lineEnd] at hrest
          simp [heq, hc, hrest]
        · obtain ⟨byte, hbyte⟩ := List.exists_mem_of_ne_nil (String.utf8EncodeChar c) (by
            rw [← List.length_pos_iff, String.length_utf8EncodeChar]
            exact c.utf8Size_pos)
          have hsmall := h byte (List.mem_append_left _ (List.mem_reverse.mpr hbyte))
          exact (UInt8.not_le.mpr hsmall (hlarge byte hbyte)).elim

/-- On a line that is ASCII up to the offset the column counts bytes. -/
theorem Position.column_ofOffset {text : String} {offset : Nat}
    (h : ∀ byte ∈ lineBefore text offset, byte < 0x80) :
    (ofOffset text.toList offset).column = (lineBefore text offset).length + 1 := by
  obtain ⟨part, htake, hpart⟩ := exists_take_encode offset text.toList
  have hwhole : lineBefore text offset =
      part.reverse ++ lineEnd 0x0A (encode (prefixWithin offset text.toList)) := by
    rw [lineBefore, bytes_eq_encode, htake, lineEnd, List.reverse_append]
    apply List.takeWhile_append_of_pos
    intro byte hbyte
    rw [bne_iff_ne]
    rintro rfl
    exact absurd (hpart _ (List.mem_reverse.mp hbyte)) (by decide)
  have hnone : part = [] := by
    rw [List.eq_nil_iff_forall_not_mem]
    intro byte hbyte
    have hsmall := h byte (by rw [hwhole]; simp [hbyte])
    exact UInt8.not_le.mpr hsmall (hpart byte hbyte)
  rw [hnone, List.reverse_nil, List.nil_append] at hwhole
  rw [hwhole] at h ⊢
  rw [ofOffset_eq, length_lineEnd_encode h]

end LayerLint.Text
