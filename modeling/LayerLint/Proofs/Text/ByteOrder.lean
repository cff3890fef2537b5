import LayerLint.Proofs.Text.Bytes

/-! # Texts in the order of their bytes

Texts are ordered by their characters, and characters by their numbers. The bytes of two characters
first differ where the smaller one has the smaller byte, so the order of texts is that of their
UTF-8 forms.
-/

namespace LayerLint.Text

/-- Numbers are ordered by their last digit once the digits before it are equal. -/
theorem lt_iff_digits {v w : Nat} :
    v < w ↔ v / 64 < w / 64 ∨ (v / 64 = w / 64 ∧ v % 64 < w % 64) := by
  omega

/-- The smaller of two characters comes first among the bytes too, whatever follows them. -/
theorem utf8EncodeChar_append_lt {c d : Char} (h : c < d) (rest rest' : List UInt8) :
    String.utf8EncodeChar c ++ rest < String.utf8EncodeChar d ++ rest' := by
  have hlt : c.val.toNat < d.val.toNat := h
  have hmax : d.val.toNat < 0x110000 := by
    rcases d.valid with hsmall | ⟨-, hlarge⟩
    · exact Nat.lt_trans hsmall (by decide)
    · exact hlarge
  have hbyte (v w : Nat) : UInt8.ofNat v < UInt8.ofNat w ↔ v % 256 < w % 256 := by
    rw [UInt8.lt_iff_toNat_lt, UInt8.toNat_ofNat', UInt8.toNat_ofNat']
  have hsame (v w : Nat) : UInt8.ofNat v = UInt8.ofNat w ↔ v % 256 = w % 256 := by
    rw [← UInt8.toNat_inj, UInt8.toNat_ofNat', UInt8.toNat_ofNat']
  -- all bytes but the first one of a character are digits to the base 64
  have hsecond (v : Nat) : v / 4096 = v / 64 / 64 := (Nat.div_div_eq_div_mul v 64 64).symm
  have hthird (v : Nat) : v / 262144 = v / 64 / 64 / 64 := by
    rw [Nat.div_div_eq_div_mul, Nat.div_div_eq_div_mul]
  unfold String.utf8EncodeChar
  dsimp only
  generalize c.val.toNat = v at hlt
  generalize d.val.toNat = w at hlt hmax
  repeat' split
  all_goals simp only [List.cons_append, List.cons_lt_cons_iff, hbyte, hsame, hsecond, hthird]
  all_goals
    rcases lt_iff_digits.mp hlt with hlt | ⟨heq, hlt⟩
    · rcases lt_iff_digits.mp hlt with hlt | ⟨heq, hlt⟩ <;> omega
    · omega

theorem append_lt_append_iff (front : List UInt8) {rest rest' : List UInt8} :
    front ++ rest < front ++ rest' ↔ rest < rest' := by
  induction front with
  | nil => rfl
  | cons byte front ih =>
      rw [List.cons_append, List.cons_append, List.cons_lt_cons_iff, ih]
      simp

theorem encode_lt_encode_iff {first second : List Char} :
    encode first < encode second ↔ first < second := by
  induction first generalizing second with
  | nil =>
      cases second with
      | nil => simp
      | cons d second =>
          obtain ⟨byte, rest, hbytes⟩ := List.exists_cons_of_ne_nil
            (List.append_ne_nil_of_left_ne_nil (String.utf8EncodeChar_ne_nil (c := d))
              (encode second))
          rw [encode_nil, encode_cons, hbytes]
          exact iff_of_true (List.nil_lt_cons _ _) (List.nil_lt_cons _ _)
  | cons c first ih =>
      cases second with
      | nil => exact iff_of_false (List.not_lt_nil _) (List.not_lt_nil _)
      | cons d second =>
          rw [encode_cons, encode_cons, List.cons_lt_cons_iff]
          rcases Std.lt_trichotomy c d with hlt | rfl | hlt
          · exact iff_of_true (utf8EncodeChar_append_lt hlt _ _) (.inl hlt)
          · rw [append_lt_append_iff, ih]
            simp
          · refine iff_of_false (List.lt_asymm (utf8EncodeChar_append_lt hlt _ _)) ?_
            rintro (hgt | ⟨rfl, -⟩)
            · exact Char.lt_asymm hlt hgt
            · exact Char.lt_irrefl _ hlt

/-- The order of texts is that of their bytes. -/
theorem bytes_lt_bytes_iff {first second : String} :
    bytes first < bytes second ↔ first < second := by
  rw [bytes_eq_encode, bytes_eq_encode, encode_lt_encode_iff]
  rfl

end LayerLint.Text
