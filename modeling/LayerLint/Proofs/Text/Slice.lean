import LayerLint.Proofs.Text.Position

/-! # Pieces of a text between bytes

A piece can be cut out of a text between two offsets exactly if both are boundaries of the text. It
then has the bytes of the text from the one offset to the other.
-/

namespace LayerLint.Text

/-- The piece has the bytes of a text between two offsets, which cut no character. -/
structure IsPiece (text : String) (start stop : Nat) (piece : String) : Prop where
  start_mem : start ∈ boundaries text
  stop_mem : stop ∈ boundaries text
  stop_eq : stop = start + piece.utf8ByteSize
  bytes_eq : ((bytes text).take stop).drop start = bytes piece

theorem exists_eq_append_of_dropBytes? {n : Nat} {text rest : List Char}
    (h : dropBytes? n text = some rest) : ∃ first, text = first ++ rest ∧ n = byteSize first := by
  fun_induction dropBytes? n text with
  | case1 text => exact ⟨[], by simpa using h, rfl⟩
  | case2 n => cases h
  | case3 n c text hfits ih =>
      obtain ⟨first, rfl, hsize⟩ := ih h
      refine ⟨c :: first, rfl, ?_⟩
      rw [byteSize_cons]
      omega
  | case4 n c text hlong => cases h

theorem exists_eq_append_of_takeBytes? {n : Nat} {text piece : List Char}
    (h : takeBytes? n text = some piece) : ∃ rest, text = piece ++ rest ∧ n = byteSize piece := by
  fun_induction takeBytes? n text generalizing piece with
  | case1 text =>
      cases h
      exact ⟨text, rfl, rfl⟩
  | case2 n => cases h
  | case3 n c text hfits ih =>
      obtain ⟨piece, hpiece, rfl⟩ := Option.map_eq_some_iff.mp h
      obtain ⟨rest, rfl, hsize⟩ := ih hpiece
      refine ⟨rest, rfl, ?_⟩
      rw [byteSize_cons]
      omega
  | case4 n c text hlong => cases h

theorem exists_split_of_slice? {text piece : List Char} {start stop : Nat}
    (h : slice? text start stop = some piece) :
    ∃ before rest, text = before ++ (piece ++ rest) ∧ start = byteSize before ∧
      stop = start + byteSize piece := by
  rw [slice?] at h
  split at h
  next hle =>
    obtain ⟨behind, hdrop, htake⟩ := Option.bind_eq_some_iff.mp h
    obtain ⟨before, rfl, hstart⟩ := exists_eq_append_of_dropBytes? hdrop
    obtain ⟨rest, rfl, hsize⟩ := exists_eq_append_of_takeBytes? htake
    exact ⟨before, rest, rfl, hstart, by omega⟩
  next => cases h

variable {text : String} {start stop : Nat}

theorem isPiece_of_slice? {piece : List Char} (h : slice? text.toList start stop = some piece) :
    IsPiece text start stop (String.ofList piece) := by
  obtain ⟨before, rest, htext, rfl, rfl⟩ := exists_split_of_slice? h
  have hstop : byteSize before + byteSize piece = byteSize (before ++ piece) := by
    rw [byteSize_append]
  refine ⟨?_, ?_, ?_, ?_⟩
  · exact mem_boundaries_iff.mpr ⟨before, ⟨_, htext.symm⟩, rfl⟩
  · exact mem_boundaries_iff.mpr ⟨before ++ piece, ⟨rest, by rw [htext, List.append_assoc]⟩, hstop⟩
  · rw [utf8ByteSize_eq, String.toList_ofList]
  · calc ((bytes text).take (byteSize before + byteSize piece)).drop (byteSize before)
        = ((encode (before ++ piece) ++ encode rest).take (byteSize (before ++ piece))).drop
            (byteSize before) := by
          rw [bytes_eq_encode, htext, ← List.append_assoc, encode_append, hstop]
      _ = (encode before ++ encode piece).drop (byteSize before) := by
          rw [← length_encode (before ++ piece), List.take_left, encode_append]
      _ = bytes (String.ofList piece) := by
          rw [← length_encode before, List.drop_left, bytes_ofList]

/-- Of two boundaries, a piece of the text lies between the first and the second. -/
theorem exists_slice? (hstart : start ∈ boundaries text) (hstop : stop ∈ boundaries text)
    (hle : start ≤ stop) : ∃ piece, slice? text.toList start stop = some piece := by
  obtain ⟨first, hfirst, rfl⟩ := mem_boundaries_iff.mp hstart
  obtain ⟨second, hsecond, rfl⟩ := mem_boundaries_iff.mp hstop
  obtain ⟨piece, rfl⟩ : first <+: second := by
    rcases List.prefix_or_prefix_of_prefix hfirst hsecond with hprefix | ⟨piece, rfl⟩
    · exact hprefix
    · rw [byteSize_append] at hle
      obtain rfl : piece = [] := Cursor.eq_nil_of_byteSize_eq_zero (by omega)
      exact ⟨[], by simp⟩
  obtain ⟨rest, htext⟩ := hsecond
  rw [List.append_assoc] at htext
  exact ⟨piece, slice?_of_split htext.symm rfl (byteSize_append first piece)⟩

end LayerLint.Text
