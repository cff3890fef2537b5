/-! # Byte offsets into a text

A place in a text is given by the number of bytes that its UTF-8 form has before that place. An
offset is a *boundary* when it does not fall inside a character.
-/

namespace LayerLint.Text

/-- The number of bytes of a text's UTF-8 form. -/
def byteSize (text : List Char) : Nat :=
  text.foldr (fun c rest => c.utf8Size + rest) 0

@[simp] theorem byteSize_nil : byteSize [] = 0 := rfl

@[simp] theorem byteSize_cons (c : Char) (text : List Char) :
    byteSize (c :: text) = c.utf8Size + byteSize text := by
  simp [byteSize]

@[simp] theorem byteSize_append (first second : List Char) :
    byteSize (first ++ second) = byteSize first + byteSize second := by
  induction first with
  | nil => simp
  | cons c rest ih => simp [ih, Nat.add_assoc]

/-- The text after its first `n` bytes, unless `n` lies outside the text or inside a character. -/
def dropBytes? : Nat → List Char → Option (List Char)
  | 0, text => some text
  | _ + 1, [] => none
  | n + 1, c :: rest =>
      if c.utf8Size ≤ n + 1 then dropBytes? (n + 1 - c.utf8Size) rest else none

/-- The first `n` bytes of the text, unless `n` lies outside the text or inside a character. -/
def takeBytes? : Nat → List Char → Option (List Char)
  | 0, _ => some []
  | _ + 1, [] => none
  | n + 1, c :: rest =>
      if c.utf8Size ≤ n + 1 then (takeBytes? (n + 1 - c.utf8Size) rest).map (c :: ·) else none

/-- The text between two byte offsets, if both are boundaries of the text. -/
def slice? (text : List Char) (start stop : Nat) : Option (List Char) :=
  if start ≤ stop then (dropBytes? start text).bind (takeBytes? (stop - start)) else none

/-- The longest beginning of the text that has at most `n` bytes. -/
def prefixWithin : Nat → List Char → List Char
  | _, [] => []
  | n, c :: rest => if c.utf8Size ≤ n then c :: prefixWithin (n - c.utf8Size) rest else []

/-- Dropping the bytes of a beginning leaves what follows it. -/
theorem dropBytes?_byteSize (first second : List Char) :
    dropBytes? (byteSize first) (first ++ second) = some second := by
  induction first with
  | nil => cases second <;> rfl
  | cons c rest ih =>
      have hpos := c.utf8Size_pos
      obtain ⟨n, hn⟩ : ∃ n, byteSize (c :: rest) = n + 1 := ⟨byteSize (c :: rest) - 1, by
        simp only [byteSize_cons]; omega⟩
      rw [hn, List.cons_append, dropBytes?, ← hn]
      simp only [byteSize_cons]
      rw [if_pos (by omega), Nat.add_sub_cancel_left, ih]

/-- Taking the bytes of a beginning gives that beginning. -/
theorem takeBytes?_byteSize (first second : List Char) :
    takeBytes? (byteSize first) (first ++ second) = some first := by
  induction first with
  | nil => cases second <;> rfl
  | cons c rest ih =>
      have hpos := c.utf8Size_pos
      obtain ⟨n, hn⟩ : ∃ n, byteSize (c :: rest) = n + 1 := ⟨byteSize (c :: rest) - 1, by
        simp only [byteSize_cons]; omega⟩
      rw [hn, List.cons_append, takeBytes?, ← hn]
      simp only [byteSize_cons]
      rw [if_pos (by omega), Nat.add_sub_cancel_left, ih]
      rfl

/-- A piece of a text stands between its own offsets. -/
theorem slice?_of_split {text before inside rest : List Char} {start stop : Nat}
    (htext : text = before ++ (inside ++ rest)) (hstart : start = byteSize before)
    (hstop : stop = start + byteSize inside) : slice? text start stop = some inside := by
  rw [htext, hstop, hstart, slice?, if_pos (Nat.le_add_right _ _), Nat.add_sub_cancel_left,
    dropBytes?_byteSize, Option.bind_some, takeBytes?_byteSize]

end LayerLint.Text
