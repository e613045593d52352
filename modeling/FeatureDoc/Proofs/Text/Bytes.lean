import FeatureDoc.Text.Bytes

/-!
# Cuts of a text

Lengths add up, and a text can be cut where a length of its front part says.

* `Text.slice?_append` says that the part between two cuts is found by the lengths before it.
* `Text.IsRest` says what is left of a text behind a cut; `Text.IsRest.slice?` that the text can be
  cut again wherever a part of what is left ends.
-/

namespace FeatureDoc.Text

@[simp]
theorem byteLength_append (cs ds : List Char) :
    byteLength (cs ++ ds) = byteLength cs + byteLength ds := by
  induction cs with
  | nil => simp [byteLength]
  | cons c cs ih => simp [byteLength, ih, Nat.add_assoc]

theorem utf8ByteSize_ofList (cs : List Char) : (String.ofList cs).utf8ByteSize = byteLength cs := by
  induction cs with
  | nil => rfl
  | cons c cs ih =>
    rw [String.ofList_cons, String.utf8ByteSize_append, ih, byteLength]
    simp

/-! ## Cuts -/

/-- A character has at least one byte. -/
theorem byteLength_cons (c : Char) (cs : List Char) :
    byteLength (c :: cs) = (c.utf8Size - 1 + byteLength cs) + 1 := by
  have := c.utf8Size_pos
  rw [byteLength]
  omega

theorem dropBytes?_append (cs ds : List Char) :
    dropBytes? (cs ++ ds) (byteLength cs) = some ds := by
  induction cs with
  | nil => cases ds <;> rfl
  | cons c cs ih =>
    rw [byteLength_cons, List.cons_append, dropBytes?, ← byteLength_cons, byteLength,
      if_pos (Nat.le_add_right _ _), Nat.add_sub_cancel_left]
    exact ih

theorem takeBytes?_append (cs ds : List Char) :
    takeBytes? (cs ++ ds) (byteLength cs) = some cs := by
  induction cs with
  | nil => cases ds <;> rfl
  | cons c cs ih =>
    rw [byteLength_cons, List.cons_append, takeBytes?, ← byteLength_cons, byteLength,
      if_pos (Nat.le_add_right _ _), Nat.add_sub_cancel_left, ih]
    rfl

/-- **A part of a text is found by the lengths before it.** -/
theorem slice?_append (before body after : List Char) :
    slice? (before ++ (body ++ after)) (byteLength before) (byteLength (before ++ body)) =
      some body := by
  rw [slice?, byteLength_append, if_pos (Nat.le_add_right _ _), dropBytes?_append,
    Option.bind_some, Nat.add_sub_cancel_left, takeBytes?_append]

/-! ## What is left behind a cut -/

/-- The text `cs` is what is left of `text` behind its first `offset` bytes. -/
def IsRest (text : List Char) (offset : Nat) (cs : List Char) : Prop :=
  ∃ before, text = before ++ cs ∧ byteLength before = offset

namespace IsRest

variable {text cs ds : List Char} {offset : Nat}

theorem zero (text : List Char) : IsRest text 0 text := ⟨[], rfl, rfl⟩

theorem append (h : IsRest text offset (cs ++ ds)) : IsRest text (offset + byteLength cs) ds := by
  obtain ⟨before, rfl, rfl⟩ := h
  exact ⟨before ++ cs, (List.append_assoc before cs ds).symm, byteLength_append before cs⟩

theorem cons {c : Char} (h : IsRest text offset (c :: cs)) :
    IsRest text (offset + c.utf8Size) cs :=
  @append text [c] cs offset h

/-- **A part of what is left is found again in the whole text.** -/
theorem slice? (h : IsRest text offset (cs ++ ds)) :
    Text.slice? text offset (offset + byteLength cs) = some cs := by
  obtain ⟨before, rfl, rfl⟩ := h
  rw [← byteLength_append]
  exact slice?_append before cs ds

end IsRest

end FeatureDoc.Text
