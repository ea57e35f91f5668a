/-!
# Characters and their bytes

A text is stored in UTF-8, where a character takes up to four bytes. A text can be cut at a byte
only where a character starts, or at its end.

* `charOffsets`: characters with the bytes at which they start.
* `textFrom?`: a text from a byte on.
* `charOffsets_append`, `textFrom?_append`: behind a text in front, the bytes go on where it ends.
* `textFrom?_isSome`: a cut is possible exactly at the boundary of a character.
-/

namespace RunAudit.Text

/-- Characters with the bytes at which they start, where the first of them starts at `start`. -/
def charOffsets (start : String.Pos.Raw) : List Char → List (String.Pos.Raw × Char)
  | [] => []
  | c :: cs => (start, c) :: charOffsets (start + c) cs

/-- A text from a byte on; none where no character starts, the end of the text apart. -/
def textFrom? (s : String) (start : String.Pos.Raw) : Option String :=
  if h : start.IsValid s then some (s.sliceFrom (s.pos start h)).copy else none

@[simp] theorem charOffsets_nil (start : String.Pos.Raw) : charOffsets start [] = [] := rfl

@[simp] theorem charOffsets_cons (start : String.Pos.Raw) (c : Char) (cs : List Char) :
    charOffsets start (c :: cs) = (start, c) :: charOffsets (start + c) cs := rfl

/-- What stands behind a text starts at the byte where that text ends. -/
theorem charOffsets_append (start : String.Pos.Raw) (front back : List Char) :
    charOffsets start (front ++ back) =
      charOffsets start front ++ charOffsets (start + String.ofList front) back := by
  induction front generalizing start with
  | nil =>
    have hstart : start + String.ofList [] = start := by simp [String.Pos.Raw.ext_iff]
    rw [hstart, List.nil_append, charOffsets_nil, List.nil_append]
  | cons c front ih =>
    have hstart : start + c + String.ofList front = start + String.ofList (c :: front) := by
      simp [String.Pos.Raw.ext_iff, Nat.add_assoc]
    rw [List.cons_append, charOffsets_cons, charOffsets_cons, ih, hstart, List.cons_append]

@[simp] theorem map_snd_charOffsets (start : String.Pos.Raw) (cs : List Char) :
    (charOffsets start cs).map (·.2) = cs := by
  induction cs generalizing start with
  | nil => rfl
  | cons c cs ih => rw [charOffsets_cons, List.map_cons, ih]

/-- **A text can be cut exactly at the boundaries of its characters.** -/
theorem textFrom?_isSome {s : String} {start : String.Pos.Raw} :
    (textFrom? s start).isSome ↔ start.IsValid s := by
  unfold textFrom?
  split
  · next h => exact iff_of_true rfl h
  · next h => exact iff_of_false Bool.false_ne_true h

/-- A text cut where a text in front of it ends. -/
theorem textFrom?_append (front back : String) :
    textFrom? (front ++ back) front.rawEndPos = some back := by
  have hvalid : front.rawEndPos.IsValid (front ++ back) :=
    String.Pos.Raw.isValid_iff_exists_append.2 ⟨front, back, rfl, rfl⟩
  have hsplits : ((front ++ back).pos front.rawEndPos hvalid).Splits front back := ⟨rfl, rfl⟩
  unfold textFrom?
  rw [dif_pos hvalid]
  exact congrArg some (((front ++ back).pos front.rawEndPos hvalid).splits.eq_right hsplits)

end RunAudit.Text
