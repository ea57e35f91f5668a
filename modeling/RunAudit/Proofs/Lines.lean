import Mathlib.Data.List.Basic
import RunAudit.Log.Cursor

/-!
# Lines of UTF-8 logs

A log is cut into lines before it is decoded. In UTF-8 the byte of a line break stands for a line
break and is never part of another character, so the lines of a text are texts themselves.

* `utf8`: the bytes of a text.
* `pieces_encode`: cutting the bytes at line breaks is cutting the characters at line breaks.
* `linesOf_utf8`: the lines of a text, each parsed on its own.
* `decodable_linesOf`: a text has no line that cannot be decoded.
-/

namespace RunAudit.Log

open RunAudit.Text

/-- The bytes of characters, one encoding after another. -/
def encode (chars : List Char) : List UInt8 := chars.flatMap String.utf8EncodeChar

/-- The bytes of a text. -/
def utf8 (text : String) : List UInt8 := text.toUTF8.data.toList

/-- A cursor at the start of a log that is a text. -/
def Cursor.ofText (layout : Layout) (text : String) : Cursor := .ofBytes layout (utf8 text)

@[simp] theorem Cursor.lines_ofText (layout : Layout) (text : String) :
    (Cursor.ofText layout text).lines = linesOf layout (utf8 text) := rfl

/-- Every line can be decoded. -/
def Decodable (lines : List Line) : Prop := Line.undecodable ∉ lines

theorem utf8_eq_encode (text : String) : utf8 text = encode text.toList := by
  unfold utf8 encode
  conv_lhs => rw [← String.ofList_toList (s := text)]
  rw [String.toUTF8_eq_toByteArray, String.toByteArray_ofList, List.utf8Encode,
    List.toList_data_toByteArray]

/-- The byte of a line break encodes nothing but a line break. -/
theorem eq_newline_of_mem {c : Char} (h : (10 : UInt8) ∈ String.utf8EncodeChar c) : c = '\n' := by
  have hc : (10 : UInt8).toNat = 10 := rfl
  have hn : '\n'.val.toNat = 10 := rfl
  unfold String.utf8EncodeChar at h
  simp only at h
  split_ifs at h with h1 h2 h3 <;>
    simp only [List.mem_cons, List.not_mem_nil, or_false, ← UInt8.toNat_inj, UInt8.toNat_ofNat',
      hc] at h
  · exact Char.ext (UInt32.toNat_inj.1 (by omega))
  -- every byte of a longer encoding is at least 128
  all_goals omega

/-- A stretch without a separator only makes the first piece longer. -/
theorem pieces_append {α : Type} [BEq α] [LawfulBEq α] {separator : α} {word : List α}
    (hw : separator ∉ word) (hne : word ≠ []) (xs : List α) :
    pieces separator (word ++ xs) =
      match pieces separator xs with
      | [] => [word]
      | piece :: later => (word ++ piece) :: later := by
  induction word with
  | nil => exact absurd rfl hne
  | cons x word ih =>
    rw [List.mem_cons, not_or] at hw
    have hx : (x == separator) = false := beq_false_of_ne (Ne.symm hw.1)
    rw [List.cons_append, pieces, hx, if_neg Bool.false_ne_true]
    rcases eq_or_ne word [] with h | h
    · subst h; rfl
    · rw [ih hw.2 h]
      cases pieces separator xs <;> rfl

/-- **Cutting the bytes of characters at line breaks is cutting the characters at line breaks.** -/
theorem pieces_encode (chars : List Char) :
    pieces 10 (encode chars) = (pieces '\n' chars).map encode := by
  induction chars with
  | nil => rfl
  | cons c chars ih =>
    have hcons : encode (c :: chars) = String.utf8EncodeChar c ++ encode chars := rfl
    rw [hcons, pieces]
    by_cases hc : c = '\n'
    · subst hc
      rw [if_pos (beq_self_eq_true _), List.map_cons, ← ih]
      rfl
    · have hw : (10 : UInt8) ∉ String.utf8EncodeChar c := fun h => hc (eq_newline_of_mem h)
      rw [pieces_append hw String.utf8EncodeChar_ne_nil, ih, if_neg (by simpa using hc)]
      cases pieces '\n' chars with
      | nil => simp [encode]
      | cons piece later => rfl

/-- A line that is a text. -/
def Line.ofText (layout : Layout) (line : String) : Line :=
  match Entry.parse layout line with
  | none => .blank
  | some e => .entry e

/-- Encoded characters decode. -/
theorem ofBytes_encode (layout : Layout) (chars : List Char) :
    Line.ofBytes layout (encode chars) = Line.ofText layout (.ofList chars) := by
  have hbytes : (⟨(encode chars).toArray⟩ : ByteArray) = (String.ofList chars).toByteArray := by
    apply ByteArray.ext
    rw [← Array.toList_inj, String.toByteArray_ofList, List.utf8Encode,
      List.toList_data_toByteArray]
    rfl
  have hdecode : String.fromUTF8? ⟨(encode chars).toArray⟩ = some (String.ofList chars) := by
    rw [hbytes, String.fromUTF8?, dif_pos (String.ofList chars).isValidUTF8]
    rfl
  cases hp : Entry.parse layout (.ofList chars) with
  | none => simp only [Line.ofBytes, Line.ofText, hdecode, hp]
  | some e => simp only [Line.ofBytes, Line.ofText, hdecode, hp]

/-- **The lines of a text**, each parsed on its own. -/
theorem linesOf_utf8 (layout : Layout) (text : String) :
    linesOf layout (utf8 text) =
      ((pieces '\n' text.toList).map String.ofList).map (Line.ofText layout) := by
  unfold linesOf
  rw [utf8_eq_encode, pieces_encode, List.map_map, List.map_map]
  exact List.map_congr_left fun chars _ => ofBytes_encode layout chars

/-- **A text has no line that cannot be decoded.** -/
theorem decodable_linesOf (layout : Layout) (text : String) :
    Decodable (linesOf layout (utf8 text)) := by
  intro h
  rw [linesOf_utf8, List.mem_map] at h
  obtain ⟨line, -, h⟩ := h
  unfold Line.ofText at h
  split at h <;> cases h

end RunAudit.Log
