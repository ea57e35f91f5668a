/-!
# Texts and byte strings cut at separators

Everything here works on lists, so that it serves lines of bytes, lines of
characters and fields of a line alike.

* `pieces`: the pieces between separators; one that ends the input adds nothing.
* `splitFirst`, `splitLast`: the two sides of the first and of the last separator.
* `occursIn`: whether one list stands somewhere inside another.
* `bracketed`: items put together again, with commas between and brackets around them.
* `splitFirst_eq_some`: what is cut is put together again by the separator.
-/

namespace RunAudit.Text

variable {α : Type} [BEq α]

/-- The pieces between separators. A separator at the very end closes the last piece and opens
none, so a text and the same text with a final line break have the same lines. -/
def pieces (separator : α) : List α → List (List α)
  | [] => []
  | x :: xs =>
    if x == separator then [] :: pieces separator xs
    else match pieces separator xs with
      | [] => [[x]]
      | piece :: later => (x :: piece) :: later

/-- What stands before and after the first separator. -/
def splitFirst (separator : α) : List α → Option (List α × List α)
  | [] => none
  | x :: xs =>
    if x == separator then some ([], xs)
    else (splitFirst separator xs).map fun (before, after) => (x :: before, after)

/-- What stands before and after the last separator. -/
def splitLast (separator : α) : List α → Option (List α × List α)
  | [] => none
  | x :: xs =>
    match splitLast separator xs with
    | some (before, after) => some (x :: before, after)
    | none => if x == separator then some ([], xs) else none

/-- Whether `needle` stands somewhere inside the list. -/
def occursIn (needle : List α) : List α → Bool
  | [] => needle.isEmpty
  | x :: xs => needle.isPrefixOf (x :: xs) || occursIn needle xs

/-- Items in brackets, with commas between them. -/
def bracketed (items : List String) : String := "[" ++ String.intercalate ", " items ++ "]"

theorem occursIn_iff [LawfulBEq α] (needle xs : List α) :
    occursIn needle xs = true ↔ needle <:+: xs := by
  induction xs with
  | nil => simp [occursIn]
  | cons x xs ih =>
    rw [occursIn, Bool.or_eq_true, List.isPrefixOf_iff_prefix, ih, List.infix_cons_iff]

@[simp] theorem pieces_nil (separator : α) : pieces separator [] = [] := rfl

/-- **What is cut is put together again by the separator.** -/
theorem splitFirst_eq_some [LawfulBEq α] {separator : α} {xs before after : List α}
    (h : splitFirst separator xs = some (before, after)) :
    xs = before ++ separator :: after := by
  induction xs generalizing before with
  | nil => simp [splitFirst] at h
  | cons x xs ih =>
    simp only [splitFirst] at h
    split at h
    · next hx => simp_all
    · simp only [Option.map_eq_some_iff, Prod.exists, Prod.mk.injEq] at h
      obtain ⟨b, a, hb, rfl, rfl⟩ := h
      simp [ih hb]

end RunAudit.Text
