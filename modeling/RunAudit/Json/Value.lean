import RunAudit.Json.Token

/-!
# Values of JSON

A text is read token by token with a stack of the lists and objects that are still open, so that
nesting has no limit.

* `Value.read?`: the value that a whole text spells.
* `Value.fields?`: the parts of a record with known field names.
-/

namespace RunAudit.Json

/-- A value. An object keeps its members as they are written: in order, repeated keys included. -/
inductive Value where
  | null
  | bool (b : Bool)
  | number (n : Numeral)
  | text (raw : List Char)
  | list (items : List Value)
  | object (members : List (List Char × Value))

/-- A list or object that is still open, with what it holds so far. -/
inductive Frame where
  | list (items : List Value)
  /-- The key belongs to the member whose value comes next. -/
  | object (members : List (List Char × Value)) (key : List Char)

/-- What may come next. -/
inductive Expect where
  | value
  /-- A value, or the end of the empty list that has just been opened. -/
  | itemOrEnd
  | key (members : List (List Char × Value))
  /-- A key, or the end of the empty object that has just been opened. -/
  | keyOrEnd
  | colon (members : List (List Char × Value)) (key : List Char)
  /-- A comma or the end behind an item of a list. -/
  | listSeparator (items : List Value)
  /-- A comma or the end behind a member of an object. -/
  | objectSeparator (members : List (List Char × Value))
  /-- Nothing: the whole value has been read. -/
  | nothing (v : Value)

/-- Where a reader stands: what may come next, and what is open around it. -/
abbrev ReaderState := Expect × List Frame

/-- A value has been completed. -/
def complete (v : Value) : List Frame → ReaderState
  | [] => (.nothing v, [])
  | .list items :: stack => (.listSeparator (items ++ [v]), stack)
  | .object members key :: stack => (.objectSeparator (members ++ [(key, v)]), stack)

/-- A token where a value must come. -/
def beginValue? (stack : List Frame) : Token → Option ReaderState
  | .leftBrace => some (.keyOrEnd, stack)
  | .leftBracket => some (.itemOrEnd, stack)
  | .null => some (complete .null stack)
  | .bool b => some (complete (.bool b) stack)
  | .number n => some (complete (.number n) stack)
  | .text raw => some (complete (.text raw) stack)
  | _ => none

/-- One token. -/
def advance? : ReaderState → Token → Option ReaderState
  | (.value, stack), t => beginValue? stack t
  | (.itemOrEnd, stack), .rightBracket => some (complete (.list []) stack)
  | (.itemOrEnd, stack), t => beginValue? (.list [] :: stack) t
  | (.key members, stack), .text raw => some (.colon members raw, stack)
  | (.keyOrEnd, stack), .rightBrace => some (complete (.object []) stack)
  | (.keyOrEnd, stack), .text raw => some (.colon [] raw, stack)
  | (.colon members key, stack), .colon => some (.value, .object members key :: stack)
  | (.listSeparator items, stack), .comma => some (.value, .list items :: stack)
  | (.listSeparator items, stack), .rightBracket => some (complete (.list items) stack)
  | (.objectSeparator members, stack), .comma => some (.key members, stack)
  | (.objectSeparator members, stack), .rightBrace => some (complete (.object members) stack)
  | _, _ => none

namespace Value

/-- The value that a whole text spells. -/
def read? (s : String) : Option Value := do
  match ← (← tokens? s.toList).foldlM advance? (.value, []) with
  | (.nothing v, _) => some v
  | _ => none

/-- The value of the one member with a key. It fails if there are several. -/
def member? (name : String) (members : List (List Char × Value)) : Option (Option Value) :=
  match members.filter (·.1 = name.toList) with
  | [] => some none
  | [(_, v)] => some (some v)
  | _ => none

/-- The parts of a record with known field names. An object gives them by name, in any order; other
members are ignored, but a repeated field is not allowed. A list gives them in order; missing ones
must be the last. -/
def fields? (names : List String) : Value → Option (List (Option Value))
  | .object members => do
    let members ← members.mapM fun (raw, v) => (unescape? raw).map (·, v)
    names.mapM (member? · members)
  | .list items =>
    if names.length < items.length then none
    else some (names.mapIdx fun i _ => items[i]?)
  | _ => none

end Value

end RunAudit.Json
