/-!
# Maps in ascending key order

A map is the list of its entries, keys strictly ascending, so equal maps are equal lists and a map
is walked in the order of its keys.

* `Keyed.insert`, `Keyed.ofList`: of several values for one key, the last wins.
* `Keyed.get?`: the value of a key.
* `Keyed.get?_insert`: an insertion changes the value of its own key and no other.
* `Keyed.get?_eq_some`: the entries of the list are the values of the keys.
* `Keyed.mem_keys_alter`, `Keyed.mem_keys_foldl`: the keys of a map that is put together.
* `Keyed.get?_ofList`, `Keyed.entries_ofList`, `Keyed.length_ofList_le`: what becomes of a list of
  entries that is made into a map.
-/

namespace RunAudit

/-- A type of keys with a strict linear order. -/
class KeyOrder (κ : Type) extends LT κ where
  decidableLT : DecidableLT κ
  lt_irrefl (a : κ) : ¬ a < a
  lt_trans {a b c : κ} : a < b → b < c → a < c
  lt_total {a b : κ} : ¬ a < b → ¬ b < a → a = b

namespace KeyOrder

instance {κ : Type} [KeyOrder κ] : DecidableLT κ := decidableLT

instance : KeyOrder Nat where
  decidableLT := inferInstance
  lt_irrefl := Nat.lt_irrefl
  lt_trans := Nat.lt_trans
  lt_total h h' := by omega

/-- Strings in the order of their code points, which is also the order of their bytes in UTF-8. -/
instance : KeyOrder String where
  decidableLT := inferInstance
  lt_irrefl := String.lt_irrefl
  lt_trans := String.lt_trans
  lt_total h h' := String.le_antisymm (String.not_lt.1 h') (String.not_lt.1 h)

end KeyOrder

variable {κ ν : Type} [KeyOrder κ]

/-- Entries with one more, in place of the entry with the same key if there is one. -/
def insertEntry (k : κ) (v : ν) : List (κ × ν) → List (κ × ν)
  | [] => [(k, v)]
  | (k', v') :: rest =>
    if k < k' then (k, v) :: (k', v') :: rest
    else if k' < k then (k', v') :: insertEntry k v rest
    else (k, v) :: rest

/-- An insertion brings no key that is too small. -/
theorem lt_of_mem_insertEntry {k b : κ} {v : ν} {entries : List (κ × ν)} (hb : b < k)
    (h : ∀ e ∈ entries, b < e.1) : ∀ e ∈ insertEntry k v entries, b < e.1 := by
  induction entries with
  | nil => simpa [insertEntry] using hb
  | cons e' rest ih =>
    obtain ⟨k', v'⟩ := e'
    have h' := List.forall_mem_cons.1 h
    simp only [insertEntry]
    split
    · exact List.forall_mem_cons.2 ⟨hb, h⟩
    · split
      · exact List.forall_mem_cons.2 ⟨h'.1, ih h'.2⟩
      · exact List.forall_mem_cons.2 ⟨hb, h'.2⟩

/-- **Entries stay in ascending order.** -/
theorem pairwise_insertEntry {k : κ} {v : ν} {entries : List (κ × ν)}
    (h : entries.Pairwise fun a b => a.1 < b.1) :
    (insertEntry k v entries).Pairwise fun a b => a.1 < b.1 := by
  induction entries with
  | nil => simp [insertEntry]
  | cons e' rest ih =>
    obtain ⟨k', v'⟩ := e'
    have h' := List.pairwise_cons.1 h
    simp only [insertEntry]
    split
    · next hk =>
      refine List.pairwise_cons.2 ⟨?_, h⟩
      simp only [List.mem_cons, forall_eq_or_imp]
      exact ⟨hk, fun e he => KeyOrder.lt_trans hk (h'.1 e he)⟩
    · split
      · next hk => exact List.pairwise_cons.2 ⟨lt_of_mem_insertEntry hk h'.1, ih h'.2⟩
      · next hk hk' =>
        obtain rfl := KeyOrder.lt_total hk hk'
        exact List.pairwise_cons.2 ⟨h'.1, h'.2⟩

/-- A map from keys to values. -/
structure Keyed (κ ν : Type) [KeyOrder κ] where
  entries : List (κ × ν)
  ascending : entries.Pairwise fun a b => a.1 < b.1

namespace Keyed

/-- The map without entries. -/
def empty : Keyed κ ν := ⟨[], .nil⟩

/-- A map with the value of one key set. -/
def insert (m : Keyed κ ν) (k : κ) (v : ν) : Keyed κ ν :=
  ⟨insertEntry k v m.entries, pairwise_insertEntry m.ascending⟩

/-- The map of some entries. Of several with one key, the last wins. -/
def ofList (entries : List (κ × ν)) : Keyed κ ν :=
  entries.foldl (fun m (k, v) => m.insert k v) empty

/-- Whether an entry is the one of a key: neither before nor after it. -/
def isAt (k : κ) (e : κ × ν) : Bool := decide (¬ e.1 < k ∧ ¬ k < e.1)

/-- The value of a key. -/
def get? (m : Keyed κ ν) (k : κ) : Option ν := (m.entries.find? (isAt k)).map (·.2)

/-- Whether a map has a value for a key. -/
def contains (m : Keyed κ ν) (k : κ) : Bool := (m.get? k).isSome

/-- A map with the value of one key computed from the value it had. -/
def alter (m : Keyed κ ν) (k : κ) (f : Option ν → ν) : Keyed κ ν := m.insert k (f (m.get? k))

/-- The keys in ascending order. -/
def keys (m : Keyed κ ν) : List κ := m.entries.map (·.1)

/-- The values in the order of their keys. -/
def values (m : Keyed κ ν) : List ν := m.entries.map (·.2)

@[ext] theorem ext {m m' : Keyed κ ν} (h : m.entries = m'.entries) : m = m' := by
  cases m; cases m'; simp_all

@[simp] theorem get?_empty (k : κ) : (empty : Keyed κ ν).get? k = none := rfl

/-- `isAt` needs no equality test on keys, but amounts to one. -/
theorem isAt_iff {k : κ} {e : κ × ν} : isAt k e = true ↔ e.1 = k := by
  simp only [isAt, decide_eq_true_eq]
  exact ⟨fun h => KeyOrder.lt_total h.1 h.2, fun h => h ▸ ⟨KeyOrder.lt_irrefl _, KeyOrder.lt_irrefl _⟩⟩

theorem find?_insertEntry_self (k : κ) (v : ν) (entries : List (κ × ν)) :
    (insertEntry k v entries).find? (isAt k) = some (k, v) := by
  have hit : isAt k (k, v) = true := isAt_iff.2 rfl
  induction entries with
  | nil => simp [insertEntry, hit]
  | cons e rest ih =>
    simp only [insertEntry]
    split
    · simp [hit]
    · split
      · next h =>
        have miss : isAt k e = false := by simp [isAt, h]
        simp [miss, ih]
      · simp [hit]

theorem find?_insertEntry_of_ne {k k' : κ} (v : ν) (hk : k' ≠ k) (entries : List (κ × ν)) :
    (insertEntry k v entries).find? (isAt k') = entries.find? (isAt k') := by
  have miss : ∀ v' : ν, isAt k' (k, v') = false := fun v' =>
    Bool.eq_false_iff.2 fun h => hk (isAt_iff.1 h).symm
  induction entries with
  | nil => simp [insertEntry, miss]
  | cons e rest ih =>
    simp only [insertEntry]
    split
    · simp [List.find?_cons, miss]
    · split
      · simp [List.find?_cons, ih]
      · next h h' =>
        obtain ⟨k'', v''⟩ := e
        obtain rfl := KeyOrder.lt_total h h'
        simp [miss]

/-- **An insertion changes the value of its own key and no other.** -/
theorem get?_insert (m : Keyed κ ν) (k k' : κ) (v : ν) [DecidableEq κ] :
    (m.insert k v).get? k' = if k' = k then some v else m.get? k' := by
  simp only [get?, insert]
  split
  · next h => subst h; rw [find?_insertEntry_self]; rfl
  · next h => rw [find?_insertEntry_of_ne v h]

/-- Of two entries with one key, neither can come before the other. -/
theorem eq_of_key_eq {m : Keyed κ ν} {a b : κ × ν} (ha : a ∈ m.entries) (hb : b ∈ m.entries)
    (h : a.1 = b.1) : a = b := by
  obtain ⟨i, hi, rfl⟩ := List.getElem_of_mem ha
  obtain ⟨j, hj, rfl⟩ := List.getElem_of_mem hb
  have hlt := List.pairwise_iff_getElem.1 m.ascending
  rcases Nat.lt_trichotomy i j with hij | rfl | hij
  · have hk := hlt i j hi hj hij
    rw [h] at hk
    exact absurd hk (KeyOrder.lt_irrefl _)
  · rfl
  · have hk := hlt j i hj hi hij
    rw [h] at hk
    exact absurd hk (KeyOrder.lt_irrefl _)

/-- **The value of a key is the one that stands next to it in the list.** -/
theorem get?_eq_some {m : Keyed κ ν} {k : κ} {v : ν} :
    m.get? k = some v ↔ (k, v) ∈ m.entries := by
  unfold get?
  constructor
  · intro h
    obtain ⟨⟨k', v'⟩, hf, rfl⟩ := Option.map_eq_some_iff.1 h
    obtain rfl : k' = k := isAt_iff.1 (List.find?_some hf)
    exact List.mem_of_find?_eq_some hf
  · intro h
    have hs : (m.entries.find? (isAt k)).isSome = true :=
      List.find?_isSome.2 ⟨(k, v), h, isAt_iff.2 rfl⟩
    obtain ⟨e, he⟩ := Option.isSome_iff_exists.1 hs
    have hk : e.1 = k := isAt_iff.1 (List.find?_some he)
    rw [he, eq_of_key_eq (List.mem_of_find?_eq_some he) h hk]
    rfl

/-- The keys of a map are those that have a value. -/
theorem mem_keys {m : Keyed κ ν} {k : κ} : k ∈ m.keys ↔ (m.get? k).isSome = true := by
  rw [Option.isSome_iff_exists]
  simp only [get?_eq_some, keys, List.mem_map, Prod.exists, exists_and_right, exists_eq_right]

/-- Setting a value adds its key. -/
theorem mem_keys_alter [DecidableEq κ] {m : Keyed κ ν} {k k' : κ} {f : Option ν → ν} :
    k' ∈ (m.alter k f).keys ↔ k' = k ∨ k' ∈ m.keys := by
  rw [mem_keys, mem_keys, alter, get?_insert]
  by_cases h : k' = k <;> simp [h]

/-- The keys of a map that is put together in steps, each of which adds certain keys. -/
theorem mem_keys_foldl {α : Type} {step : Keyed κ ν → α → Keyed κ ν} (adds : α → κ → Prop)
    (h : ∀ m a k, k ∈ (step m a).keys ↔ adds a k ∨ k ∈ m.keys) (items : List α) (m : Keyed κ ν)
    (k : κ) : k ∈ (items.foldl step m).keys ↔ (∃ a ∈ items, adds a k) ∨ k ∈ m.keys := by
  induction items generalizing m with
  | nil => simp
  | cons a items ih =>
    rw [List.foldl_cons, ih, h]
    simp only [List.mem_cons, exists_eq_or_imp, or_assoc, or_left_comm]

/-- The map of some entries, laid over a map that is there already. -/
theorem get?_foldl_insert [DecidableEq κ] (entries : List (κ × ν)) (m : Keyed κ ν) (k : κ) :
    (entries.foldl (fun m (k, v) => m.insert k v) m).get? k =
      (((entries.filter (·.1 = k)).getLast?).map (·.2)).or (m.get? k) := by
  induction entries generalizing m with
  | nil => rfl
  | cons e rest ih =>
    rw [List.foldl_cons, ih, get?_insert]
    by_cases h : k = e.1
    · subst h
      rw [if_pos rfl, List.filter_cons_of_pos (by simp), List.getLast?_cons]
      cases (rest.filter fun a => decide (a.1 = e.1)).getLast? <;> rfl
    · rw [if_neg h, List.filter_cons_of_neg (by simpa using Ne.symm h)]

/-- **Of several values for one key, the last counts.** -/
theorem get?_ofList [DecidableEq κ] (entries : List (κ × ν)) (k : κ) :
    (ofList entries).get? k = ((entries.filter (·.1 = k)).getLast?).map (·.2) := by
  rw [ofList, get?_foldl_insert, get?_empty, Option.or_none]

/-- A key behind all others goes to the end. -/
theorem insertEntry_of_last {k : κ} {v : ν} {entries : List (κ × ν)}
    (h : ∀ e ∈ entries, e.1 < k) : insertEntry k v entries = entries ++ [(k, v)] := by
  induction entries with
  | nil => rfl
  | cons e rest ih =>
    have hrest := List.forall_mem_cons.1 h
    have hnot : ¬ k < e.1 := fun hk => KeyOrder.lt_irrefl _ (KeyOrder.lt_trans hk hrest.1)
    rw [insertEntry, if_neg hnot, if_pos hrest.1, ih hrest.2, List.cons_append]

theorem entries_foldl_insert {entries : List (κ × ν)} {m : Keyed κ ν}
    (h : (m.entries ++ entries).Pairwise fun a b => a.1 < b.1) :
    (entries.foldl (fun m (k, v) => m.insert k v) m).entries = m.entries ++ entries := by
  induction entries generalizing m with
  | nil => exact (List.append_nil _).symm
  | cons e rest ih =>
    have hlast : ∀ e' ∈ m.entries, e'.1 < e.1 := fun e' he' =>
      (List.pairwise_append.1 h).2.2 e' he' e List.mem_cons_self
    have hinsert : (m.insert e.1 e.2).entries = m.entries ++ [e] := insertEntry_of_last hlast
    have hshift : (m.insert e.1 e.2).entries ++ rest = m.entries ++ e :: rest := by
      rw [hinsert, List.append_assoc]
      rfl
    rw [List.foldl_cons, ih (by rwa [hshift]), hshift]

/-- **Entries in ascending order are kept as they are.** -/
theorem entries_ofList {entries : List (κ × ν)}
    (h : entries.Pairwise fun a b => a.1 < b.1) : (ofList entries).entries = entries :=
  entries_foldl_insert (m := empty) h

/-- The map of its own entries. -/
theorem ofList_entries (m : Keyed κ ν) : ofList m.entries = m := ext (entries_ofList m.ascending)

/-- However an entry is written out, an insertion adds at most the length of its own. -/
theorem length_flatMap_insertEntry_le {α : Type} (write : κ × ν → List α) (k : κ) (v : ν)
    (entries : List (κ × ν)) :
    ((insertEntry k v entries).flatMap write).length ≤
      (write (k, v)).length + (entries.flatMap write).length := by
  induction entries with
  | nil => exact Nat.le_of_eq (List.length_append ..)
  | cons e rest ih =>
    obtain ⟨k', v'⟩ := e
    simp only [insertEntry]
    split
    · simp only [List.flatMap_cons, List.length_append]
      omega
    · split <;> simp only [List.flatMap_cons, List.length_append] <;> omega

/-- **However entries are written out, a map takes no more room than the list it was made of.** -/
theorem length_flatMap_ofList_le {α : Type} (write : κ × ν → List α) (entries : List (κ × ν)) :
    ((ofList entries).entries.flatMap write).length ≤ (entries.flatMap write).length := by
  have hfrom : ∀ m : Keyed κ ν,
      ((entries.foldl (fun m (k, v) => m.insert k v) m).entries.flatMap write).length ≤
        (m.entries.flatMap write).length + (entries.flatMap write).length := by
    induction entries with
    | nil => exact fun m => Nat.le_add_right _ _
    | cons e rest ih =>
      intro m
      obtain ⟨k, v⟩ := e
      have hinsert : ((m.insert k v).entries.flatMap write).length ≤
          (write (k, v)).length + (m.entries.flatMap write).length :=
        length_flatMap_insertEntry_le write k v m.entries
      refine Nat.le_trans (ih (m.insert k v)) ?_
      rw [List.flatMap_cons, List.length_append]
      omega
  have hle := hfrom empty
  rwa [show (empty : Keyed κ ν).entries = [] from rfl, List.flatMap_nil, List.length_nil,
    Nat.zero_add] at hle

/-- A map has at most as many entries as the list it was made of. -/
theorem length_ofList_le (entries : List (κ × ν)) :
    (ofList entries).entries.length ≤ entries.length := by
  have hle := length_flatMap_ofList_le (fun e => [e]) entries
  rwa [List.flatMap_singleton', List.flatMap_singleton'] at hle

end Keyed

end RunAudit
