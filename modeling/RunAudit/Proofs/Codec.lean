import Mathlib.Algebra.Group.Nat.Defs
import Mathlib.Data.List.Basic
import RunAudit.Snapshot.Wire

/-!
# Each part of a snapshot has one written form

The parts of a snapshot vary in length and nothing stands between them, so where a part ends is
known only by reading it. Each part is read off exactly those bytes that begin with its written
form, whatever stands behind. This is kept when parts are put together, so it holds of the list of
entries as a whole.

* `Reads`: a part with one written form; `Reads.bind`, `Reads.option` put parts together.
* `readBytes_eq_ok`, `reads_tag`, `reads_flag`, `reads_hash`: the parts that have no parts.
* `reads_key`, `reads_value`: the two sides of an entry.
* `entries_eq_ok`: the bytes of a list of entries are read as that list, and no others are.
-/

namespace RunAudit.Snapshot

variable {α β : Type}

/-- **A part of a snapshot with one written form.** It is read off exactly those bytes that begin
with the form, and what is left is what stands behind it. -/
def Reads (read : Read α) (encode : α → List UInt8) : Prop :=
  ∀ bytes a rest, read bytes = .ok (a, rest) ↔ bytes = encode a ++ rest

theorem bind_eq_ok {ε : Type} {x : Except ε α} {f : α → Except ε β} {b : β} :
    (x >>= f) = .ok b ↔ ∃ a, x = .ok a ∧ f a = .ok b := by
  cases x <;> simp [bind, Except.bind]

theorem pure_eq_ok {ε : Type} {a b : α} : (pure a : Except ε α) = .ok b ↔ a = b := by
  simp [pure, Except.pure]

/-- One part after another. -/
theorem Reads.bind {read : Read α} {encode : α → List UInt8} (h : Reads read encode)
    {bytes : List UInt8} {next : α × List UInt8 → Except WireError β} {b : β} :
    (read bytes >>= next) = .ok b ↔
      ∃ a rest, bytes = encode a ++ rest ∧ next (a, rest) = .ok b := by
  rw [bind_eq_ok]
  constructor
  · rintro ⟨⟨a, rest⟩, hread, hnext⟩
    exact ⟨a, rest, (h _ _ _).1 hread, hnext⟩
  · rintro ⟨a, rest, hbytes, hnext⟩
    exact ⟨(a, rest), (h _ _ _).2 hbytes, hnext⟩

/-! ### Numbers -/

theorem length_encodeNat (width n : Nat) : (encodeNat width n).length = width := by
  induction width generalizing n with
  | zero => rfl
  | succ width ih => rw [encodeNat, List.length_cons, ih]

theorem decodeNat_encodeNat {width n : Nat} (h : n < 256 ^ width) :
    decodeNat (encodeNat width n) = n := by
  induction width generalizing n with
  | zero => rw [encodeNat, decodeNat]; omega
  | succ width ih =>
    have hrest : n / 256 < 256 ^ width := by
      rw [Nat.pow_succ] at h
      exact Nat.div_lt_of_lt_mul (by omega)
    have hbyte : (UInt8.ofNat n).toNat = n % 256 := UInt8.toNat_ofNat'
    rw [encodeNat, decodeNat, ih hrest, hbyte]
    omega

theorem encodeNat_decodeNat (bytes : List UInt8) :
    encodeNat bytes.length (decodeNat bytes) = bytes := by
  induction bytes with
  | nil => rfl
  | cons b rest ih =>
    have hb := b.toNat_lt
    have hdiv : (b.toNat + 256 * decodeNat rest) / 256 = decodeNat rest := by omega
    have hmod : UInt8.ofNat (b.toNat + 256 * decodeNat rest) = b := by
      rw [← UInt8.toNat_inj, UInt8.toNat_ofNat']
      omega
    rw [List.length_cons, decodeNat, encodeNat, hdiv, hmod, ih]

theorem decodeNat_lt (bytes : List UInt8) : decodeNat bytes < 256 ^ bytes.length := by
  induction bytes with
  | nil => exact Nat.one_pos
  | cons b rest ih =>
    have hb := b.toNat_lt
    rw [decodeNat, List.length_cons, Nat.pow_succ]
    omega

/-- The next bytes are those that stand in front. -/
theorem readBytes_eq_ok {count : Nat} {bytes word rest : List UInt8} :
    readBytes count bytes = .ok (word, rest) ↔ word.length = count ∧ bytes = word ++ rest := by
  unfold readBytes
  constructor
  · intro h
    split at h
    · cases h
    · next hlong =>
      cases h
      exact ⟨List.length_take_of_le (by omega), (List.take_append_drop _ _).symm⟩
  · rintro ⟨rfl, rfl⟩
    rw [if_neg (by simp), List.take_left, List.drop_left]

theorem reads_word : Reads readWord fun w => encodeNat 8 w.toNat := by
  intro bytes w rest
  unfold readWord
  rw [bind_eq_ok]
  constructor
  · rintro ⟨⟨word, rest'⟩, hread, hw⟩
    obtain ⟨hlength, rfl⟩ := readBytes_eq_ok.1 hread
    cases hw
    have hlt : decodeNat word < 2 ^ 64 := by
      have := decodeNat_lt word
      rw [hlength] at this
      omega
    have hword : (UInt64.ofNat (decodeNat word)).toNat = decodeNat word :=
      UInt64.toNat_ofNat_of_lt' hlt
    show word ++ rest = encodeNat 8 _ ++ rest
    rw [hword, ← hlength, encodeNat_decodeNat]
  · rintro rfl
    refine ⟨(encodeNat 8 w.toNat, rest), readBytes_eq_ok.2 ⟨length_encodeNat _ _, rfl⟩, ?_⟩
    have hlt : w.toNat < 256 ^ 8 := w.toNat_lt
    simp only [decodeNat_encodeNat hlt, UInt64.ofNat_toNat]
    rfl

/-! ### Tags, flags and digests -/

theorem readByte_eq_ok {bytes rest : List UInt8} {b : UInt8} :
    readByte bytes = .ok (b, rest) ↔ bytes = b :: rest := by
  cases bytes <;> simp [readByte]

theorem reads_byte : Reads readByte fun b => [b] := fun _ _ _ => readByte_eq_ok

/-- **The tag of an enumeration.** -/
theorem reads_tag [DecidableEq α] {all : List α} (hall : ∀ a, a ∈ all) (hnodup : all.Nodup)
    (hlength : all.length ≤ 256) : Reads (readTag all) fun a => [tagOf all a] := by
  have htag : ∀ (tag : UInt8) (a : α), all[tag.toNat]? = some a ↔ tag = tagOf all a := by
    intro tag a
    have hlt := List.idxOf_lt_length_iff.2 (hall a)
    have hbyte : all.idxOf a < UInt8.size := Nat.lt_of_lt_of_le hlt hlength
    have hindex : (tagOf all a).toNat = all.idxOf a := UInt8.toNat_ofNat_of_lt' hbyte
    constructor
    · intro h
      obtain ⟨hi, rfl⟩ := List.getElem?_eq_some_iff.1 h
      rw [← UInt8.toNat_inj, hindex, hnodup.idxOf_getElem]
    · rintro rfl
      rw [hindex, List.getElem?_idxOf (hall a)]
  intro bytes a rest
  unfold readTag
  rw [reads_byte.bind]
  constructor
  · rintro ⟨tag, rest', rfl, h⟩
    simp only at h
    split at h
    · next hget =>
      cases h
      rw [(htag tag a).1 hget]
    · cases h
  · intro h
    refine ⟨_, rest, h, ?_⟩
    simp only [(htag _ a).2 rfl]
    rfl

theorem reads_flag : Reads readFlag fun b => [if b then 1 else 0] := by
  intro bytes b rest
  unfold readFlag
  rw [reads_byte.bind]
  constructor
  · rintro ⟨byte, rest', rfl, h⟩
    simp only at h
    split_ifs at h with h0 h1 <;> cases h
    · rw [h0]; rfl
    · rw [h1]; rfl
  · intro h
    refine ⟨_, rest, h, ?_⟩
    cases b <;> rfl

theorem reads_hash : Reads readHash ContentHash.bytes := by
  rintro bytes ⟨digest, hdigest⟩ rest
  unfold readHash
  constructor
  · intro h
    split at h
    · cases h
    · cases h
      exact (List.take_append_drop _ _).symm
  · rintro rfl
    rw [dif_neg (by simp [hdigest])]
    simp [← hdigest]

/-- A part that may be missing has one written form if the part has. -/
theorem Reads.option {read : Read α} {encode : α → List UInt8} (h : Reads read encode) :
    Reads (readOption read) (encodeOption encode) := by
  intro bytes a rest
  unfold readOption
  rw [reads_byte.bind]
  constructor
  · rintro ⟨byte, rest', rfl, hnext⟩
    simp only at hnext
    split_ifs at hnext with h0 h1
    · cases hnext
      rw [h0]
      rfl
    · obtain ⟨x, rest'', rfl, hx⟩ := h.bind.1 hnext
      cases hx
      rw [h1]
      rfl
  · rintro rfl
    cases a with
    | none => exact ⟨0, rest, rfl, rfl⟩
    | some x => exact ⟨1, encode x ++ rest, rfl, h.bind.2 ⟨x, rest, rfl, rfl⟩⟩

/-! ### Entries -/

theorem reads_status : Reads readStatus encodeStatus := by
  have hstate : Reads (readTag TransactionState.all) _ :=
    reads_tag (by intro a; cases a <;> decide) (by decide) (by decide)
  have htype : Reads (readTag TransactionType.all) _ :=
    reads_tag (by intro a; cases a <;> decide) (by decide) (by decide)
  intro bytes s rest
  unfold readStatus
  simp only [hstate.bind, htype.bind, pure_eq_ok, Prod.mk.injEq]
  constructor
  · rintro ⟨state, _, rfl, type, _, rfl, rfl, rfl⟩
    rfl
  · rintro rfl
    exact ⟨s.state, _, rfl, s.type, _, rfl, rfl, rfl⟩

theorem reads_key : Reads readKey encodeKey := by
  intro bytes k rest
  unfold readKey encodeKey
  simp only [reads_word.bind, pure_eq_ok, Prod.mk.injEq, List.append_assoc]
  constructor
  · rintro ⟨shard, _, rfl, realm, _, rfl, num, _, rfl, rfl, rfl⟩
    rfl
  · rintro rfl
    exact ⟨k.shard, _, rfl, k.realm, _, rfl, k.num, _, rfl, rfl, rfl⟩

theorem reads_value : Reads readValue encodeValue := by
  have htype : Reads (readTag EntityType.all) _ :=
    reads_tag (by intro a; cases a <;> decide) (by decide) (by decide)
  intro bytes v rest
  unfold readValue encodeValue
  simp only [htype.bind, reads_flag.bind, reads_hash.option.bind, reads_status.option.bind,
    pure_eq_ok, Prod.mk.injEq, List.append_assoc, List.cons_append, List.nil_append]
  constructor
  · rintro ⟨type, _, rfl, errored, _, rfl, hash, _, rfl, submitted, _, rfl, handled, _, rfl,
      history, _, rfl, rfl, rfl⟩
    rfl
  · rintro rfl
    exact ⟨v.entityType, _, rfl, v.isErrored, _, rfl, v.hash, _, rfl, v.submitted, _, rfl,
      v.handled, _, rfl, v.history, _, rfl, rfl, rfl⟩

/-- The entries of a snapshot without their count. -/
def encodeListed (listed : List (EntityKey × ExpectedValue)) : List UInt8 :=
  listed.flatMap fun (key, value) => encodeKey key ++ encodeValue value

theorem readEntries_eq_ok {count : Nat} {bytes rest : List UInt8}
    {listed : List (EntityKey × ExpectedValue)} :
    readEntries count bytes = .ok (listed, rest) ↔
      listed.length = count ∧ bytes = encodeListed listed ++ rest := by
  induction count generalizing bytes listed with
  | zero =>
    rw [readEntries, List.length_eq_zero_iff]
    constructor
    · intro h
      cases h
      exact ⟨rfl, rfl⟩
    · rintro ⟨rfl, rfl⟩
      rfl
  | succ count ih =>
    rw [readEntries]
    simp only [reads_key.bind, reads_value.bind, bind_eq_ok, pure_eq_ok, Prod.mk.injEq]
    constructor
    · rintro ⟨key, _, rfl, value, _, rfl, ⟨later, _⟩, hlater, rfl, rfl⟩
      obtain ⟨hlength, rfl⟩ := ih.1 hlater
      exact ⟨by rw [List.length_cons, hlength], by simp [encodeListed]⟩
    · rintro ⟨hlength, rfl⟩
      cases listed with
      | nil => cases hlength
      | cons entry later =>
        obtain ⟨key, value⟩ := entry
        refine ⟨key, encodeValue value ++ (encodeListed later ++ rest), by simp [encodeListed],
          value, _, rfl, (later, rest), ih.2 ⟨?_, rfl⟩, rfl, rfl⟩
        rw [List.length_cons] at hlength
        omega

/-- **The bytes of a list of entries are read as that list, and no others are.** -/
theorem entries_eq_ok {bytes : List UInt8} {listed : List (EntityKey × ExpectedValue)} :
    entries bytes = .ok listed ↔
      listed.length < UInt32.size ∧ bytes = encodeEntries listed := by
  unfold entries
  simp only [bind_eq_ok, Prod.exists, readBytes_eq_ok, readEntries_eq_ok]
  constructor
  · rintro ⟨count, _, ⟨hcount, rfl⟩, _, rest, ⟨hlength, rfl⟩, hrest⟩
    cases rest with
    | cons b rest => cases hrest
    | nil =>
      cases hrest
      have hlt := decodeNat_lt count
      rw [hcount, ← hlength] at hlt
      refine ⟨hlt, ?_⟩
      unfold encodeEntries
      rw [hlength, ← hcount, encodeNat_decodeNat, List.append_nil]
      rfl
  · rintro ⟨hlt, rfl⟩
    have hlt : listed.length < 256 ^ 4 := hlt
    refine ⟨encodeNat 4 listed.length, encodeListed listed, ⟨length_encodeNat _ _, rfl⟩,
      listed, [], ⟨(decodeNat_encodeNat hlt).symm, (List.append_nil _).symm⟩, rfl⟩

end RunAudit.Snapshot
