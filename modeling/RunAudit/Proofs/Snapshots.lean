import Mathlib.Data.Nat.Find
import RunAudit.Proofs.Codec

/-!
# Snapshots and their maps

Every map has one canonical snapshot, the one that lists its entries in ascending order. Other
snapshots of the same map list keys in another order, or list some of them more than once; they are
never shorter.

* `decode_eq_ok`: the snapshots of a map are the bytes of the lists of entries that make it up.
* `decodeAll_eq_error`: the failure of a list of snapshots is that of the first that does not
  decode.
* `eq_of_continues`: no snapshot continues another.
* `encodeEntries_eq_iff`: when a snapshot is the canonical one.
* `snapshots_round_trip`: from maps to snapshots and back.
* `canonical_snapshot`: a snapshot compared with others and with the canonical one of its map.
-/

namespace RunAudit.Snapshot

variable {bytes longer : List UInt8} {m : ExpectedMap}
  {listed listed' : List (EntityKey × ExpectedValue)} {reason : WireError}

/-- The order of keys: by shard, then by realm, then by number. -/
def EntityKey.Precedes (a b : EntityKey) : Prop :=
  a.shard < b.shard ∨ a.shard = b.shard ∧ (a.realm < b.realm ∨ a.realm = b.realm ∧ a.num < b.num)

theorem EntityKey.lt_iff_precedes {a b : EntityKey} : a < b ↔ a.Precedes b := by
  have hrank : a < b ↔ a.rank < b.rank := Iff.rfl
  have hra := a.realm.toNat_lt
  have hna := a.num.toNat_lt
  have hrb := b.realm.toNat_lt
  have hnb := b.num.toNat_lt
  unfold Precedes
  rw [hrank, rank, rank]
  simp only [UInt64.size, UInt64.lt_iff_toNat_lt, ← UInt64.toNat_inj]
  omega

/-- **The snapshots of a map** are the bytes of the lists of entries that make it up. -/
theorem decode_eq_ok : decode bytes = .ok m ↔
    ∃ listed, listed.length < UInt32.size ∧ bytes = encodeEntries listed ∧
      Keyed.ofList listed = m := by
  have hentries : decode bytes = .ok m ↔
      ∃ listed, entries bytes = .ok listed ∧ Keyed.ofList listed = m := by
    unfold decode
    cases entries bytes <;> simp [Functor.map, Except.map]
  simp only [hentries, entries_eq_ok, and_assoc]

/-! ### From maps to snapshots and back -/

/-- A map of which the entries can be counted is read back from its snapshot. -/
theorem encode?_eq_some (h : m.entries.length < UInt32.size) :
    encode? m = some (encodeEntries m.entries) ∧ decode (encodeEntries m.entries) = .ok m :=
  ⟨if_pos h, decode_eq_ok.2 ⟨m.entries, h, rfl, m.ofList_entries⟩⟩

/-- The maps of several nodes are read back from their snapshots. -/
theorem decodeAll_encode {maps : List (Option ExpectedMap)}
    (h : ∀ m, some m ∈ maps → m.entries.length < UInt32.size) :
    decodeAll (maps.map (·.bind encode?)) = .ok maps := by
  have hfrom : ∀ node, decodeAll.go node (maps.map (·.bind encode?)) = .ok maps := by
    induction maps with
    | nil => exact fun _ => rfl
    | cons slot maps ih =>
      intro node
      have hlater := ih (fun m hm => h m (List.mem_cons_of_mem _ hm)) (node + 1)
      cases slot with
      | none =>
        rw [List.map_cons, Option.bind_none, decodeAll.go, hlater]
        rfl
      | some m =>
        obtain ⟨hencode, hdecode⟩ := encode?_eq_some (h m List.mem_cons_self)
        rw [List.map_cons, Option.bind_some, hencode, decodeAll.go, hdecode]
        simp only [hlater]
        rfl
  exact hfrom 0

/-! ### Corrupt snapshots -/

/-- The snapshot of a node does not decode, and those of all nodes before it do. -/
structure FirstCorrupt (snapshots : List (Option (List UInt8))) (node : Nat)
    (reason : WireError) : Prop where
  corrupt : ∃ bytes, snapshots[node]? = some (some bytes) ∧ decode bytes = .error reason
  earlier : ∀ i < node, ∀ bytes, snapshots[i]? = some (some bytes) → ∃ m, decode bytes = .ok m

variable {slot : Option (List UInt8)} {snapshots : List (Option (List UInt8))} {node : Nat}

/-- A node without a snapshot, or with one that decodes, is not the first. -/
theorem firstCorrupt_cons (h : ∀ bytes, slot = some bytes → ∃ m, decode bytes = .ok m) :
    FirstCorrupt (slot :: snapshots) node reason ↔
      ∃ later, node = later + 1 ∧ FirstCorrupt snapshots later reason := by
  constructor
  · rintro ⟨⟨bytes, hget, hdecode⟩, hearlier⟩
    cases node with
    | zero =>
      obtain ⟨m, hm⟩ := h bytes (Option.some.inj hget)
      rw [hm] at hdecode
      cases hdecode
    | succ node =>
      exact ⟨node, rfl, ⟨bytes, hget, hdecode⟩, fun i hi => hearlier (i + 1) (by omega)⟩
  · rintro ⟨later, rfl, ⟨bytes, hget, hdecode⟩, hearlier⟩
    refine ⟨⟨bytes, hget, hdecode⟩, fun i hi bytes' hget' => ?_⟩
    cases i with
    | zero => exact h bytes' (Option.some.inj hget')
    | succ i => exact hearlier i (by omega) bytes' hget'

theorem firstCorrupt_head {e : WireError} (h : decode bytes = .error e) :
    FirstCorrupt (some bytes :: snapshots) node reason ↔ node = 0 ∧ reason = e := by
  constructor
  · rintro ⟨⟨bytes', hget, hdecode⟩, hearlier⟩
    cases node with
    | zero =>
      cases hget
      rw [h] at hdecode
      cases hdecode
      exact ⟨rfl, rfl⟩
    | succ node =>
      obtain ⟨m, hm⟩ := hearlier 0 (by omega) bytes rfl
      rw [h] at hm
      cases hm
  · rintro ⟨rfl, rfl⟩
    exact ⟨⟨bytes, rfl, h⟩, fun i hi => absurd hi (Nat.not_lt_zero i)⟩

theorem go_eq_error (start : Nat) :
    decodeAll.go start snapshots = .error (node, reason) ↔
      ∃ i, node = start + i ∧ FirstCorrupt snapshots i reason := by
  induction snapshots generalizing start with
  | nil =>
    refine iff_of_false (by simp [decodeAll.go]) ?_
    rintro ⟨i, -, ⟨bytes, hget, -⟩, -⟩
    cases hget
  | cons slot later ih =>
    -- a slot that decodes hands the failure of the later ones on
    have hpass (h : ∀ bytes, slot = some bytes → ∃ m, decode bytes = .ok m) :
        (∃ i, node = start + i ∧ FirstCorrupt (slot :: later) i reason) ↔
          decodeAll.go (start + 1) later = .error (node, reason) := by
      simp only [ih, firstCorrupt_cons h]
      constructor
      · rintro ⟨_, rfl, i, rfl, hi⟩
        exact ⟨i, by omega, hi⟩
      · rintro ⟨i, rfl, hi⟩
        exact ⟨i + 1, by omega, i, rfl, hi⟩
    cases slot with
    | none =>
      rw [hpass (by simp), decodeAll.go]
      cases decodeAll.go (start + 1) later <;> simp [bind, Except.bind, pure, Except.pure]
    | some bytes =>
      rw [decodeAll.go]
      cases hdecode : decode bytes with
      | error e =>
        simp only [firstCorrupt_head hdecode, Except.error.injEq, Prod.mk.injEq]
        constructor
        · rintro ⟨rfl, rfl⟩
          exact ⟨0, rfl, rfl, rfl⟩
        · rintro ⟨_, rfl, rfl, rfl⟩
          exact ⟨rfl, rfl⟩
      | ok m =>
        rw [hpass (by simp [hdecode])]
        cases decodeAll.go (start + 1) later <;> simp [bind, Except.bind, pure, Except.pure]

/-- **The failure of several snapshots** is that of the first one that does not decode. -/
theorem decodeAll_eq_error :
    decodeAll snapshots = .error (node, reason) ↔ FirstCorrupt snapshots node reason := by
  unfold decodeAll
  simp [go_eq_error]

/-- Where some snapshot does not decode, there is a first one. -/
theorem exists_firstCorrupt :
    (∃ node reason, FirstCorrupt snapshots node reason) ↔
      ∃ (node : Nat) (bytes : List UInt8), snapshots[node]? = some (some bytes) ∧
        ¬ ∃ m, decode bytes = .ok m := by
  constructor
  · rintro ⟨node, reason, ⟨bytes, hget, hdecode⟩, -⟩
    exact ⟨node, bytes, hget, by simp [hdecode]⟩
  · intro h
    classical
    obtain ⟨bytes, hget, hnot⟩ := Nat.find_spec h
    refine ⟨Nat.find h, ?_⟩
    cases hdecode : decode bytes with
    | ok m => exact absurd ⟨m, hdecode⟩ hnot
    | error reason =>
      refine ⟨reason, ⟨bytes, hget, hdecode⟩, fun i hi bytes' hget' => ?_⟩
      by_contra hbad
      exact Nat.find_min h hi ⟨bytes', hget', hbad⟩

/-- **Snapshots round-trip.** A map with fewer than 2 ^ 32 entries has a snapshot, and is read back
from it; so are the maps of several nodes, some of which may have none. Snapshots of several nodes
fail to be read exactly if one of them does not decode, and the failure names the first such
node. -/
theorem snapshots_round_trip :
    (∀ m : ExpectedMap, m.entries.length < 2 ^ 32 →
      ∃ bytes, encode? m = some bytes ∧ decode bytes = .ok m) ∧
    (∀ maps : List (Option ExpectedMap), (∀ m, some m ∈ maps → m.entries.length < 2 ^ 32) →
      decodeAll (maps.map (·.bind encode?)) = .ok maps) ∧
    (∀ snapshots : List (Option (List UInt8)),
      ((∃ failure, decodeAll snapshots = .error failure) ↔
        ∃ (node : Nat) (bytes : List UInt8), snapshots[node]? = some (some bytes) ∧
          ¬ ∃ m, decode bytes = .ok m) ∧
      ∀ node reason, decodeAll snapshots = .error (node, reason) →
        (∃ bytes, snapshots[node]? = some (some bytes) ∧ decode bytes = .error reason) ∧
          ∀ i < node, ∀ bytes, snapshots[i]? = some (some bytes) → ∃ m, decode bytes = .ok m) := by
  refine ⟨fun m hm => ⟨_, encode?_eq_some hm⟩, fun maps hmaps => decodeAll_encode hmaps,
    fun snapshots => ⟨?_, ?_⟩⟩
  · rw [← exists_firstCorrupt, Prod.exists]
    simp only [decodeAll_eq_error]
  · intro node reason h
    have hfirst := decodeAll_eq_error.1 h
    exact ⟨hfirst.corrupt, hfirst.earlier⟩

/-- Entries out of order, the later of two for one key with more to say. -/
def reorderedEntries : List (EntityKey × ExpectedValue) :=
  [(⟨0, 1, 4⟩, { entityType := .file }),
   (⟨0, 0, 9⟩, { entityType := .crypto, submitted := some ⟨.submitted, .transfer⟩ }),
   (⟨0, 1, 4⟩,
    { entityType := .file, hash := some ⟨List.replicate 32 7, rfl⟩,
      handled := some ⟨.handled, .append⟩ })]

/-- The map that they make up. -/
def reorderedMap : ExpectedMap := .ofList reorderedEntries

theorem snapshots_round_trip_reorderedMap :
    reorderedMap.entries.length < 2 ^ 32 ∧
      (∃ bytes, encode? reorderedMap = some bytes ∧ decode bytes = .ok reorderedMap) ∧
      decodeAll ([some reorderedMap, none].map (·.bind encode?)) = .ok [some reorderedMap, none] ∧
      decodeAll [none, some [0, 0, 0, 0], some [], some [1]] = .error (2, .truncated) ∧
      ∀ i < 2, ∀ bytes, [none, some [0, 0, 0, 0], some [], some [1]][i]? = some (some bytes) →
        ∃ m, decode bytes = .ok m := by
  obtain ⟨hone, hseveral, hcorrupt⟩ := snapshots_round_trip
  have hsize : reorderedMap.entries.length < 2 ^ 32 := by cbv
  have hfail : decodeAll [none, some [0, 0, 0, 0], some [], some [1]] = .error (2, .truncated) := by
    cbv
  have hsizes : ∀ m, some m ∈ [some reorderedMap, none] → m.entries.length < 2 ^ 32 := by
    intro m hm
    have heq : m = reorderedMap := by simpa using hm
    rwa [heq]
  obtain ⟨-, hfirst⟩ := hcorrupt [none, some [0, 0, 0, 0], some [], some [1]]
  exact ⟨hsize, hone reorderedMap hsize, hseveral [some reorderedMap, none] hsizes, hfail,
    (hfirst 2 .truncated hfail).2⟩

/-! ### Canonical snapshots -/

/-- No list of entries has bytes that begin with those of another. -/
theorem eq_of_continues (h : listed.length < UInt32.size) (h' : listed'.length < UInt32.size)
    (hp : encodeEntries listed <+: encodeEntries listed') : listed = listed' := by
  obtain ⟨rest, hrest⟩ := hp
  have hsplit : encodeNat 4 listed.length ++ (encodeListed listed ++ rest) =
      encodeNat 4 listed'.length ++ encodeListed listed' := by
    rw [← List.append_assoc]
    exact hrest
  obtain ⟨hcount, hbytes⟩ := List.append_inj hsplit (by rw [length_encodeNat, length_encodeNat])
  have hread : decodeNat (encodeNat 4 listed.length) = listed.length := decodeNat_encodeNat h
  have hread' : decodeNat (encodeNat 4 listed'.length) = listed'.length := decodeNat_encodeNat h'
  have hlength : listed.length = listed'.length := by rw [← hread, hcount, hread']
  -- reading as many entries from the same bytes gives one list
  have hfirst := readEntries_eq_ok.2 ⟨hlength, hbytes.symm⟩
  have hsecond := readEntries_eq_ok.2 ⟨rfl, (List.append_nil (encodeListed listed')).symm⟩
  rw [hfirst] at hsecond
  cases hsecond
  rfl

/-- **A snapshot is the canonical one of its map** exactly if it lists keys in ascending order. -/
theorem encodeEntries_eq_iff (h : listed.length < UInt32.size) :
    encodeEntries (Keyed.ofList listed).entries = encodeEntries listed ↔
      listed.Pairwise fun a b => a.1 < b.1 := by
  constructor
  · intro heq
    have hsize := Nat.lt_of_le_of_lt (Keyed.length_ofList_le listed) h
    have hsame := eq_of_continues hsize h (heq ▸ List.prefix_rfl)
    rw [← hsame]
    exact (Keyed.ofList listed).ascending
  · intro hascending
    rw [Keyed.entries_ofList hascending]

/-- The canonical snapshot of a map is not longer than any other. -/
theorem length_encodeEntries_le (listed : List (EntityKey × ExpectedValue)) :
    (encodeEntries (Keyed.ofList listed).entries).length ≤ (encodeEntries listed).length := by
  have hentries := Keyed.length_flatMap_ofList_le (fun e => encodeKey e.1 ++ encodeValue e.2) listed
  rw [encodeEntries, encodeEntries, List.length_append, List.length_append, length_encodeNat,
    length_encodeNat]
  exact Nat.add_le_add_left hentries 4

/-- **What a snapshot has to do with others.** No snapshot continues another. The canonical snapshot
of its map is read back as that map and is not longer. A snapshot is canonical exactly if it lists
keys in strictly ascending order, by shard, realm and number; if it lists a key several times, the
last listing counts. -/
theorem canonical_snapshot (h : decode bytes = .ok m) :
    (∀ other, other <+: bytes ∨ bytes <+: other → other ≠ bytes →
      ∃ reason, decode other = .error reason) ∧
    ∃ listed canonical, entries bytes = .ok listed ∧ encode? m = some canonical ∧
      decode canonical = .ok m ∧ canonical.length ≤ bytes.length ∧
      (canonical = bytes ↔ listed.Pairwise fun a b => a.1.Precedes b.1) ∧
      ∀ key, m.get? key = ((listed.filter (·.1 = key)).getLast?).map (·.2) := by
  obtain ⟨listed, hsize, rfl, rfl⟩ := decode_eq_ok.1 h
  constructor
  · intro other hother hne
    cases hdecode : decode other with
    | error reason => exact ⟨reason, rfl⟩
    | ok m' =>
      exfalso
      obtain ⟨listed', hsize', rfl, -⟩ := decode_eq_ok.1 hdecode
      rcases hother with hp | hp
      · exact hne (congrArg encodeEntries (eq_of_continues hsize' hsize hp))
      · exact hne (congrArg encodeEntries (eq_of_continues hsize hsize' hp)).symm
  · have hlength := Nat.lt_of_le_of_lt (Keyed.length_ofList_le listed) hsize
    obtain ⟨hencode, hdecode⟩ := encode?_eq_some hlength
    refine ⟨listed, _, entries_eq_ok.2 ⟨hsize, rfl⟩, hencode, hdecode,
      length_encodeEntries_le listed, ?_, Keyed.get?_ofList listed⟩
    rw [encodeEntries_eq_iff hsize]
    simp only [EntityKey.lt_iff_precedes]

theorem canonical_snapshot_reorderedEntries :
    let bytes := encodeEntries reorderedEntries
    decode bytes = .ok reorderedMap ∧
      (∀ other, other <+: bytes ∨ bytes <+: other → other ≠ bytes →
        ∃ reason, decode other = .error reason) ∧
      ∃ listed canonical, entries bytes = .ok listed ∧ encode? reorderedMap = some canonical ∧
        decode canonical = .ok reorderedMap ∧ canonical.length ≤ bytes.length ∧
        (canonical = bytes ↔ listed.Pairwise fun a b => a.1.Precedes b.1) ∧
        ∀ key, reorderedMap.get? key = ((listed.filter (·.1 = key)).getLast?).map (·.2) := by
  have h : decode (encodeEntries reorderedEntries) = .ok reorderedMap := by cbv
  exact ⟨h, canonical_snapshot h⟩

end RunAudit.Snapshot

