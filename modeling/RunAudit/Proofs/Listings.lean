import Mathlib.Data.Prod.Lex
import Mathlib.Data.String.Basic
import RunAudit.Check.Streams
import RunAudit.Proofs.Trimming

/-!
# Listings of signature files

A listing has the name of one signature file on each line. No name is lost: those of signature files
are sorted, and the others are kept apart in the order of the text. The order of signature files is
that of a key which tells them all apart, so their sorted list depends only on which lines there are
and not on how they follow each other.

* `SigFile.key`, `SigFile.le_iff`, `SigFile.key_injective`: the order, and that no two signature
  files are equal in it.
* `SigFile.parse_name`: the name of a signature file is read as it stands.
* `names_ofTexts`, `malformed_ofTexts`: where the lines of a listing go.
* `SigFile.sort_eq_of_perm`: a sorted list does not depend on the order of what is sorted.
* `listings_conserved`: what is made of a listing.
-/

namespace RunAudit.EventStream

open RunAudit.Text

theorem SigKind.rank_injective {a b : SigKind} (h : a.rank = b.rank) : a = b := by
  cases a with
  | event =>
    cases b with
    | event => rfl
    | record => cases h
  | record =>
    cases b with
    | event => cases h
    | record => rfl

namespace SigFile

variable {name : String} {a b f : SigFile} {files files' : List SigFile}

/-! ### The order -/

/-- **The key of the order**: the instant, then the kind, then the name. -/
def key (f : SigFile) : Int ×ₗ Nat ×ₗ String :=
  toLex (f.created.rank, toLex (f.kind.rank, f.name))

theorem le_iff : a.le b = true ↔ a.key ≤ b.key := by
  unfold le key
  rw [Prod.Lex.toLex_le_toLex, Prod.Lex.toLex_le_toLex]
  by_cases hcreated : a.created.rank = b.created.rank
  · by_cases hkind : a.kind.rank = b.kind.rank
    · simp [hcreated, hkind]
    · simp [hcreated, hkind]
  · simp [hcreated]

/-- **No two signature files are equal in the order.** -/
theorem key_injective (h : a.key = b.key) : a = b := by
  have hparts := toLex_inj.1 h
  obtain ⟨hcreated, hrest⟩ := Prod.mk.inj hparts
  obtain ⟨hkind, hname⟩ := Prod.mk.inj (toLex_inj.1 hrest)
  obtain ⟨na, ca, ka⟩ := a
  obtain ⟨nb, cb, kb⟩ := b
  simp only [mk.injEq]
  exact ⟨hname, Time.Instant.rank_injective hcreated, SigKind.rank_injective hkind⟩

theorem eq_of_le_of_le (hab : a.le b = true) (hba : b.le a = true) : a = b := by
  rw [le_iff] at hab hba
  exact key_injective (hab.antisymm hba)

/-- **A sorted list is in order.** -/
theorem pairwise_sort (files : List SigFile) : (sort files).Pairwise fun a b => a.key ≤ b.key := by
  have hsorted : (sort files).Pairwise fun a b => a.le b = true := by
    refine List.pairwise_mergeSort ?_ ?_ files
    · intro a b c hab hbc
      rw [le_iff] at hab hbc ⊢
      exact le_trans hab hbc
    · intro a b
      rw [Bool.or_eq_true, le_iff, le_iff]
      exact le_total a.key b.key
  exact hsorted.imp fun h => le_iff.1 h

/-- **A sorted list does not depend on the order of what is sorted.** -/
theorem sort_eq_of_perm (h : files.Perm files') : sort files = sort files' := by
  have hperm : (sort files).Perm (sort files') :=
    (List.mergeSort_perm files le).trans (h.trans (List.mergeSort_perm files' le).symm)
  refine List.Perm.eq_of_pairwise ?_ (pairwise_sort files) (pairwise_sort files') hperm
  intro a b _ _ hab hba
  exact key_injective (hab.antisymm hba)

/-! ### Names -/

/-- Blanks around a name do not matter. -/
theorem parse_trimmed (name : String) : parse (trimmed name) = parse name := by
  unfold parse trimmed
  rw [String.toList_ofList, trim_trim]

/-- **A name is kept**, whether it is that of a signature file or not. -/
theorem parse_cases (name : String) :
    (∃ f, parse name = .ok f ∧ f.name = trimmed name) ∨ parse name = .error (trimmed name) := by
  unfold parse trimmed
  simp only
  split
  · next f hf =>
    refine .inl ⟨f, rfl, ?_⟩
    simp only [Option.bind_eq_bind, Option.bind_eq_some_iff, Option.pure_def,
      Option.some.injEq] at hf
    obtain ⟨_, -, _, -, _, -, rfl⟩ := hf
    rfl
  · exact .inr rfl

/-- **The name of a signature file is read as it stands.** -/
theorem parse_name (h : parse name = .ok f) : parse f.name = .ok f := by
  rcases parse_cases name with ⟨g, hg, hname⟩ | herror
  · obtain rfl : g = f := Except.ok.inj (hg.symm.trans h)
    rw [hname, parse_trimmed, h]
  · cases herror.symm.trans h

/-- Whether a line names a signature file. -/
def isName (line : String) : Bool := (parse line).toOption.isSome

end SigFile

namespace StreamData

variable {listing : String} {lines : List String}

theorem trimmed_of_mem {line : String} (h : line ∈ contentLines listing) : trimmed line = line := by
  obtain ⟨piece, -, rfl⟩ := List.mem_map.1 (List.mem_filter.1 h).1
  rw [trimmed, String.toList_ofList, trim_trim]

/-- A line of a listing names a signature file or is given back as it stands. -/
theorem parse_line {line : String} (h : trimmed line = line) :
    (SigFile.isName line = true ∧ ∃ f, SigFile.parse line = .ok f ∧ f.name = line) ∨
      (SigFile.isName line = false ∧ SigFile.parse line = .error line) := by
  unfold SigFile.isName
  rcases SigFile.parse_cases line with ⟨f, hf, hname⟩ | herror
  · refine .inl ⟨?_, f, hf, hname.trans h⟩
    rw [hf]
    rfl
  · rw [h] at herror
    refine .inr ⟨?_, herror⟩
    rw [herror]
    rfl

section Texts

variable (finalHash fileHashes : String) (recoveredMatch : Option String)

/-- **The lines that name signature files** are sorted. -/
theorem names_ofTexts (listing : String) :
    ((ofTexts finalHash fileHashes listing recoveredMatch).sigFiles.map (·.name)).Perm
      ((contentLines listing).filter SigFile.isName) := by
  have hsorted : (ofTexts finalHash fileHashes listing recoveredMatch).sigFiles =
      SigFile.sort (((contentLines listing).map SigFile.parse).filterMap (·.toOption)) := rfl
  have hnames : (((contentLines listing).map SigFile.parse).filterMap (·.toOption)).map (·.name) =
      (contentLines listing).filter SigFile.isName := by
    rw [List.filterMap_map, List.map_filterMap, ← List.filterMap_eq_filter]
    refine List.filterMap_congr fun line hline => ?_
    rcases parse_line (trimmed_of_mem hline) with ⟨hyes, f, hf, hname⟩ | ⟨hno, herror⟩
    · rw [Function.comp_apply, hf, Option.guard_pos hyes, ← hname]
      rfl
    · rw [Function.comp_apply, herror, Option.guard, hno]
      rfl
  rw [hsorted, ← hnames]
  exact (List.mergeSort_perm _ SigFile.le).map _

/-- **The lines that name none** are kept apart, in the order of the text. -/
theorem malformed_ofTexts (listing : String) :
    (ofTexts finalHash fileHashes listing recoveredMatch).malformed =
      (contentLines listing).filter (! SigFile.isName ·) := by
  rw [← List.filterMap_eq_filter]
  refine List.filterMap_map.trans (List.filterMap_congr fun line hline => ?_)
  rcases parse_line (trimmed_of_mem hline) with ⟨hyes, f, hf, -⟩ | ⟨hno, herror⟩
  · rw [Function.comp_apply, hf, Option.guard, hyes]
    rfl
  · rw [Function.comp_apply, herror, Option.guard, hno]
    rfl

end Texts

/-- **Which lines a listing has** decides on its signature files, and not how they follow each
other. The other texts do not matter. -/
theorem sigFiles_eq_of_perm {finalHash finalHash' fileHashes fileHashes' listing listing' : String}
    {recoveredMatch recoveredMatch' : Option String}
    (h : (contentLines listing).Perm (contentLines listing')) :
    (ofTexts finalHash fileHashes listing recoveredMatch).sigFiles =
      (ofTexts finalHash' fileHashes' listing' recoveredMatch').sigFiles :=
  SigFile.sort_eq_of_perm ((h.map SigFile.parse).filterMap (·.toOption))

end StreamData

end RunAudit.EventStream

namespace RunAudit.Check.Streams

open EventStream Text

variable {nodes nodes' : List (Option StreamData)} {a b : StreamData} {d d' : Option StreamData}

/-- What a comparison with the first node says depends on nothing but signature files. -/
theorem sigFindings_congr (h : a.sigFiles = b.sigFiles)
    (hd : d.map (·.sigFiles) = d'.map (·.sigFiles)) (node : Nat) :
    sigFindings a node d = sigFindings b node d' := by
  cases d with
  | none =>
    cases d' with
    | none => rfl
    | some d' => cases hd
  | some d =>
    cases d' with
    | none => cases hd
    | some d' =>
      have hfiles : d.sigFiles = d'.sigFiles := Option.some.inj hd
      simp only [sigFindings, h, hfiles]

/-- **The findings on signature files** depend on nothing else that nodes left. -/
theorem referenceFindings_congr
    (h : nodes.map (·.map (·.sigFiles)) = nodes'.map (·.map (·.sigFiles))) :
    referenceFindings nodes = referenceFindings nodes' := by
  cases nodes with
  | nil =>
    obtain rfl : nodes' = [] := List.map_eq_nil_iff.1 h.symm
    rfl
  | cons first others =>
    obtain ⟨first', others', rfl, hfirst, hothers⟩ := List.map_eq_cons_iff.1 h.symm
    cases first with
    | none =>
      obtain rfl : first' = none := Option.map_eq_none_iff.1 hfirst
      rfl
    | some a =>
      obtain ⟨b, rfl, hfiles⟩ := Option.map_eq_some_iff.1 hfirst
      refine congrArg List.flatten (List.ext_getElem? fun i => ?_)
      have hplace : (others[i]?).map (·.map (·.sigFiles)) =
          (others'[i]?).map (·.map (·.sigFiles)) := by
        rw [← List.getElem?_map, ← List.getElem?_map, hothers]
      rw [List.getElem?_mapIdx, List.getElem?_mapIdx]
      cases ho : others[i]? with
      | none =>
        rw [ho] at hplace
        rw [Option.map_eq_none_iff.1 hplace.symm]
        rfl
      | some d =>
        rw [ho] at hplace
        obtain ⟨d', hd', hsigned⟩ := Option.map_eq_some_iff.1 hplace.symm
        rw [hd', Option.map_some, Option.map_some, sigFindings_congr hfiles.symm hsigned.symm]

/-- **What is made of a listing of signature files.** Every line that is not blank comes out once,
without the blanks around it: as the name of a signature file, or among the malformed lines, and no
line as both. Those keep the order of the text, and the signature files are in the order of their
keys, in which no two are equal; the name of each is read as that file again. A listing with the
same lines in another order, blank lines and blanks around a line apart, gives the same signature
files, so the check finds the same on them, at whatever place the node stands and whatever the other
nodes left. -/
theorem listings_conserved (finalHash fileHashes listing : String)
    (recoveredMatch : Option String) :
    let d : StreamData := .ofTexts finalHash fileHashes listing recoveredMatch
    (d.sigFiles.map (·.name) ++ d.malformed).Perm (StreamData.contentLines listing) ∧
    (∀ f ∈ d.sigFiles, f.name ∉ d.malformed) ∧
    d.malformed = (StreamData.contentLines listing).filter
      (fun line => (SigFile.parse line).toOption.isNone) ∧
    d.sigFiles.Pairwise (fun a b => a.key ≤ b.key) ∧
    (∀ a b : SigFile, (a.le b = true ↔ a.key ≤ b.key) ∧
      (a.le b = true → b.le a = true → a = b)) ∧
    (∀ line f, SigFile.parse line = .ok f → SigFile.parse f.name = .ok f) ∧
    ∀ finalHash' fileHashes' listing' recoveredMatch',
      (StreamData.contentLines listing').Perm (StreamData.contentLines listing) →
      let d' : StreamData := .ofTexts finalHash' fileHashes' listing' recoveredMatch'
      d'.sigFiles = d.sigFiles ∧
        ∀ (nodes : List (Option StreamData)) (place : Nat),
          referenceFindings (nodes.set place (some d')) =
            referenceFindings (nodes.set place (some d)) := by
  intro d
  have hnames := StreamData.names_ofTexts finalHash fileHashes recoveredMatch listing
  have hmalformed := StreamData.malformed_ofTexts finalHash fileHashes recoveredMatch listing
  refine ⟨?_, ?_, ?_, SigFile.pairwise_sort _, fun a b => ⟨SigFile.le_iff, SigFile.eq_of_le_of_le⟩,
    fun line f => SigFile.parse_name, ?_⟩
  · rw [hmalformed]
    exact (hnames.append_right _).trans (List.filter_append_perm _ _)
  · intro f hf hmem
    rw [hmalformed] at hmem
    have hno := (List.mem_filter.1 hmem).2
    have hyes := (List.mem_filter.1 (hnames.subset (List.mem_map_of_mem hf))).2
    rw [hyes] at hno
    cases hno
  · rw [hmalformed]
    exact List.filter_congr fun line _ => Option.not_isSome _
  · intro finalHash' fileHashes' listing' recoveredMatch' hlines
    have hfiles : (StreamData.ofTexts finalHash' fileHashes' listing' recoveredMatch').sigFiles =
        d.sigFiles := StreamData.sigFiles_eq_of_perm hlines
    refine ⟨hfiles, fun nodes place => referenceFindings_congr ?_⟩
    rw [List.map_set, List.map_set, Option.map_some, Option.map_some, hfiles]

end RunAudit.Check.Streams
