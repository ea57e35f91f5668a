import Mathlib.Data.List.Basic
import RunAudit.Proofs.Agreement
import RunAudit.Proofs.Forks

/-!
# Agreement on signature files

Every node is compared with the first on its list of signature files, and no two others with each
other. A comparison allows for two files at the end, in the number of files and in their names. The
allowances of the two comparisons that tie two nodes together add up, so that any two nodes agree on
their signature files but for four at the end.

* `faultless_sigFindings`: a comparison with the first node says that the lists are equal up to the
  tolerance.
* `sigFiles_of_passes`: what a check that passes says of all nodes.
* `signatures_bounded`: what it says of any two.
-/

namespace RunAudit.Check.Streams

open EventStream

variable {nodes : List (Option StreamData)} {recovered : Bool} {node : Nat}
  {reference d : StreamData}

/-- **A comparison with the first node** finds no fault exactly if the lists of signature files are
equal up to the tolerance. -/
theorem faultless_sigFindings :
    Faultless (sigFindings reference node (some d)) ↔
      EqualUpTo sigTolerance reference.sigFiles d.sigFiles := by
  have hequal : EqualUpTo sigTolerance reference.sigFiles d.sigFiles ↔
      (d.sigFiles.length ≤ reference.sigFiles.length + sigTolerance ∧
        reference.sigFiles.length ≤ d.sigFiles.length + sigTolerance) ∧
      ∀ q, compareLists reference.sigFiles d.sigFiles sigTolerance ≠ .divergesAt q := by
    rw [not_diverges_iff]
    exact ⟨fun h => ⟨⟨h.le_length, h.length_le⟩, h.getElem?_eq⟩, fun h => ⟨h.1.2, h.1.1, h.2⟩⟩
  rw [hequal]
  simp only [sigFindings]
  split
  · next hlong =>
    refine iff_of_false (not_faultless_error _ _) ?_
    rintro ⟨⟨hmine, htheirs⟩, -⟩
    omega
  · next hshort =>
    rw [and_iff_right (by omega)]
    cases compareLists reference.sigFiles d.sigFiles sigTolerance <;> simp

/-- A check without faults compares every node but the first with the first. -/
theorem faultless_referenceFindings (h : Faultless (referenceFindings nodes))
    (hreference : nodes[0]? = some (some reference)) {k : Nat}
    (hk : nodes[k + 1]? = some (some d)) :
    EqualUpTo sigTolerance reference.sigFiles d.sigFiles := by
  cases nodes with
  | nil => cases hreference
  | cons first others =>
    cases hreference
    unfold referenceFindings at h
    exact faultless_sigFindings.1 ((faultless_mapIdx _ _).1 h k (some d) hk)

/-- **What a check that passes says** of the signature files of all nodes: every node has a list
that is equal to that of the first up to the tolerance. -/
theorem sigFiles_of_passes (h : (Validator.streamingServer nodes recovered).Passes) :
    ∃ reference : StreamData, ∀ k, k < nodes.length →
      ∃ d, nodes[k]? = some (some d) ∧
        EqualUpTo sigTolerance reference.sigFiles d.sigFiles := by
  obtain ⟨hall, -⟩ := wellFormed_of_passes h
  obtain ⟨hne, hfindings⟩ := passes_streamingServer.1 h
  simp only [findings, faultless_append] at hfindings
  obtain ⟨⟨⟨-, hreferences⟩, -⟩, -⟩ := hfindings
  obtain ⟨reference, hreference⟩ := hall 0 (List.length_pos_iff.2 hne)
  refine ⟨reference, ?_⟩
  intro k hk
  obtain ⟨d, hd⟩ := hall k hk
  refine ⟨d, hd, ?_⟩
  cases k with
  | zero =>
    rw [hreference] at hd
    cases hd
    exact EqualUpTo.refl _ _
  | succ k => exact faultless_referenceFindings hreferences hreference hd

/-- **Any two nodes agree on their signature files** if the check of event streams passes. Every node
has left a list of them, and the lists of two nodes, neither of which need be the first, differ by at
most four in length and are equal at all places but the last four of the shorter. -/
theorem signatures_bounded (h : (Validator.streamingServer nodes recovered).Passes) :
    ∀ i j, i < nodes.length → j < nodes.length →
      ∃ a b, nodes[i]? = some (some a) ∧ nodes[j]? = some (some b) ∧
        a.sigFiles.length ≤ b.sigFiles.length + 4 ∧ b.sigFiles.length ≤ a.sigFiles.length + 4 ∧
        ∀ p, p + 4 < min a.sigFiles.length b.sigFiles.length → a.sigFiles[p]? = b.sigFiles[p]? := by
  intro i j hi hj
  obtain ⟨reference, hall⟩ := sigFiles_of_passes h
  obtain ⟨a, ha, hra⟩ := hall i hi
  obtain ⟨b, hb, hrb⟩ := hall j hj
  -- by way of the first node
  have hab : EqualUpTo (sigTolerance + sigTolerance) a.sigFiles b.sigFiles := hra.symm.trans hrb
  exact ⟨a, b, ha, hb, hab.length_le, hab.le_length, hab.getElem?_eq⟩

/-- The signature file of an event file that was started at a second of some minute. -/
def signedAt (second : Fin 60) : SigFile :=
  { name := s!"2024-03-01T10_15_{second.val}Z.evts_sig"
    created :=
      { date := ⟨2024, 3, 1, by decide, by decide, by decide⟩
        clock := ⟨10, 15, second, 0, by decide, by decide, by omega, by decide⟩ }
    kind := .event }

/-- A node that signed its event files at some seconds, in their order. -/
def signer (seconds : List (Fin 60)) : StreamData :=
  { finalHash := "F", fileHashes := ["h"], sigFiles := seconds.map signedAt, recoveredMatch := none,
    malformed := [] }

/-- Three nodes. The last two are as far apart as the check allows. -/
def threeSigners : List (Option StreamData) :=
  [some (signer [0, 1, 2, 3, 4, 5, 6]), some (signer [0, 1, 2, 40, 41]),
   some (signer [0, 1, 2, 3, 4, 50, 51, 52, 53])]

theorem signatures_bounded_threeSigners :
    (Validator.streamingServer threeSigners false).Passes ∧
      ∃ a b, threeSigners[1]? = some (some a) ∧ threeSigners[2]? = some (some b) ∧
        b.sigFiles.length = a.sigFiles.length + 4 ∧ a.sigFiles[0]? = b.sigFiles[0]? := by
  have hp : (Validator.streamingServer threeSigners false).Passes := by decide +kernel
  obtain ⟨a, b, ha, hb, -, -, h⟩ := signatures_bounded hp 1 2 (by decide) (by decide)
  cases ha
  cases hb
  exact ⟨hp, _, _, rfl, rfl, by decide +kernel, h 0 (by decide +kernel)⟩

end RunAudit.Check.Streams
