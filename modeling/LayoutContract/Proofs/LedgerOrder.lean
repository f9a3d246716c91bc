import LayoutContract.IndexLedger
import Mathlib.Data.List.Sort

/-!
The order in which a ledger reads its entries, and what its verdict says about them. The indices
make up a layout exactly when they are 0, 1, 2 and so on, each once, in whatever order they were
claimed; then the constructors are compared with the member types in the order of the indices.
-/
namespace LayoutContract

/-- The indices 0, 1, 2 and so on of `n` entries without a gap. -/
def firstIndices (n : Nat) : List Int := (List.range n).map fun k : Nat => (k : Int)

/-- Some order of the indices reads 0, 1, 2 and so on. -/
def IsInitialSegment (indices : List Int) : Prop :=
  indices.Perm (firstIndices indices.length)

instance (indices : List Int) : Decidable (IsInitialSegment indices) :=
  inferInstanceAs (Decidable (indices.Perm _))

theorem isInitialSegment_congr {indices indices' : List Int} (h : indices.Perm indices') :
    IsInitialSegment indices ↔ IsInitialSegment indices' := by
  rw [IsInitialSegment, IsInitialSegment, h.length_eq]
  exact ⟨h.symm.trans, h.trans⟩

/-- Pairs have at most one order in which their indices ascend. -/
theorem eq_of_perm_of_ascending {ι : Type} {places places' : List (Int × ι)}
    (hperm : places.Perm places') (h : (places.map (·.1)).Pairwise (· < ·))
    (h' : (places'.map (·.1)).Pairwise (· < ·)) : places = places' := by
  rw [List.pairwise_map] at h h'
  exact hperm.eq_of_pairwise (fun _ _ _ _ hlt hgt => absurd hlt (Int.lt_asymm hgt)) h h'

namespace IndexLedger

variable {ι : Type} {l : IndexLedger ι} {e : IndexEntry ι}

theorem record_of_free (h : e.index ∉ l.claimed) :
    l.record e = (true, ⟨e.index :: l.claimed, l.entries ++ [e]⟩) := by
  rw [record, if_neg h]

theorem record_of_claimed (h : e.index ∈ l.claimed) : l.record e = (false, l) := by
  rw [record, if_pos h]

theorem insertEntry_eq_orderedInsert (e : IndexEntry ι) (entries : List (IndexEntry ι)) :
    insertEntry e entries = entries.orderedInsert (fun a b => a.index ≤ b.index) e := by
  induction entries with
  | nil => rfl
  | cons first rest ih => simp only [insertEntry, List.orderedInsert_cons, ih]

theorem sorted_eq_insertionSort (l : IndexLedger ι) :
    l.sorted = l.entries.insertionSort fun a b => a.index ≤ b.index := by
  unfold sorted
  induction l.entries with
  | nil => rfl
  | cons first rest ih =>
    rw [List.foldr_cons, ih, insertEntry_eq_orderedInsert, List.insertionSort_cons]

theorem sorted_perm (l : IndexLedger ι) : l.sorted.Perm l.entries := by
  rw [sorted_eq_insertionSort]
  exact List.perm_insertionSort _ l.entries

theorem sorted_pairwise_le (l : IndexLedger ι) :
    (l.sorted.map (·.index)).Pairwise (· ≤ ·) := by
  have : Std.Total fun a b : IndexEntry ι => a.index ≤ b.index :=
    ⟨fun a b => Int.le_total a.index b.index⟩
  have : IsTrans (IndexEntry ι) fun a b => a.index ≤ b.index :=
    ⟨fun _ _ _ hab hbc => Int.le_trans hab hbc⟩
  rw [List.pairwise_map, sorted_eq_insertionSort]
  exact List.pairwise_insertionSort _ l.entries

/-- Entries of different indices have one ascending order. -/
theorem sorted_pairwise_lt (h : (l.entries.map (·.index)).Nodup) :
    (l.sorted.map (·.index)).Pairwise (· < ·) := by
  have hnodup : (l.sorted.map (·.index)).Nodup := ((sorted_perm l).map _).nodup_iff.mpr h
  exact (sorted_pairwise_le l).imp₂ (fun _ _ hle hne => lt_of_le_of_ne hle hne) hnodup

/-- The indices and member types of a ledger, in ascending order of the indices. -/
def places (l : IndexLedger ι) : List (Int × ι) := l.sorted.map fun e => (e.index, e.memberType)

theorem map_fst_places (l : IndexLedger ι) : l.places.map (·.1) = l.sorted.map (·.index) := by
  simp [places, Function.comp_def]

theorem map_snd_places (l : IndexLedger ι) : l.places.map (·.2) = l.sorted.map (·.memberType) := by
  simp [places, Function.comp_def]

theorem places_perm (l : IndexLedger ι) :
    l.places.Perm (l.entries.map fun e => (e.index, e.memberType)) :=
  (sorted_perm l).map _

theorem firstGapFrom_eq_none_iff (position : Int) (indices : List Int) :
    firstGapFrom position indices = none ↔
      indices = (List.range indices.length).map fun k : Nat => position + (k : Int) := by
  induction indices generalizing position with
  | nil => simp [firstGapFrom]
  | cons index rest ih =>
    have hshift : ((List.range rest.length).map fun k : Nat => position + 1 + (k : Int)) =
        (List.range rest.length).map fun k : Nat => position + ((k + 1 : Nat) : Int) := by
      apply List.map_congr_left
      intro k _
      omega
    rw [List.length_cons, List.range_succ_eq_map, List.map_cons, List.map_map, List.cons.injEq]
    by_cases hindex : index = position
    · rw [firstGapFrom, if_pos hindex, ih, hshift]
      simp [hindex, Function.comp_def]
    · rw [firstGapFrom, if_neg hindex]
      simp [hindex]

theorem firstGap_eq_none_iff (indices : List Int) :
    firstGap indices = none ↔ indices = firstIndices indices.length := by
  simpa [firstGap, firstIndices] using firstGapFrom_eq_none_iff 0 indices

theorem firstGapFrom_eq_some_iff (position : Int) (indices : List Int) (gap : Int) :
    firstGapFrom position indices = some gap ↔
      ∃ before after, indices = before ++ gap :: after ∧
        firstGapFrom position before = none ∧ gap ≠ position + before.length := by
  induction indices generalizing position with
  | nil => simp [firstGapFrom]
  | cons index rest ih =>
    by_cases hindex : index = position
    · rw [firstGapFrom, if_pos hindex, ih]
      constructor
      · rintro ⟨before, after, rfl, hnone, hgap⟩
        refine ⟨index :: before, after, rfl, ?_, ?_⟩
        · rw [firstGapFrom, if_pos hindex, hnone]
        · rw [List.length_cons]
          omega
      · rintro ⟨before, after, heq, hnone, hgap⟩
        cases before with
        | nil =>
          have hhead : index = gap := (List.cons.inj heq).1
          exact absurd (hhead.symm.trans hindex) (by simpa using hgap)
        | cons first before =>
          obtain ⟨hfirst, hrest⟩ := List.cons.inj heq
          rw [firstGapFrom, if_pos (hfirst ▸ hindex)] at hnone
          rw [List.length_cons] at hgap
          exact ⟨before, after, hrest, hnone, by omega⟩
    · rw [firstGapFrom, if_neg hindex, Option.some.injEq]
      constructor
      · rintro rfl
        exact ⟨[], rest, rfl, rfl, by simpa using hindex⟩
      · rintro ⟨before, after, heq, hnone, hgap⟩
        cases before with
        | nil => exact (List.cons.inj heq).1
        | cons first before =>
          have hfirst : first ≠ position := (List.cons.inj heq).1 ▸ hindex
          rw [firstGapFrom, if_neg hfirst] at hnone
          exact absurd hnone (Option.some_ne_none first)

/-- The first index in ascending order that is not its own position. -/
theorem firstGap_eq_some_iff (indices : List Int) (gap : Int) :
    firstGap indices = some gap ↔
      ∃ before after, indices = before ++ gap :: after ∧
        before = firstIndices before.length ∧ gap ≠ before.length := by
  simpa [firstGap, firstIndices, firstGapFrom_eq_none_iff] using
    firstGapFrom_eq_some_iff 0 indices gap

theorem firstIndices_pairwise_lt (n : Nat) : (firstIndices n).Pairwise (· < ·) := by
  rw [firstIndices, List.pairwise_map]
  exact List.pairwise_lt_range.imp fun h => Int.ofNat_lt.mpr h

/-- Indices in ascending order are without a gap when they are the first ones. -/
theorem firstGap_eq_none_iff_isInitialSegment {indices : List Int}
    (h : indices.Pairwise (· ≤ ·)) :
    firstGap indices = none ↔ IsInitialSegment indices := by
  rw [firstGap_eq_none_iff, IsInitialSegment]
  constructor
  · intro heq
    rw [← heq]
  · intro hperm
    exact hperm.eq_of_pairwise' h ((firstIndices_pairwise_lt indices.length).imp le_of_lt)

section Verdict

variable (qualified : ι → String) (constructors : List (List ι))

theorem accepts_iff (expected parameters : List ι) :
    accepts qualified expected parameters = true ↔
      parameters.map qualified = expected.map qualified := by
  simp [accepts]

theorem verdict_of_gap {index : Int} (h : firstGap (l.places.map (·.1)) = some index) :
    l.verdict qualified constructors = .gap index := by
  rw [map_fst_places] at h
  simp [verdict, h]

theorem verdict_of_accepted (h : firstGap (l.places.map (·.1)) = none)
    (haccepted : l.places = [] ∨ ∃ parameters ∈ constructors,
      parameters.map qualified = l.places.map fun p => qualified p.2) :
    l.verdict qualified constructors = .valid := by
  rw [map_fst_places] at h
  simp only [verdict, h]
  apply if_pos
  simpa [places, accepts_iff, Function.comp_def] using haccepted

theorem verdict_of_rejected (h : firstGap (l.places.map (·.1)) = none) (hplaces : l.places ≠ [])
    (hrejected : ∀ parameters ∈ constructors,
      parameters.map qualified ≠ l.places.map fun p => qualified p.2) :
    l.verdict qualified constructors = .noMatchingConstructor (l.places.map (·.2)) := by
  rw [map_fst_places] at h
  simp only [verdict, h, map_snd_places]
  apply if_neg
  simpa [places, accepts_iff, Function.comp_def] using And.intro hplaces hrejected

/-- The places are all that a verdict is about. -/
theorem verdict_congr {l' : IndexLedger ι} (h : l.places = l'.places) :
    l.verdict qualified constructors = l'.verdict qualified constructors := by
  unfold verdict
  rw [← map_fst_places, ← map_snd_places, h, map_fst_places, map_snd_places]

end Verdict
end IndexLedger
end LayoutContract
