import LayoutContract.Proofs.MemberBlocks
import Mathlib.Data.Finset.Card
import Mathlib.Data.List.Forall2
import Mathlib.Order.Bounds.Basic

/-!
What the verdict on a ledger says, told without the order in which the ledger is read. The indices
that are held, as a set, decide whether there is a gap and at which index it shows; then the member
types, put in the order of their indices, are compared with the constructors. A ledger holds each
index once, so the order of the claims leaves no trace in the verdict.
-/
namespace LayoutContract

/-- The index at which the gap shows: the least one when that is negative, and otherwise the least
one behind the least natural number that is missing. -/
def ShowsGap (held : Finset Int) (index : Int) : Prop :=
  (index < 0 ∧ IsLeast (held : Set Int) index) ∨
    (∀ i ∈ held, 0 ≤ i) ∧ ∃ missing : Nat,
      IsLeast {n : Nat | (n : Int) ∉ held} missing ∧
      IsLeast {i | i ∈ held ∧ (missing : Int) < i} index

theorem ShowsGap.unique {held : Finset Int} {index index' : Int} (h : ShowsGap held index)
    (h' : ShowsGap held index') : index = index' := by
  rcases h with ⟨hneg, hleast⟩ | ⟨hnonneg, missing, hmissing, hleast⟩ <;>
    rcases h' with ⟨hneg', hleast'⟩ | ⟨hnonneg', missing', hmissing', hleast'⟩
  · exact hleast.unique hleast'
  · exact absurd (hnonneg' index hleast.1) (not_le.mpr hneg)
  · exact absurd (hnonneg index' hleast'.1) (not_le.mpr hneg')
  · rw [hmissing.unique hmissing'] at hleast
    exact hleast.unique hleast'

section Ascending

theorem mem_firstIndices_iff {n : Nat} {i : Int} : i ∈ firstIndices n ↔ 0 ≤ i ∧ i < n := by
  simp only [firstIndices, List.mem_map, List.mem_range]
  constructor
  · rintro ⟨k, hk, rfl⟩
    omega
  · rintro ⟨hnonneg, hlt⟩
    exact ⟨i.toNat, by omega, by omega⟩

/-- No gap shows where the indices are the first ones. -/
theorem not_showsGap_firstIndices (n : Nat) (index : Int) :
    ¬ ShowsGap (firstIndices n).toFinset index := by
  have hmem (i : Int) : i ∈ (firstIndices n).toFinset ↔ 0 ≤ i ∧ i < n := by
    rw [List.mem_toFinset, mem_firstIndices_iff]
  rintro (⟨hneg, hleast⟩ | ⟨-, missing, hmissing, hleast⟩)
  · have hindex := (hmem index).mp hleast.1
    omega
  · have hindex := (hmem index).mp hleast.1.1
    have hlt := hleast.1.2
    exact hmissing.1 ((hmem missing).mpr ⟨by omega, by omega⟩)

theorem showsGap_of_negative {index : Int} {after : List Int}
    (h : (index :: after).Pairwise (· < ·)) (hneg : index < 0) :
    ShowsGap (index :: after).toFinset index := by
  refine .inl ⟨hneg, by simp, fun i hi => ?_⟩
  rw [Finset.mem_coe, List.mem_toFinset] at hi
  rcases List.mem_cons.mp hi with rfl | hi
  · exact le_refl i
  · exact le_of_lt ((List.pairwise_cons.mp h).1 i hi)

/-- Behind the first indices, an index that is too large shows that its position is missing. -/
theorem showsGap_of_missing {n : Nat} {index : Int} {after : List Int}
    (h : (firstIndices n ++ index :: after).Pairwise (· < ·)) (hlarge : (n : Int) < index) :
    ShowsGap (firstIndices n ++ index :: after).toFinset index := by
  have hafter : ∀ i ∈ after, index < i :=
    (List.pairwise_cons.mp (List.pairwise_append.mp h).2.1).1
  have hmem (i : Int) : i ∈ (firstIndices n ++ index :: after).toFinset ↔
      (0 ≤ i ∧ i < n) ∨ i = index ∨ i ∈ after := by
    rw [List.mem_toFinset, List.mem_append, List.mem_cons, mem_firstIndices_iff]
  have hlarger {i : Int} (hi : i = index ∨ i ∈ after) : index ≤ i :=
    hi.elim (fun heq => le_of_eq heq.symm) fun hi => le_of_lt (hafter i hi)
  refine .inr ⟨fun i hi => ?_, n, ⟨fun hheld => ?_, fun k hk => ?_⟩, ⟨?_, hlarge⟩, ?_⟩
  · rcases (hmem i).mp hi with hi | hi
    · exact hi.1
    · have hle := hlarger hi
      omega
  · rcases (hmem n).mp hheld with hi | hi
    · omega
    · have hle := hlarger hi
      omega
  · by_contra hsmall
    exact hk ((hmem k).mpr (.inl ⟨by omega, by omega⟩))
  · exact (hmem index).mpr (.inr (.inl rfl))
  · rintro i ⟨hi, hgreater⟩
    rcases (hmem i).mp hi with hi | hi
    · omega
    · exact hlarger hi

namespace IndexLedger

variable {indices : List Int} {index : Int}

/-- In ascending order, the first index that is not its own position is where the gap shows. -/
theorem showsGap_of_firstGap (h : indices.Pairwise (· < ·)) (hgap : firstGap indices = some index) :
    ShowsGap indices.toFinset index := by
  obtain ⟨before, after, rfl, hbefore, hne⟩ := (firstGap_eq_some_iff _ _).mp hgap
  rw [hbefore] at h ⊢
  rcases lt_or_gt_of_ne hne with hsmall | hlarge
  · -- An index that is too small cannot stand behind all indices before its position.
    cases hlength : before.length with
    | zero =>
      rw [hlength] at h hsmall
      exact showsGap_of_negative h hsmall
    | succ n =>
      have hlast : (n : Int) ∈ firstIndices before.length :=
        mem_firstIndices_iff.mpr ⟨by omega, by omega⟩
      have hlt := (List.pairwise_append.mp h).2.2 n hlast index List.mem_cons_self
      omega
  · exact showsGap_of_missing h hlarge

theorem toFinset_of_firstGap_eq_none (h : firstGap indices = none) :
    indices.toFinset = (firstIndices indices.length).toFinset := by
  rw [← (firstGap_eq_none_iff indices).mp h]

theorem firstGap_eq_none_iff_toFinset (h : indices.Pairwise (· < ·)) :
    firstGap indices = none ↔ indices.toFinset = (firstIndices indices.length).toFinset := by
  refine ⟨toFinset_of_firstGap_eq_none, fun hheld => ?_⟩
  cases hgap : firstGap indices with
  | none => rfl
  | some index =>
    have hshows := showsGap_of_firstGap h hgap
    rw [hheld] at hshows
    exact absurd hshows (not_showsGap_firstIndices _ index)

end IndexLedger
end Ascending

namespace IndexLedger

variable {ι : Type} {l : IndexLedger ι} {claims claims' : List (IndexEntry ι)}

/-- The ledger after the given claims, in their order. -/
def recording (claims : List (IndexEntry ι)) : IndexLedger ι :=
  claims.foldl (fun l e => (l.record e).2) .empty

def held (l : IndexLedger ι) : Finset Int := (l.entries.map (·.index)).toFinset

/-- What a ledger keeps track of: it refuses the indices of its entries, and each has one entry. -/
structure HoldsEachOnce (l : IndexLedger ι) : Prop where
  claimed : ∀ index, index ∈ l.claimed ↔ index ∈ l.entries.map (·.index)
  nodup : (l.entries.map (·.index)).Nodup

theorem recording_concat (claims : List (IndexEntry ι)) (e : IndexEntry ι) :
    recording (claims ++ [e]) = ((recording claims).record e).2 := by
  rw [recording, List.foldl_append]
  rfl

theorem HoldsEachOnce.record (h : l.HoldsEachOnce) (e : IndexEntry ι) :
    (l.record e).2.HoldsEachOnce := by
  by_cases hclaimed : e.index ∈ l.claimed
  · rw [record_of_claimed hclaimed]
    exact h
  · rw [record_of_free hclaimed]
    constructor
    · intro index
      rw [List.mem_cons, List.map_append, List.mem_append, h.claimed, or_comm]
      simp
    · have hnew : e.index ∉ l.entries.map (·.index) := fun hmem =>
        hclaimed ((h.claimed e.index).mpr hmem)
      rw [List.map_append]
      exact List.nodup_append'.mpr ⟨h.nodup, List.nodup_singleton _, by simpa using hnew⟩

theorem holdsEachOnce_recording (claims : List (IndexEntry ι)) :
    (recording claims).HoldsEachOnce := by
  induction claims using List.reverseRecOn with
  | nil => exact ⟨fun _ => .rfl, List.nodup_nil⟩
  | append_singleton claims e ih =>
    rw [recording_concat]
    exact ih.record e

/-- A claim makes its index held, whether it is accepted or refused. -/
theorem HoldsEachOnce.held_record (h : l.HoldsEachOnce) (e : IndexEntry ι) :
    (l.record e).2.held = insert e.index l.held := by
  by_cases hclaimed : e.index ∈ l.claimed
  · have hheld : e.index ∈ l.held := List.mem_toFinset.mpr ((h.claimed e.index).mp hclaimed)
    rw [record_of_claimed hclaimed, Finset.insert_eq_of_mem hheld]
  · rw [record_of_free hclaimed]
    ext index
    simp [held]

theorem held_recording (claims : List (IndexEntry ι)) :
    (recording claims).held = (claims.map (·.index)).toFinset := by
  induction claims using List.reverseRecOn with
  | nil => rfl
  | append_singleton claims e ih =>
    rw [recording_concat, (holdsEachOnce_recording claims).held_record e, ih]
    ext index
    simp

/-- Claims of different indices are all accepted. -/
theorem entries_recording (h : (claims.map (·.index)).Nodup) :
    (recording claims).entries = claims := by
  induction claims using List.reverseRecOn with
  | nil => rfl
  | append_singleton claims e ih =>
    rw [List.map_append, List.nodup_append'] at h
    obtain ⟨hnodup, -, hdisjoint⟩ := h
    have hfree : e.index ∉ (recording claims).claimed := by
      rw [(holdsEachOnce_recording claims).claimed, ih hnodup]
      exact fun hmem => hdisjoint hmem (by simp)
    rw [recording_concat, record_of_free hfree, ih hnodup]

theorem HoldsEachOnce.ascending (h : l.HoldsEachOnce) :
    (l.places.map (·.1)).Pairwise (· < ·) := by
  rw [map_fst_places]
  exact sorted_pairwise_lt h.nodup

theorem toFinset_places (l : IndexLedger ι) : (l.places.map (·.1)).toFinset = l.held := by
  rw [map_fst_places]
  exact List.toFinset_eq_of_perm _ _ ((sorted_perm l).map _)

theorem length_places (l : IndexLedger ι) : l.places.length = l.length := by
  rw [(places_perm l).length_eq, List.length_map, length]

theorem HoldsEachOnce.card_held (h : l.HoldsEachOnce) : l.held.card = l.length := by
  rw [held, List.toFinset_card_of_nodup h.nodup, List.length_map, length]

/-- Different indices are put in one order, however they were claimed. -/
theorem places_recording_of_perm (hperm : claims.Perm claims')
    (hdistinct : (claims.map (·.index)).Nodup) :
    (recording claims').places = (recording claims).places := by
  have hdistinct' : (claims'.map (·.index)).Nodup := (hperm.map _).nodup_iff.mp hdistinct
  apply eq_of_perm_of_ascending _ (holdsEachOnce_recording claims').ascending
    (holdsEachOnce_recording claims).ascending
  refine (places_perm _).trans (.trans ?_ (places_perm _).symm)
  rw [entries_recording hdistinct, entries_recording hdistinct']
  exact (hperm.map _).symm

end IndexLedger

namespace TypeGraph

variable (g : TypeGraph) (i : g.Handle)

/-- Some constructor takes exactly the types of the places, one after the other. Types are
compared by their qualified names. -/
def TakesInOrder (places : List (Int × g.Handle)) : Prop :=
  ∃ parameters ∈ (g.typeAt i).constructors,
    List.Forall₂ (fun j p => (g.typeAt j).qualifiedName = (g.typeAt p.2).qualifiedName)
      parameters places

/-- The verdict that the held indices call for, with their places in ascending order. -/
inductive CallsFor (held : Finset Int) (places : List (Int × g.Handle)) :
    LayoutVerdict g.Handle → Prop
  | gap {index : Int} (hheld : held ≠ (firstIndices held.card).toFinset)
      (hindex : ShowsGap held index) : CallsFor held places (.gap index)
  | valid (hheld : held = (firstIndices held.card).toFinset)
      (htakes : held.card = 0 ∨ g.TakesInOrder i places) : CallsFor held places .valid
  | noMatchingConstructor (hheld : held = (firstIndices held.card).toFinset)
      (hcard : held.card ≠ 0) (htakes : ¬ g.TakesInOrder i places) :
      CallsFor held places (.noMatchingConstructor (places.map (·.2)))

variable {g i} {held : Finset Int} {places : List (Int × g.Handle)}
  {verdict verdict' : LayoutVerdict g.Handle}

theorem CallsFor.unique (h : g.CallsFor i held places verdict)
    (h' : g.CallsFor i held places verdict') : verdict = verdict' := by
  cases h with
  | gap hheld hindex =>
    cases h' with
    | gap _ hindex' => rw [hindex.unique hindex']
    | valid hheld' => exact absurd hheld' hheld
    | noMatchingConstructor hheld' => exact absurd hheld' hheld
  | valid hheld htakes =>
    cases h' with
    | gap hheld' => exact absurd hheld hheld'
    | valid => rfl
    | noMatchingConstructor _ hcard hrejects => exact absurd htakes (not_or.mpr ⟨hcard, hrejects⟩)
  | noMatchingConstructor hheld hcard hrejects =>
    cases h' with
    | gap hheld' => exact absurd hheld hheld'
    | valid _ htakes => exact absurd htakes (not_or.mpr ⟨hcard, hrejects⟩)
    | noMatchingConstructor => rfl

theorem takesInOrder_iff : g.TakesInOrder i places ↔
    ∃ parameters ∈ (g.typeAt i).constructors,
      parameters.map (fun j => (g.typeAt j).qualifiedName) =
        places.map fun p => (g.typeAt p.2).qualifiedName := by
  simp only [TakesInOrder, ← List.forall₂_eq_eq_eq, List.forall₂_map_left_iff,
    List.forall₂_map_right_iff]

/-- The verdict on a ledger is the one that its indices call for. -/
theorem callsFor_layoutVerdict {l : IndexLedger g.Handle} (h : l.HoldsEachOnce) :
    g.CallsFor i l.held l.places (g.layoutVerdict l i) := by
  have hheld : IndexLedger.firstGap (l.places.map (·.1)) = none ↔
      l.held = (firstIndices l.held.card).toFinset := by
    rw [IndexLedger.firstGap_eq_none_iff_toFinset h.ascending, l.toFinset_places, List.length_map,
      l.length_places, h.card_held]
  have hempty : l.held.card = 0 ↔ l.places = [] := by
    rw [h.card_held, ← l.length_places, List.length_eq_zero_iff]
  unfold layoutVerdict
  cases hgap : IndexLedger.firstGap (l.places.map (·.1)) with
  | some index =>
    rw [IndexLedger.verdict_of_gap _ _ hgap]
    refine .gap (fun heq => ?_) ?_
    · rw [hheld.mpr heq] at hgap
      cases hgap
    · have hshows := IndexLedger.showsGap_of_firstGap h.ascending hgap
      rwa [l.toFinset_places] at hshows
  | none =>
    by_cases htakes : l.held.card = 0 ∨ g.TakesInOrder i l.places
    · have haccepted := htakes
      rw [hempty, takesInOrder_iff] at haccepted
      rw [IndexLedger.verdict_of_accepted _ _ hgap haccepted]
      exact .valid (hheld.mp hgap) htakes
    · obtain ⟨hcard, hrejects⟩ := not_or.mp htakes
      have hrejected := hrejects
      rw [takesInOrder_iff] at hrejected
      rw [IndexLedger.verdict_of_rejected _ _ hgap (fun hplaces => hcard (hempty.mpr hplaces))
        fun parameters hmem heq => hrejected ⟨parameters, hmem, heq⟩]
      exact .noMatchingConstructor (hheld.mp hgap) hcard hrejects

/-- The verdict on a ledger, whatever was claimed: it shows the gap of the held indices, or else it
compares the constructors with the member types in the order of their indices. To claim different
indices in another order leads to the same verdict. -/
theorem verdict_called_for_by_held (g : TypeGraph) (i : g.Handle)
    (claims : List (IndexEntry g.Handle)) :
    (IndexLedger.recording claims).held = (claims.map (·.index)).toFinset ∧
      (IndexLedger.recording claims).length = (IndexLedger.recording claims).held.card ∧
      (∃ places : List (Int × g.Handle),
        places.Perm
          ((IndexLedger.recording claims).entries.map fun e => (e.index, e.memberType)) ∧
        (places.map (·.1)).Pairwise (· < ·) ∧
        ∀ verdict, g.layoutVerdict (.recording claims) i = verdict ↔
          g.CallsFor i (IndexLedger.recording claims).held places verdict) ∧
      ∀ claims', claims.Perm claims' → (claims.map (·.index)).Nodup →
        g.layoutVerdict (.recording claims') i = g.layoutVerdict (.recording claims) i := by
  have hledger := IndexLedger.holdsEachOnce_recording claims
  refine ⟨IndexLedger.held_recording claims, hledger.card_held.symm, ?_, ?_⟩
  · refine ⟨_, IndexLedger.places_perm _, hledger.ascending, fun verdict => ?_⟩
    constructor
    · rintro rfl
      exact callsFor_layoutVerdict hledger
    · exact (callsFor_layoutVerdict hledger).unique
  · intro claims' hperm hdistinct
    exact IndexLedger.verdict_congr _ _ (IndexLedger.places_recording_of_perm hperm hdistinct)

/-- Claims of the indices 5, 0 and 3, in any order, show a gap at 3. -/
theorem scattered_claims_show_gap :
    let claims : List (IndexEntry libraryGraph.Handle) :=
      [⟨5, shelf, shelf⟩, ⟨0, shelf, shelf⟩, ⟨3, shelf, shelf⟩]
    (claims.map (·.index)).Nodup ∧
      ∀ claims', claims.Perm claims' →
        libraryGraph.layoutVerdict (.recording claims') shelf = .gap 3 := by
  intro claims
  have hdistinct : (claims.map (·.index)).Nodup := by decide
  have hgap : libraryGraph.layoutVerdict (.recording claims) shelf = .gap 3 := by decide +kernel
  obtain ⟨-, -, -, hreordered⟩ := verdict_called_for_by_held libraryGraph shelf claims
  exact ⟨hdistinct, fun claims' hperm => (hreordered claims' hperm hdistinct).trans hgap⟩

end TypeGraph
end LayoutContract
