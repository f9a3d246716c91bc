import LayoutContract.Check.Root
import Mathlib.Data.List.Basic
import Mathlib.Data.List.Induction

/-!
Which members of a type claim an index, whose claim is refused, and which members are descended
into. All of this is told from a member and the members before it in the order of the check, with
no ledger and no other state.
-/
namespace LayoutContract

/-- Each element of a list, together with the elements before it. -/
def withEarlier {α : Type} (as : List α) : List (List α × α) :=
  as.mapIdx fun k a => (as.take k, a)

section WithEarlier

variable {α : Type} {as earlier : List α} {a : α}

@[simp] theorem withEarlier_nil : withEarlier ([] : List α) = [] := rfl

theorem withEarlier_concat (as : List α) (a : α) :
    withEarlier (as ++ [a]) = withEarlier as ++ [(as, a)] := by
  unfold withEarlier
  rw [List.mapIdx_concat, List.take_left']
  · congr 1
    apply List.mapIdx_eq_mapIdx_iff.mpr
    intro k hk
    rw [List.take_append_of_le_length (Nat.le_of_lt hk)]
  · rfl

theorem mem_withEarlier_iff :
    (earlier, a) ∈ withEarlier as ↔ ∃ later, as = earlier ++ a :: later := by
  unfold withEarlier
  rw [List.mem_mapIdx]
  constructor
  · rintro ⟨k, hk, heq⟩
    obtain ⟨rfl, rfl⟩ := Prod.mk.inj heq
    exact ⟨as.drop (k + 1), by rw [List.getElem_cons_drop, List.take_append_drop]⟩
  · rintro ⟨later, rfl⟩
    exact ⟨earlier.length, by simp, by simp⟩

theorem map_snd_withEarlier (as : List α) : (withEarlier as).map (·.2) = as := by
  unfold withEarlier
  apply List.ext_getElem <;> simp

end WithEarlier

def IndexMark.value? : IndexMark → Option Int
  | .value index => some index
  | .missing | .empty | .null => none

/-- The index of a member that has a place in the layout, with the type of the member. -/
def Member.indexedType? {ι : Type} (m : Member ι) : Option (Int × ι) :=
  if m.isInContract then m.index.value?.map (·, m.type) else none

/-- The places in the layout that the members ask for. -/
def indexedTypes {ι : Type} (ms : List (Member ι)) : List (Int × ι) :=
  ms.filterMap Member.indexedType?

theorem Member.indexedType?_eq_some_iff {ι : Type} {m : Member ι} {index : Int} {i : ι} :
    m.indexedType? = some (index, i) ↔
      m.isInContract = true ∧ m.index = .value index ∧ m.type = i := by
  unfold Member.indexedType?
  split
  · cases hindex : m.index <;> simp_all [IndexMark.value?]
  · simp_all

/-- The order of the check only moves members. -/
theorem membersInCheckOrder_perm {ι : Type} (t : TypeDef ι) :
    t.membersInCheckOrder.Perm t.members :=
  List.filter_append_perm (fun m : Member ι => m.form.isProperty) t.members

theorem indexedTypes_perm {ι : Type} (t : TypeDef ι) :
    (indexedTypes t.membersInCheckOrder).Perm (indexedTypes t.members) :=
  (membersInCheckOrder_perm t).filterMap _

namespace TypeGraph

variable (g : TypeGraph) (owner : g.Handle)

/-- The index that a member claims, when nothing about its form keeps it from claiming. -/
def claim? (m : Member g.Handle) : Option Int :=
  if m.isInContract ∧
      ((g.typeAt owner).form = .structType ∨ (m.form.isProperty ∧ m.overridable)) then
    m.index.value?
  else none

def claims (ms : List (Member g.Handle)) : List Int := ms.filterMap (g.claim? owner)

/-- A member is descended into when its claim is not refused and its accessors pass. -/
def descendsInto (earlier : List (Member g.Handle)) (m : Member g.Handle) : Bool :=
  match g.claim? owner m with
  | some index =>
    index ∉ g.claims owner earlier ∧
      ((g.typeAt owner).form = .structType ∨ m.form.isReadableAndWritable)
  | none => false

/-- The members that are descended into, in their order. -/
def descended (ms : List (Member g.Handle)) : List (Member g.Handle) :=
  ((withEarlier ms).filter fun x => g.descendsInto owner x.1 x.2).map (·.2)

/-- What a member leaves in the ledger. -/
def entryLeft? (earlier : List (Member g.Handle)) (m : Member g.Handle) :
    Option (IndexEntry g.Handle) :=
  (g.claim? owner m).bind fun index =>
    if index ∈ g.claims owner earlier then none else some ⟨index, owner, m.type⟩

def acceptedEntries (ms : List (Member g.Handle)) : List (IndexEntry g.Handle) :=
  (withEarlier ms).filterMap fun x => g.entryLeft? owner x.1 x.2

variable {g owner} {ms earlier : List (Member g.Handle)} {m : Member g.Handle} {index : Int}

theorem claim?_eq_some_iff :
    g.claim? owner m = some index ↔
      m.isInContract = true ∧
        ((g.typeAt owner).form = .structType ∨
          m.form.isProperty = true ∧ m.overridable = true) ∧
        m.index = .value index := by
  unfold claim?
  split
  · cases hindex : m.index <;> simp_all [IndexMark.value?]
  · simp_all

theorem claims_concat (ms : List (Member g.Handle)) (m : Member g.Handle) :
    g.claims owner (ms ++ [m]) = g.claims owner ms ++ (g.claim? owner m).toList := by
  unfold claims
  rw [List.filterMap_append]
  cases h : g.claim? owner m <;> simp [h]

theorem descendsInto_iff :
    g.descendsInto owner earlier m = true ↔
      ∃ index, g.claim? owner m = some index ∧ index ∉ g.claims owner earlier ∧
        ((g.typeAt owner).form = .structType ∨ m.form.isReadableAndWritable = true) := by
  unfold descendsInto
  cases g.claim? owner m <;> simp

theorem descended_concat (ms : List (Member g.Handle)) (m : Member g.Handle) :
    g.descended owner (ms ++ [m]) =
      g.descended owner ms ++ if g.descendsInto owner ms m then [m] else [] := by
  unfold descended
  rw [withEarlier_concat, List.filter_append, List.map_append]
  cases h : g.descendsInto owner ms m <;> simp [h]

/-- Members that follow have no say in which members before them are descended into. -/
theorem descended_extends (ms later : List (Member g.Handle)) :
    g.descended owner ms <+: g.descended owner (ms ++ later) := by
  induction later using List.reverseRecOn with
  | nil => simp
  | append_singleton later m ih =>
    rw [← List.append_assoc, descended_concat]
    exact ih.trans (List.prefix_append _ _)

theorem mem_descended_iff :
    m ∈ g.descended owner ms ↔
      ∃ earlier later, ms = earlier ++ m :: later ∧ g.descendsInto owner earlier m = true := by
  simp only [descended, List.mem_map, List.mem_filter, Prod.exists, mem_withEarlier_iff]
  constructor
  · rintro ⟨earlier, m', ⟨⟨later, rfl⟩, hdescends⟩, rfl⟩
    exact ⟨earlier, later, rfl, hdescends⟩
  · rintro ⟨earlier, later, rfl, hdescends⟩
    exact ⟨earlier, m, ⟨⟨later, rfl⟩, hdescends⟩, rfl⟩

/-- Among the members that are descended into, one of a kind comes first. -/
theorem exists_first_descended {P : Member g.Handle → Prop}
    (h : ∃ m ∈ g.descended owner ms, P m) :
    ∃ earlier m later, ms = earlier ++ m :: later ∧ g.descendsInto owner earlier m = true ∧
      P m ∧ ∀ m' ∈ g.descended owner earlier, ¬ P m' := by
  induction ms using List.reverseRecOn with
  | nil => simp [descended] at h
  | append_singleton ms m ih =>
    by_cases hms : ∃ m' ∈ g.descended owner ms, P m'
    · obtain ⟨earlier, first, later, rfl, hfirst⟩ := ih hms
      exact ⟨earlier, first, later ++ [m], by simp, hfirst⟩
    · obtain ⟨m', hm', hP⟩ := h
      rw [descended_concat] at hm'
      rcases List.mem_append.mp hm' with hm' | hm'
      · exact absurd ⟨m', hm', hP⟩ hms
      · split at hm'
        · rename_i hdescends
          rw [List.mem_singleton.mp hm'] at hP
          exact ⟨ms, m, [], rfl, hdescends, hP, fun m' hm' hP => hms ⟨m', hm', hP⟩⟩
        · simp at hm'

theorem acceptedEntries_concat (ms : List (Member g.Handle)) (m : Member g.Handle) :
    g.acceptedEntries owner (ms ++ [m]) =
      g.acceptedEntries owner ms ++ (g.entryLeft? owner ms m).toList := by
  unfold acceptedEntries
  rw [withEarlier_concat, List.filterMap_append]
  cases h : g.entryLeft? owner ms m <;> simp [h]

/-- No claim is refused, seen member by member or all at once. -/
theorem claims_nodup_iff (ms : List (Member g.Handle)) :
    (g.claims owner ms).Nodup ↔
      ∀ earlier m later index, ms = earlier ++ m :: later → g.claim? owner m = some index →
        index ∉ g.claims owner earlier := by
  constructor
  · rintro h earlier m later index rfl hclaim
    rw [List.append_cons, claims, List.filterMap_append] at h
    have hprefix := (List.nodup_append.mp h).1
    rw [← claims, claims_concat, hclaim] at hprefix
    exact fun hmem => (List.nodup_append.mp hprefix).2.2 index hmem index (by simp) rfl
  · intro h
    induction ms using List.reverseRecOn with
    | nil => exact List.nodup_nil
    | append_singleton ms m ih =>
      have hms : (g.claims owner ms).Nodup := by
        apply ih
        rintro earlier m' later index rfl
        exact h earlier m' (later ++ [m]) index (by simp)
      rw [claims_concat]
      cases hclaim : g.claim? owner m with
      | none => simpa using hms
      | some index =>
        have hnew := h ms m [] index rfl hclaim
        rw [Option.toList_some, List.nodup_append]
        refine ⟨hms, by simp, ?_⟩
        intro claimed hclaimed index' hindex' heq
        rw [List.mem_singleton.mp hindex'] at heq
        exact hnew (heq ▸ hclaimed)

/-- Where no claim is refused, each of them has its entry. -/
theorem acceptedEntries_of_nodup (h : (g.claims owner ms).Nodup) :
    g.acceptedEntries owner ms =
      ms.filterMap fun m => (g.claim? owner m).map fun index => ⟨index, owner, m.type⟩ := by
  induction ms using List.reverseRecOn with
  | nil => rfl
  | append_singleton ms m ih =>
    rw [claims_concat] at h
    rw [acceptedEntries_concat, ih (List.nodup_append.mp h).1, List.filterMap_append]
    cases hclaim : g.claim? owner m with
    | none => simp [entryLeft?, hclaim]
    | some index =>
      have hnew : index ∉ g.claims owner ms := by
        intro hmem
        exact (List.nodup_append.mp h).2.2 index hmem index (by simp [hclaim]) rfl
      simp [entryLeft?, hclaim, hnew]

/-- When the form of the members is no obstacle, all that have an index claim it. -/
theorem claim?_eq_indexedType?
    (h : m.isInContract = true → (g.typeAt owner).form = .structType ∨
      m.form.isProperty = true ∧ m.overridable = true) :
    g.claim? owner m = m.indexedType?.map (·.1) := by
  unfold claim? Member.indexedType?
  cases hcontract : m.isInContract with
  | false => simp
  | true =>
    rw [if_pos ⟨rfl, h hcontract⟩, if_pos rfl]
    simp [Function.comp_def]

theorem claims_eq_map_indexedTypes
    (h : ∀ m ∈ ms, g.claim? owner m = m.indexedType?.map (·.1)) :
    g.claims owner ms = (indexedTypes ms).map (·.1) := by
  rw [claims, indexedTypes, List.map_filterMap]
  exact List.filterMap_congr h

end TypeGraph
end LayoutContract
