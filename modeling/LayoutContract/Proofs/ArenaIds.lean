import LayoutContract.Proofs.Arenas
import LayoutContract.Proofs.HeldGraphs
import Mathlib.Data.Set.List

/-!
Ids that lead into their arena. An arena answers for an id with the definition in that place, and
for an id that leads beyond its end there is no answer. In the arena of a description every id was
given out for one of its own places, as long as the places can be told apart by 32 bits. So a check
of one of its types never asks for a place beyond the end, wherever the ids are taken from.
-/
namespace LayoutContract

open MemberDescription (field)

def LayoutVerdict.types {ι : Type} : LayoutVerdict ι → List ι
  | valid | gap _ => []
  | noMatchingConstructor expected => expected

theorem LayoutVerdict.types_map {ι κ : Type} (f : ι → κ) (v : LayoutVerdict ι) :
    (v.map f).types = v.types.map f := by
  cases v <;> rfl

namespace Arena

variable (a : Arena)

def source : TypeSource UInt32 := ⟨fun i => a.types[i.toNat]?⟩

/-- The id leads to a type of the arena. -/
def Holds (i : UInt32) : Prop := i.toNat < a.types.length

instance (i : UInt32) : Decidable (a.Holds i) := inferInstanceAs (Decidable (_ < _))

end Arena

section Ids

variable {size : Nat} (hsize : size ≤ UInt32.size)
include hsize

theorem toNat_idOf (i : Fin size) : (idOf i).toNat = i.val :=
  UInt32.toNat_ofNat_of_lt (i.isLt.trans_le hsize)

theorem idOf_injective : Function.Injective (idOf : Fin size → UInt32) := by
  intro i j hij
  rw [Fin.ext_iff, ← toNat_idOf hsize i, ← toNat_idOf hsize j, hij]

end Ids

namespace TypeGraph

variable {g : TypeGraph}

theorem length_types_arena (g : TypeGraph) : g.arena.types.length = g.size := by
  simp [arena]

variable (hsize : g.size ≤ UInt32.size)
include hsize

theorem heldBy_arena : g.HeldBy g.arena.source idOf where
  injective := idOf_injective hsize
  find i := by
    change g.arena.types[(idOf i).toNat]? = _
    rw [toNat_idOf hsize]
    simp [arena, typeAt]

theorem holds_idOf (i : g.Handle) : g.arena.Holds (idOf i) := by
  rw [Arena.Holds, length_types_arena, toNat_idOf hsize]
  exact i.isLt

theorem holds_iff_mem_range {i : UInt32} :
    g.arena.Holds i ↔ i ∈ Set.range (idOf : g.Handle → UInt32) := by
  constructor
  · intro h
    rw [Arena.Holds, length_types_arena] at h
    exact ⟨⟨i.toNat, h⟩, UInt32.ofNat_toNat⟩
  · rintro ⟨j, rfl⟩
    exact holds_idOf hsize j

theorem holds_of_mem_map {is : List g.Handle} {i : UInt32} (h : i ∈ is.map idOf) :
    g.arena.Holds i := by
  obtain ⟨j, -, rfl⟩ := List.mem_map.mp h
  exact holds_idOf hsize j

/-- No definition refers beyond the end. -/
theorem holds_of_mem_references {t : TypeDef UInt32} (ht : t ∈ g.arena.types) {i : UInt32}
    (hi : i ∈ t.references) : g.arena.Holds i := by
  obtain ⟨t', -, rfl⟩ := List.mem_map.mp ht
  rw [TypeDef.references_map] at hi
  exact holds_of_mem_map hsize hi

/-- Every name leads to a type. -/
theorem holds_of_find? {name : String} {i : UInt32}
    (h : NameIndex.find? g.arena.names name = some i) : g.arena.Holds i := by
  change NameIndex.find? (numbered _) name = some i at h
  rw [find?_numbered] at h
  obtain ⟨k, hk, rfl⟩ := Option.map_eq_some_iff.mp h
  have hlt : k < g.size := by simpa using (List.findIdx?_eq_some_iff_getElem.mp hk).1
  exact holds_idOf hsize ⟨k, hlt⟩

omit hsize in
theorem declaredIds_arena (g : TypeGraph) : g.arena.declaredIds = g.declaredHandles.map idOf := by
  have hmap : (idOf : g.Handle → UInt32) = idAt ∘ Fin.val := rfl
  rw [declaredHandles_eq_take, hmap, ← List.map_map, List.map_take, handles,
    List.map_coe_finRange_eq_range, List.take_range, Nat.min_eq_left g.declared_le]
  rfl

theorem formattableRoots_arena :
    g.arena.source.formattableRoots g.arena.declaredIds = .ok (g.formattableRoots.map idOf) := by
  rw [declaredIds_arena]
  exact (heldBy_arena hsize).formattableRoots_eq g.declaredHandles

/-- A ledger of held types is a ledger of handles. -/
theorem exists_ledger_map {ledger : IndexLedger UInt32}
    (h : ∀ e ∈ ledger.entries, g.arena.Holds e.owner ∧ g.arena.Holds e.memberType) :
    ∃ ledger' : IndexLedger g.Handle, ledger'.map idOf = ledger := by
  have hentries : ledger.entries ∈
      Set.range (List.map (IndexEntry.map (idOf : g.Handle → UInt32))) := by
    rw [Set.range_list_map]
    intro e he
    obtain ⟨howner, hmember⟩ := h e he
    obtain ⟨owner, howner⟩ := (holds_iff_mem_range hsize).mp howner
    obtain ⟨memberType, hmember⟩ := (holds_iff_mem_range hsize).mp hmember
    exact ⟨⟨e.index, owner, memberType⟩, by rw [IndexEntry.map, howner, hmember]⟩
  obtain ⟨entries, hentries⟩ := hentries
  exact ⟨⟨ledger.claimed, entries⟩, by rw [IndexLedger.map, hentries]⟩

/-- A verdict on a ledger of held types is about held types. -/
theorem layoutVerdict_arena {ledger : IndexLedger UInt32}
    (h : ∀ e ∈ ledger.entries, g.arena.Holds e.owner ∧ g.arena.Holds e.memberType) {i : UInt32}
    (hi : g.arena.Holds i) :
    ∃ verdict, g.arena.source.layoutVerdict ledger i = .ok verdict ∧
      ∀ j ∈ verdict.types, g.arena.Holds j := by
  obtain ⟨ledger', rfl⟩ := exists_ledger_map hsize h
  obtain ⟨i', rfl⟩ := (holds_iff_mem_range hsize).mp hi
  refine ⟨_, (heldBy_arena hsize).layoutVerdict_eq ledger' i', fun j hj => ?_⟩
  rw [LayoutVerdict.types_map] at hj
  exact holds_of_mem_map hsize hj

end TypeGraph

namespace Arena

/-- Nothing is asked beyond the end of an arena that was built from a description. Its definitions
and its names lead to its own types. A check of one of its types, a search for the types to check
and a verdict on the members of a type come to an end with an answer to each question that they
ask; and what the check finds is what it finds in the graph of the description. -/
theorem ids_lead_into_arena {d : GraphDescription} {implicit : List String} {a : Arena}
    (ha : build d implicit = .ok a) (hsize : a.types.length < UInt32.size) :
    ((∀ t ∈ a.types, ∀ i ∈ t.references, a.Holds i) ∧
      ∀ name i, NameIndex.find? a.names name = some i → a.Holds i) ∧
    (∀ (c : Config) (root : UInt32), a.Holds root →
      (∀ depth i, a.source.analyze c depth root ≠ .error (.foreign i)) ∧
      ∃ findings, ∀ depth, a.types.length < depth →
        a.source.analyze c depth root = .ok findings) ∧
    (∃ roots, a.source.formattableRoots a.declaredIds = .ok roots ∧ ∀ i ∈ roots, a.Holds i) ∧
    (∀ (ledger : IndexLedger UInt32) (i : UInt32),
      (∀ e ∈ ledger.entries, a.Holds e.owner ∧ a.Holds e.memberType) → a.Holds i →
        ∃ verdict, a.source.layoutVerdict ledger i = .ok verdict ∧
          ∀ j ∈ verdict.types, a.Holds j) ∧
    ∃ g, TypeGraph.build d implicit = .ok g ∧ a.types = g.types.toList.map (·.map idOf) ∧
      ∀ (c : Config) (root : g.Handle) (depth : Nat), g.size < depth →
        a.source.analyze c depth (idOf root) = .ok (g.analyze c root) := by
  rw [build_eq, except_map_eq_ok_iff] at ha
  obtain ⟨g, hg, rfl⟩ := ha
  rw [TypeGraph.length_types_arena] at hsize ⊢
  have hsize := hsize.le
  have hheld := TypeGraph.heldBy_arena hsize
  refine ⟨⟨fun t ht i hi => TypeGraph.holds_of_mem_references hsize ht hi,
      fun name i hi => TypeGraph.holds_of_find? hsize hi⟩, ?_,
    ⟨_, TypeGraph.formattableRoots_arena hsize, fun i hi => TypeGraph.holds_of_mem_map hsize hi⟩,
    fun ledger i hledger hi => TypeGraph.layoutVerdict_arena hsize hledger hi,
    g, hg, rfl, fun c root depth hroom => ?_⟩
  · intro c root hroot
    obtain ⟨i, rfl⟩ := (TypeGraph.holds_iff_mem_range hsize).mp hroot
    exact ⟨fun depth => (hheld.analyze_gives depth i).ne_foreign,
      g.analyze c i, fun depth hroom => (hheld.analyze_gives depth i).eq_ok (Nat.not_le_of_lt hroom)⟩
  · exact (hheld.analyze_gives depth root).eq_ok (Nat.not_le_of_lt hroom)

/-- Blocks of stone with a pile of them, which is a collection by one of its interfaces, and a
constructor that takes nothing but a number. -/
def quarry : GraphDescription where
  types := [
    TypeDescription.ofKind .structType "Block"
      |>.asFormattable
      |>.withConstructor ["int"]
      |>.withMember ((field "Weight" "int").indexed 0)
      |>.withMember ((field "Beneath" "Pile").indexed 1)
      |>.declaredAt { line := 1 },
    TypeDescription.generic "Pile" .classType "Pile<>" ["Block[]"]
      |>.implementing "Stones",
    .generic "Stones" .interfaceType "System.Collections.Generic.ICollection<>" ["Block"],
    .array "Block[]" "Block"]

def quarryArena : Arena := (build quarry []).toOption.get (by decide +kernel)

/-- A check of the blocks asks for the pile, its interface, the parameter of the constructor and
both members. -/
theorem quarry_ids_lead_into_arena :
    build quarry [] = .ok quarryArena ∧
      quarryArena.types.length < UInt32.size ∧
      quarryArena.Holds 0 ∧
      (∀ depth i, quarryArena.source.analyze {} depth 0 ≠ .error (.foreign i)) ∧
      (∃ findings, quarryArena.source.analyze {} 100 0 = .ok findings) ∧
      quarryArena.source.analyze {} 100 0 =
        .ok [.layoutNeedsMatchingConstructor { line := 1 } ⟨"Block", { line := 1 }⟩
          ["int", "Pile"]] ∧
      (∃ verdict, quarryArena.source.layoutVerdict ⟨[1, 0], [⟨1, 0, 1⟩, ⟨0, 0, 5⟩]⟩ 0 =
          .ok verdict ∧
        ∀ j ∈ verdict.types, quarryArena.Holds j) ∧
      quarryArena.source.analyze {} 100 21 = .error (.foreign 21) := by
  have ha : build quarry [] = .ok quarryArena := rfl
  have hsize : quarryArena.types.length < UInt32.size := by decide +kernel
  have hroot : quarryArena.Holds 0 := by decide +kernel
  have hroom : quarryArena.types.length < 100 := by decide +kernel
  obtain ⟨-, hchecks, -, hverdicts, -⟩ := ids_lead_into_arena ha hsize
  obtain ⟨hanswered, findings, hends⟩ := hchecks {} 0 hroot
  refine ⟨ha, hsize, hroot, hanswered, ⟨findings, hends 100 hroom⟩, rfl, ?_, rfl⟩
  exact hverdicts _ 0 (by decide +kernel) hroot

end Arena
end LayoutContract
