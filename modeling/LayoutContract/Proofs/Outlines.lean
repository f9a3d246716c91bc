import LayoutContract.Proofs.AlikeDefinitions

/-!
Graphs whose types have the same outlines. The outline of a type is all of its definition but its
members, with its constructors and its interfaces in any order. Types with the same outline look
alike to a walk, and their members are judged alike.
-/
namespace LayoutContract

/-- The same definition, except for the members and the order of constructors and interfaces. -/
structure TypeDef.SameOutline {ι : Type} (t t' : TypeDef ι) : Prop where
  constructors : t.constructors.Perm t'.constructors
  interfaces : t.interfaces.Perm t'.interfaces
  rest : t' = { t with
    constructors := t'.constructors
    interfaces := t'.interfaces
    members := t'.members }

/-- Some constructor has no parameters, wherever it stands. -/
theorem TypeDef.SameOutline.seenAlike {ι : Type} {t t' : TypeDef ι} (h : t.SameOutline t') :
    t.SeenAlike t' where
  interfaces := h.interfaces
  constructible _ := h.constructors.symm.any_eq
  rest := h.rest

namespace TypeGraph

/-- Each type of `g` has the outline of its image in `g'`. -/
structure SameOutlines (g g' : TypeGraph) (φ : g.Handle → g'.Handle) : Prop where
  injective : Function.Injective φ
  outline : ∀ i, ((g.typeAt i).map φ).SameOutline (g'.typeAt (φ i))

namespace SameOutlines

variable {g g' : TypeGraph} {φ : g.Handle → g'.Handle} (h : g.SameOutlines g' φ)
include h

theorem seenAlike : g.SeenAlike g' φ where
  injective := h.injective
  definition i := (h.outline i).seenAlike

theorem name (i : g.Handle) : (g'.typeAt (φ i)).name = (g.typeAt i).name := h.seenAlike.name i

/-- Members that are the same are checked alike, wherever the constructors stand. -/
theorem checksAlike (c : Config) {i : g.Handle}
    (hi : (g'.typeAt (φ i)).members = (g.typeAt i).members.map (·.map φ)) :
    g.ChecksAlike c g' c φ i where
  toJudgesAlike := h.seenAlike.judgesAlike c i
  fault := h.seenAlike.fault? i
  members := by
    rw [← contractMembers_map]
    unfold TypeDef.contractMembers TypeDef.membersInCheckOrder
    rw [hi]
    rfl
  constructors := h.seenAlike.constructorsAlike (h.outline i).constructors

end SameOutlines
end TypeGraph
end LayoutContract
