import LayoutContract.Proofs.AlikeGraphs

/-!
Definitions that look alike to a walk. Whether some interface is of a kind, and for a class whether
some constructor has no parameters, is all that a walk ever asks about interfaces and constructors,
and it never asks about members. So walks go alike where the rest of the definitions is the same.
-/
namespace LayoutContract

/-- A walk sees no difference between the definitions. -/
structure TypeDef.SeenAlike {ι : Type} (t t' : TypeDef ι) : Prop where
  interfaces : t.interfaces.Perm t'.interfaces
  constructible : t.isValue = false →
    t'.hasParameterlessConstructor = t.hasParameterlessConstructor
  rest : t' = { t with
    constructors := t'.constructors
    interfaces := t'.interfaces
    members := t'.members }

namespace TypeGraph

section Alike

variable {g g' : TypeGraph} {φ : g.Handle → g'.Handle} {c : Config} {i : g.Handle}

/-- A walk deals with a type by its name, its form and what it wraps. -/
theorem role_map (hname : (g'.typeAt (φ i)).name = (g.typeAt i).name)
    (hform : (g'.typeAt (φ i)).form = (g.typeAt i).form.map φ)
    (hwrapped : g'.wrapped? (φ i) = (g.wrapped? i).map (·.map φ)) :
    g'.role c (φ i) = (g.role c i).map φ := by
  unfold role
  rw [hform, hwrapped, hname]
  cases c.isTerminal (g.typeAt i).name with
  | true => rfl
  | false => cases (g.typeAt i).form <;> cases g.wrapped? i <;> rfl

theorem offence?_map (hrole : g'.role c (φ i) = (g.role c i).map φ)
    (hfault : (g'.typeAt (φ i)).fault? = (g.typeAt i).fault?) :
    g'.offence? c (φ i) = g.offence? c i := by
  unfold offence?
  rw [hrole, hfault]
  cases g.role c i <;> rfl

/-- Some constructor takes the expected types, wherever it stands. -/
theorem constructorsAlike_of_perm
    (hqualified : ∀ j, (g'.typeAt (φ j)).qualifiedName = (g.typeAt j).qualifiedName)
    (hi : ((g.typeAt i).map φ).constructors.Perm (g'.typeAt (φ i)).constructors) :
    g.ConstructorsAlike g' φ i := by
  intro expected
  rw [← hi.any_eq]
  unfold IndexLedger.accepts
  simp only [TypeDef.map, List.any_map, Function.comp_def, List.map_map, hqualified]

end Alike

/-- Each type of `g` looks like its image in `g'`. -/
structure SeenAlike (g g' : TypeGraph) (φ : g.Handle → g'.Handle) : Prop where
  injective : Function.Injective φ
  definition : ∀ i, ((g.typeAt i).map φ).SeenAlike (g'.typeAt (φ i))

namespace SeenAlike

variable {g g' : TypeGraph} {φ : g.Handle → g'.Handle} (h : g.SeenAlike g' φ)
include h

theorem name (i : g.Handle) : (g'.typeAt (φ i)).name = (g.typeAt i).name :=
  congrArg (·.name) (h.definition i).rest

theorem qualifiedName (i : g.Handle) :
    (g'.typeAt (φ i)).qualifiedName = (g.typeAt i).qualifiedName :=
  congrArg (·.qualifiedName) (h.definition i).rest

theorem form (i : g.Handle) : (g'.typeAt (φ i)).form = (g.typeAt i).form.map φ :=
  congrArg (·.form) (h.definition i).rest

theorem formattable (i : g.Handle) : (g'.typeAt (φ i)).formattable = (g.typeAt i).formattable :=
  congrArg (·.formattable) (h.definition i).rest

theorem generic (i : g.Handle) :
    (g'.typeAt (φ i)).generic = (g.typeAt i).generic.map (·.map φ) :=
  congrArg (·.generic) (h.definition i).rest

theorem site (i : g.Handle) : g'.site (φ i) = g.site i :=
  congrArg (fun t => TypeSite.mk t.name t.location) (h.definition i).rest

theorem isValue (i : g.Handle) : (g'.typeAt (φ i)).isValue = (g.typeAt i).isValue := by
  unfold TypeDef.isValue
  rw [h.form i, TypeForm.kind_map]

theorem isFormattableRoot (i : g.Handle) :
    (g'.typeAt (φ i)).isFormattableRoot = (g.typeAt i).isFormattableRoot := by
  unfold TypeDef.isFormattableRoot
  rw [h.form i, h.formattable i]
  cases (g.typeAt i).form <;> rfl

theorem isCollectionInterface (i : g.Handle) :
    g'.isCollectionInterface (φ i) = g.isCollectionInterface i := by
  unfold TypeGraph.isCollectionInterface
  rw [h.generic i]
  cases (g.typeAt i).generic <;> rfl

/-- Whether some interface is that of collections does not depend on where it stands. -/
theorem shape (i : g.Handle) : g'.shape (φ i) = g.shape i := by
  have hinterfaces : (g'.typeAt (φ i)).interfaces.any g'.isCollectionInterface =
      (g.typeAt i).interfaces.any g.isCollectionInterface := by
    rw [← (h.definition i).interfaces.any_eq]
    simp only [TypeDef.map, List.any_map, Function.comp_def, h.isCollectionInterface]
  unfold TypeGraph.shape
  rw [h.generic i, hinterfaces]
  cases (g.typeAt i).generic with
  | none => rfl
  | some generic => simp [GenericInstance.map, GenericInstance.family]

theorem wrapped? (i : g.Handle) : g'.wrapped? (φ i) = (g.wrapped? i).map (·.map φ) := by
  unfold TypeGraph.wrapped?
  rw [h.generic i, h.shape i]
  cases (g.typeAt i).generic with
  | none => rfl
  | some generic => cases (g.shape i).isWrapper <;> rfl

theorem role (c : Config) (i : g.Handle) : g'.role c (φ i) = (g.role c i).map φ :=
  role_map (h.name i) (h.form i) (h.wrapped? i)

/-- Structs need no constructor to be free of faults. -/
theorem fault? (i : g.Handle) : (g'.typeAt (φ i)).fault? = (g.typeAt i).fault? := by
  unfold TypeDef.fault?
  rw [h.formattable i, h.isValue i]
  cases hvalue : (g.typeAt i).isValue with
  | true => rw [Bool.true_or, Bool.true_or]
  | false =>
    have hmapped : ((g.typeAt i).map φ).isValue = false := by
      simpa [TypeDef.isValue, TypeDef.map] using hvalue
    rw [(h.definition i).constructible hmapped]
    simp [TypeDef.hasParameterlessConstructor, TypeDef.map, Function.comp_def]

theorem offence? (c : Config) (i : g.Handle) : g'.offence? c (φ i) = g.offence? c i :=
  offence?_map (h.role c i) (h.fault? i)

theorem walksAlike (c : Config) : g.WalksAlike c g' c φ where
  injective := h.injective
  site := h.site
  role := h.role c
  offence := h.offence? c

theorem judgesAlike (c : Config) (i : g.Handle) : g.JudgesAlike c g' c φ i where
  threshold := rfl
  isValue := h.isValue i

theorem constructorsAlike {i : g.Handle}
    (hi : ((g.typeAt i).map φ).constructors.Perm (g'.typeAt (φ i)).constructors) :
    g.ConstructorsAlike g' φ i :=
  constructorsAlike_of_perm h.qualifiedName hi

end SeenAlike
end TypeGraph
end LayoutContract
