import LayoutContract.Proofs.AlikeDefinitions
import LayoutContract.Proofs.BuiltGraphs
import LayoutContract.Proofs.MemberBlocks

/-!
Graphs in which some definitions are replaced and the handles stay. To edit a description type by
type comes to the same as to edit the graph that is built from it. A walk never looks at the
members of a type, nor at the constructors of a struct, so with other ones it goes alike.
-/
namespace LayoutContract

theorem IndexLedger.map_id {ι : Type} (l : IndexLedger ι) : l.map id = l := by
  have hentries : l.entries.map (·.map id) = l.entries := List.map_id _
  rw [map, hentries]

theorem MemberPass.map_id {ι : Type} (p : MemberPass ι) : p.map id = p := by
  have hvisited : p.context.visited.map id = p.context.visited := List.map_id _
  rw [map, Context.map, hvisited, IndexLedger.map_id]

namespace TypeGraph

/-- The graph with other definitions behind the same handles. -/
abbrev withDefinitions (g : TypeGraph) (definition : g.Handle → TypeDef g.Handle) : TypeGraph :=
  { g with types := .ofFn definition }

/-- The definitions differ from those of `g` in nothing that a walk looks at. -/
structure KeepsWalks (g : TypeGraph) (definition : g.Handle → TypeDef g.Handle) : Prop where
  outline : ∀ i, definition i = { g.typeAt i with
    constructors := (definition i).constructors
    members := (definition i).members }
  constructors : ∀ i, (g.typeAt i).form ≠ .structType →
    (definition i).constructors = (g.typeAt i).constructors

variable {g : TypeGraph} {definition : g.Handle → TypeDef g.Handle}

theorem typeAt_withDefinitions (i : g.Handle) :
    (g.withDefinitions definition).typeAt i = definition i :=
  Vector.getElem_ofFn i.isLt

section Built

variable {d : GraphDescription} {implicit : List String} {edit : TypeDescription → TypeDescription}

/-- A description can be edited type by type, as long as names stay and names that only stand for
themselves are left alone. -/
theorem build_edited (hg : build d implicit = .ok g) (hname : ∀ t, (edit t).name = t.name)
    (hnormalized : ∀ t, (edit t).normalized = edit t.normalized)
    (himplicit : ∀ name ∈ newNames d.names (builtinScalars ++ implicit),
      edit (.implicit name) = .implicit name)
    (hdescribe : ∀ i, (g.withDefinitions definition).describe i = edit (g.describe i)) :
    build { types := d.types.map edit } implicit = .ok (g.withDefinitions definition) := by
  obtain ⟨hnodup, hdeclared, hentries⟩ := build_eq_ok_iff.mp hg
  have hnames : GraphDescription.names { types := d.types.map edit } = d.names := by
    simp only [GraphDescription.names, List.map_map]
    exact List.map_congr_left fun t _ => hname t
  have hedited : GraphDescription.entries { types := d.types.map edit } implicit =
      (d.entries implicit).map edit := by
    simp only [GraphDescription.entries, hnames, List.map_append, List.map_map]
    congr 1
    exact List.map_congr_left fun name hnew => (himplicit name hnew).symm
  refine build_eq_ok_iff.mpr ⟨hnames ▸ hnodup, by simpa using hdeclared, ?_⟩
  calc
    _ = (g.handles.map g.describe).map edit := by
      rw [List.map_map]
      exact List.map_congr_left fun i _ => hdescribe i
    _ = ((d.entries implicit).map edit).map (·.normalized) := by
      rw [hentries, List.map_map, List.map_map]
      exact List.map_congr_left fun t _ => (hnormalized t).symm
    _ = _ := by rw [hedited]

end Built

namespace KeepsWalks

variable (h : g.KeepsWalks definition)
include h

/-- Structs may have other constructors, as a walk does not ask for those. -/
theorem seenAlike : g.SeenAlike (g.withDefinitions definition) id where
  injective := Function.injective_id
  definition i := by
    rw [TypeDef.map_id, id, typeAt_withDefinitions]
    refine ⟨.of_eq (congrArg (·.interfaces) (h.outline i)).symm, fun hvalue => ?_, ?_⟩
    · have hstruct : (g.typeAt i).form ≠ .structType := by
        intro hstruct
        simp [TypeDef.isValue, hstruct, TypeForm.kind, TypeKind.isValue] at hvalue
      unfold TypeDef.hasParameterlessConstructor
      rw [h.constructors i hstruct]
    · rw [h.outline i]

theorem name (i : g.Handle) : (definition i).name = (g.typeAt i).name :=
  congrArg (·.name) (h.outline i)

theorem form (i : g.Handle) : (definition i).form = (g.typeAt i).form :=
  congrArg (·.form) (h.outline i)

theorem nameOf : (g.withDefinitions definition).nameOf = g.nameOf := by
  funext i
  unfold TypeGraph.nameOf
  rw [typeAt_withDefinitions, h.name i]

theorem lookup (name : String) :
    (g.withDefinitions definition).lookup name = g.lookup name := by
  have hname (i : g.Handle) : ((g.withDefinitions definition).typeAt i).name =
      (g.typeAt i).name := congrFun h.nameOf i
  unfold TypeGraph.lookup
  simp only [hname]
  rfl

theorem site (i : g.Handle) : (g.withDefinitions definition).site i = g.site i :=
  h.seenAlike.site i

theorem walksAlike (c : Config) : g.WalksAlike c (g.withDefinitions definition) c id :=
  h.seenAlike.walksAlike c

theorem judgesAlike (c : Config) (i : g.Handle) :
    g.JudgesAlike c (g.withDefinitions definition) c id i :=
  h.seenAlike.judgesAlike c i

theorem constructorsAlike {i : g.Handle}
    (hi : (definition i).constructors = (g.typeAt i).constructors) :
    g.ConstructorsAlike (g.withDefinitions definition) id i := by
  apply h.seenAlike.constructorsAlike
  rw [TypeDef.map_id, id, typeAt_withDefinitions, hi]

/-- A type whose own definition stays is checked alike. -/
theorem checksAlike (c : Config) {i : g.Handle} (hi : definition i = g.typeAt i) :
    g.ChecksAlike c (g.withDefinitions definition) c id i where
  toJudgesAlike := h.judgesAlike c i
  fault := by rw [id, typeAt_withDefinitions, hi]
  members := by
    rw [id, typeAt_withDefinitions, hi]
    exact (List.map_id _).symm
  constructors := h.constructorsAlike (congrArg (·.constructors) hi)

/-- A pass over given members goes alike. -/
theorem memberPass (c : Config) (i : g.Handle) (ms : List (Member g.Handle)) :
    (g.withDefinitions definition).memberPass c i ms = g.memberPass c i ms := by
  have hmembers : ms.map (·.map id) = ms := List.map_id ms
  have hpass := (h.walksAlike c).memberPass_map (h.judgesAlike c i) ms
  rw [hmembers] at hpass
  exact hpass.trans (MemberPass.map_id _)

theorem memberBlocks (c : Config) {i : g.Handle}
    (hkind : (g.typeAt i).form.kind.isComposite = true) (ms : List (Member g.Handle)) :
    (g.withDefinitions definition).memberBlocks c i ms = g.memberBlocks c i ms := by
  have hkind' : ((g.withDefinitions definition).typeAt i).form.kind.isComposite = true := by
    rwa [typeAt_withDefinitions, h.form i]
  have hmembers : ms.map (·.map id) = ms := List.map_id ms
  have hblocks := (h.walksAlike c).memberBlocks_map (h.judgesAlike c i) hkind hkind' ms
  rwa [hmembers] at hblocks

/-- The layout is judged alike where the constructors stay. -/
theorem layoutFinding? {i : g.Handle}
    (hi : (definition i).constructors = (g.typeAt i).constructors) (caller : Location)
    (ledger : IndexLedger g.Handle) :
    (g.withDefinitions definition).layoutFinding? caller i ledger =
      g.layoutFinding? caller i ledger := by
  -- The walks do not depend on the settings here, so any will do.
  have hfinding := (h.walksAlike {}).layoutFinding?_map (h.constructorsAlike hi) caller ledger
  rwa [IndexLedger.map_id] at hfinding

end KeepsWalks
end TypeGraph
end LayoutContract
