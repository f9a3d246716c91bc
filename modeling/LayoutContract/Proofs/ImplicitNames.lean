import LayoutContract.Proofs.DeclarationOrder
import Mathlib.Data.Finset.Card

/-!
The names that are given besides a description. More of them continue the graph behind its last
type: the types that it has keep their handles and their definitions, and each name that was not
known becomes one type. No definition refers to such a type, so whatever was found is found as
before. Neither the order of the names nor their repetition leaves a trace in what is found.
-/
namespace LayoutContract

theorem newNames_append (known first second : List String) :
    newNames known (first ++ second) =
      newNames known first ++ newNames (known ++ first) second := by
  rw [newNames_eq_eraseDups, newNames_eq_eraseDups, newNames_eq_eraseDups, List.filter_append,
    List.eraseDups_append, List.removeAll, List.filter_filter]
  congr 2
  apply List.filter_congr
  intro name _
  by_cases hname : name ∈ known <;> simp [hname]

/-- Each new name is counted once, however often it is given. -/
theorem length_newNames (known names : List String) :
    (newNames known names).length = (names.filter (· ∉ known)).toFinset.card := by
  rw [← List.toFinset_card_of_nodup (newNames_nodup known names)]
  congr 1
  ext name
  simp [mem_newNames_iff]

/-- A type that can be resolved still can when more names are known. -/
theorem TypeDescription.problems_eq_nil_of_subset {t : TypeDescription} {known known' : List String}
    (hknown : ∀ name ∈ known, name ∈ known') (h : t.problems known = []) :
    t.problems known' = [] := by
  rw [problems_eq_nil_iff] at h ⊢
  obtain ⟨helement, hdefinition, hreferences⟩ := h
  exact ⟨helement, hdefinition, fun name hname => hknown name (hreferences name hname)⟩

namespace GraphDescription

variable (d : GraphDescription) (implicit more : List String)

theorem entries_append :
    d.entries (implicit ++ more) =
      d.entries implicit ++ (newNames (d.knownNames implicit) more).map .implicit := by
  rw [entries, ← List.append_assoc, newNames_append, List.map_append, ← List.append_assoc, entries,
    knownNames, ← List.append_assoc]

theorem sameUpToOrder_self : d.SameUpToOrder d :=
  ⟨d.types, List.forall₂_same.mpr fun t _ => .refl t, .refl _⟩

end GraphDescription

namespace TypeGraph

/-- The types of `g` are the first types of `g'`, with the same handles and definitions. -/
structure ContinuedBy (g g' : TypeGraph) : Prop where
  size_le : g.size ≤ g'.size
  declared : g'.declared = g.declared
  typeAt : ∀ i : g.Handle, g'.typeAt (i.castLE size_le) = (g.typeAt i).map (Fin.castLE size_le)

variable {d : GraphDescription} {implicit more : List String} {g g' : TypeGraph}

theorem size_of_build (h : build d implicit = .ok g) : g.size = (d.entries implicit).length := by
  simpa [handles] using congrArg List.length (describe_handles h)

/-- The types are described by the entries at the same positions. -/
theorem getElem?_entries_of_build (h : build d implicit = .ok g) (i : g.Handle) :
    (d.entries implicit)[i.val]?.map (·.normalized) = some (g.describe i) := by
  rw [← List.getElem?_map, ← describe_handles h]
  simp [handles]

theorem ContinuedBy.sameUpToOrder (h : g.ContinuedBy g') :
    g.SameUpToOrder g' (Fin.castLE h.size_le) where
  injective := Fin.castLE_injective h.size_le
  outline i := by
    rw [h.typeAt i]
    exact ⟨.refl _, .refl _, rfl⟩
  members i := by
    rw [h.typeAt i]
    rfl

theorem exists_build_append (hg : build d implicit = .ok g) (more : List String) :
    ∃ g', build d (implicit ++ more) = .ok g' := by
  obtain ⟨hnodup, hproblems⟩ := (exists_build_iff d implicit).mp ⟨g, hg⟩
  refine (exists_build_iff d (implicit ++ more)).mpr ⟨hnodup, fun t ht => ?_⟩
  refine TypeDescription.problems_eq_nil_of_subset (fun name hname => ?_) (hproblems t ht)
  rw [GraphDescription.knownNames, ← List.append_assoc]
  exact List.mem_append_left more hname

section Continued

variable (hg : build d implicit = .ok g) (hg' : build d (implicit ++ more) = .ok g')
include hg hg'

theorem size_of_build_append :
    g'.size = g.size + (more.filter (· ∉ d.knownNames implicit)).toFinset.card := by
  rw [size_of_build hg', size_of_build hg, GraphDescription.entries_append, List.length_append,
    List.length_map, length_newNames]

theorem continuedBy_of_build_append : g.ContinuedBy g' := by
  have hsize : g.size ≤ g'.size := by
    rw [size_of_build_append hg hg']
    exact Nat.le_add_right _ _
  have hdescribe (i : g.Handle) : g'.describe (i.castLE hsize) = g.describe i := by
    have hentry := getElem?_entries_of_build hg' (i.castLE hsize)
    have hlt : i.val < (d.entries implicit).length := size_of_build hg ▸ i.isLt
    rw [GraphDescription.entries_append, Fin.val_castLE, List.getElem?_append_left hlt,
      getElem?_entries_of_build hg i] at hentry
    exact (Option.some.inj hentry).symm
  have hnames (i : g.Handle) : g'.nameOf (i.castLE hsize) = g.nameOf i :=
    congrArg (·.name) (hdescribe i)
  refine ⟨hsize, ?_, fun i => ?_⟩
  · rw [declared_of_build hg', declared_of_build hg]
  · apply TypeDef.describe_map_injective (nameOf_injective hg')
    rw [describe_of_nameOf hnames i]
    exact hdescribe i

end Continued

/-- To give more names continues a graph and changes nothing in it: there is one more type for each
name that is neither declared nor built in nor given before, names lead to the same types, and the
same is found about them. In which order the names are given, and how often each, has no say in
what is found. -/
theorem implicit_names_continue_graph (hg : build d implicit = .ok g) (more : List String) :
    (∃ g', build d (implicit ++ more) = .ok g' ∧ ∃ h : g.ContinuedBy g',
      g'.size = g.size + (more.filter fun name =>
        name ∉ d.names ∧ name ∉ builtinScalars ∧ name ∉ implicit).toFinset.card ∧
      (∀ name i, g.lookup name = some i → g'.lookup name = some (i.castLE h.size_le)) ∧
      ∀ (c : Config) (root : g.Handle),
        g'.analyze c (root.castLE h.size_le) = g.analyze c root) ∧
    ∀ implicit', (∀ name, name ∈ implicit ↔ name ∈ implicit') →
      ∃ g', build d implicit' = .ok g' ∧ ∀ (c : Config) (name : String),
        (g'.lookup name).map (g'.analyze c) = (g.lookup name).map (g.analyze c) := by
  constructor
  · obtain ⟨g', hg'⟩ := exists_build_append hg more
    have hcontinued := continuedBy_of_build_append hg hg'
    refine ⟨g', hg', hcontinued, ?_, ?_, ?_⟩
    · rw [size_of_build_append hg hg']
      simp [GraphDescription.knownNames]
    · intro name i hlookup
      rw [lookup_eq_some_iff (nameOf_injective hg')]
      exact (hcontinued.sameUpToOrder.name i).trans (nameOf_of_lookup hlookup)
    · exact hcontinued.sameUpToOrder.analyze
  · intro implicit' himplicit
    have hsame := d.sameUpToOrder_self
    obtain ⟨g', hg'⟩ := (hsame.exists_build_iff himplicit).mp ⟨g, hg⟩
    obtain ⟨φ, hφ⟩ := exists_sameUpToOrder hg hg' hsame himplicit
    refine ⟨g', hg', fun c name => ?_⟩
    rw [lookup_map hg hg' hφ.name (hsame.mem_knownNames_iff himplicit) name, Option.map_map]
    congr 1
    exact funext (hφ.analyze c)

def voyage : harborGraph.Handle := (harborGraph.lookup "Voyage").get (by decide +kernel)

/-- Of the six names only those of flags and crews are new to the harbor. -/
theorem harbor_continued_by_flag_and_crew :
    build harbor ["Named"] = .ok harborGraph ∧
      ∃ g', build harbor (["Named"] ++ ["int", "Flag", "Vessel", "Crew", "Named", "Flag"]) =
          .ok g' ∧
        g'.size = harborGraph.size + 2 ∧
        ∃ h : harborGraph.ContinuedBy g',
          g'.analyze {} (voyage.castLE h.size_le) =
            [.typeMustBeAnnotated { line := 2 } ⟨"Vessel", {}⟩] := by
  have hg : build harbor ["Named"] = .ok harborGraph := rfl
  have hvoyage : harborGraph.analyze {} voyage =
      [.typeMustBeAnnotated { line := 2 } ⟨"Vessel", {}⟩] := by
    decide +kernel
  obtain ⟨⟨g', hg', hcontinued, hsize, -, hanalyze⟩, -⟩ :=
    implicit_names_continue_graph hg ["int", "Flag", "Vessel", "Crew", "Named", "Flag"]
  refine ⟨hg, g', hg', ?_, hcontinued, (hanalyze {} voyage).trans hvoyage⟩
  rw [hsize]
  rfl

end TypeGraph
end LayoutContract
