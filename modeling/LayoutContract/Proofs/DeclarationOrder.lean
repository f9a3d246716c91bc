import LayoutContract.Proofs.Extensions
import LayoutContract.Proofs.Outlines
import Mathlib.Data.List.Perm.Basic

/-!
Descriptions that differ in order only: in the order of their types and, within a type, in that of
its constructors and of its interfaces. Types of one name then have the same definition up to the
handles and up to that order. The order of constructors and interfaces is never asked for, so the
graphs are built alike and checks go alike in them.
-/
namespace LayoutContract

/-- The same description, with its constructors and its interfaces in any order. -/
structure TypeDescription.SameUpToOrder (t t' : TypeDescription) : Prop where
  constructors : t.constructors.Perm t'.constructors
  interfaces : t.interfaces.Perm t'.interfaces
  rest : t' = { t with constructors := t'.constructors, interfaces := t'.interfaces }

/-- The same types up to order, themselves in any order. -/
def GraphDescription.SameUpToOrder (d d' : GraphDescription) : Prop :=
  ∃ types, List.Forall₂ TypeDescription.SameUpToOrder d.types types ∧ types.Perm d'.types

namespace TypeDescription

variable {t t' : TypeDescription}

theorem SameUpToOrder.refl (t : TypeDescription) : t.SameUpToOrder t := ⟨.refl _, .refl _, rfl⟩

theorem SameUpToOrder.name (h : t.SameUpToOrder t') : t'.name = t.name := by
  rw [h.rest]

theorem SameUpToOrder.normalized (h : t.SameUpToOrder t') :
    t.normalized.SameUpToOrder t'.normalized where
  constructors := h.constructors
  interfaces := h.interfaces
  rest := congrArg TypeDescription.normalized h.rest

/-- References keep a type from being resolved wherever they stand. -/
theorem SameUpToOrder.problems_eq_nil_iff {known known' : List String} (h : t.SameUpToOrder t')
    (hknown : ∀ name, name ∈ known ↔ name ∈ known') :
    t.problems known = [] ↔ t'.problems known' = [] := by
  have hreferences (name : String) : name ∈ t.usedReferences ↔ name ∈ t'.usedReferences := by
    rw [h.rest]
    simp only [usedReferences, List.mem_append, h.constructors.flatten.mem_iff,
      h.interfaces.mem_iff]
  have hrest : t'.kind = t.kind ∧ t'.element = t.element ∧
      t'.typeArguments = t.typeArguments ∧ t'.genericDefinition = t.genericDefinition := by
    rw [h.rest]
    exact ⟨rfl, rfl, rfl, rfl⟩
  obtain ⟨hkind, helement, harguments, hdefinition⟩ := hrest
  simp only [TypeDescription.problems_eq_nil_iff, hreferences, hknown, hkind, helement,
    harguments, hdefinition]

end TypeDescription

namespace GraphDescription

variable {d d' : GraphDescription} {implicit implicit' : List String}

theorem SameUpToOrder.exists_right (h : d.SameUpToOrder d') {t : TypeDescription}
    (ht : t ∈ d.types) : ∃ t' ∈ d'.types, t.SameUpToOrder t' := by
  obtain ⟨types, hsame, hperm⟩ := h
  obtain ⟨t', ht', htt'⟩ := exists_right_of_forall₂ hsame ht
  exact ⟨t', hperm.mem_iff.mp ht', htt'⟩

theorem SameUpToOrder.exists_left (h : d.SameUpToOrder d') {t' : TypeDescription}
    (ht' : t' ∈ d'.types) : ∃ t ∈ d.types, t.SameUpToOrder t' := by
  obtain ⟨types, hsame, hperm⟩ := h
  exact exists_right_of_forall₂ hsame.flip (hperm.mem_iff.mpr ht')

theorem SameUpToOrder.names_perm (h : d.SameUpToOrder d') : d.names.Perm d'.names := by
  obtain ⟨types, hsame, hperm⟩ := h
  have hnames : types.map (·.name) = d.names :=
    map_eq_map_of_forall₂ hsame fun _ _ h => h.name
  exact hnames ▸ hperm.map (·.name)

section Implicit

variable (h : d.SameUpToOrder d') (himplicit : ∀ name, name ∈ implicit ↔ name ∈ implicit')
include h himplicit

theorem SameUpToOrder.mem_knownNames_iff (name : String) :
    name ∈ d.knownNames implicit ↔ name ∈ d'.knownNames implicit' := by
  simp only [knownNames, List.mem_append, h.names_perm.mem_iff, himplicit]

/-- The entry of a name is the same up to order. -/
theorem SameUpToOrder.exists_entry {t : TypeDescription} (ht : t ∈ d.entries implicit) :
    ∃ t' ∈ d'.entries implicit', t.SameUpToOrder t' := by
  rcases List.mem_append.mp ht with ht | ht
  · obtain ⟨t', ht', hsame⟩ := h.exists_right ht
    exact ⟨t', List.mem_append_left _ ht', hsame⟩
  · obtain ⟨name, hname, rfl⟩ := List.mem_map.mp ht
    have hname' : name ∈ newNames d'.names (builtinScalars ++ implicit') := by
      simpa only [mem_newNames_iff, List.mem_append, himplicit, h.names_perm.mem_iff] using hname
    exact ⟨.implicit name, List.mem_append_right _ (List.mem_map_of_mem hname'), .refl _⟩

/-- Neither order decides whether a graph can be built. -/
theorem SameUpToOrder.exists_build_iff :
    (∃ g, TypeGraph.build d implicit = .ok g) ↔ ∃ g', TypeGraph.build d' implicit' = .ok g' := by
  have hknown := h.mem_knownNames_iff himplicit
  rw [TypeGraph.exists_build_iff, TypeGraph.exists_build_iff, h.names_perm.nodup_iff]
  constructor
  · rintro ⟨hnodup, hproblems⟩
    refine ⟨hnodup, fun t' ht' => ?_⟩
    obtain ⟨t, ht, hsame⟩ := h.exists_left ht'
    exact (hsame.problems_eq_nil_iff hknown).mp (hproblems t ht)
  · rintro ⟨hnodup, hproblems⟩
    refine ⟨hnodup, fun t ht => ?_⟩
    obtain ⟨t', ht', hsame⟩ := h.exists_right ht
    exact (hsame.problems_eq_nil_iff hknown).mpr (hproblems t' ht')

end Implicit
end GraphDescription

/-- Definitions agree up to order when their descriptions do. -/
theorem TypeDef.sameOutline_of_describe {ι : Type} {nameOf : ι → String}
    (hnames : Function.Injective nameOf) {t t' : TypeDef ι}
    (h : (t.map nameOf).describe.SameUpToOrder (t'.map nameOf).describe) :
    t.SameOutline t' ∧ t'.members = t.members := by
  have hrest : t' = { t with constructors := t'.constructors, interfaces := t'.interfaces } :=
    TypeDef.describe_map_injective hnames h.rest
  have hmembers : t'.members = t.members := congrArg (·.members) hrest
  have hconstructors : t.constructors.Perm t'.constructors :=
    (List.map_perm_map_iff (List.map_injective_iff.mpr hnames)).mp h.constructors
  have hinterfaces : t.interfaces.Perm t'.interfaces :=
    (List.map_perm_map_iff hnames).mp h.interfaces
  exact ⟨⟨hconstructors, hinterfaces, by rw [hmembers]; exact hrest⟩, hmembers⟩

namespace TypeGraph

/-- The types of `g` are types of `g'`, each with its constructors and interfaces in any order. -/
structure SameUpToOrder (g g' : TypeGraph) (φ : g.Handle → g'.Handle) : Prop extends
    g.SameOutlines g' φ where
  members : ∀ i, (g'.typeAt (φ i)).members = (g.typeAt i).members.map (·.map φ)

/-- The same findings come from definitions that are the same up to order. -/
theorem SameUpToOrder.analyze {g g' : TypeGraph} {φ : g.Handle → g'.Handle}
    (h : g.SameUpToOrder g' φ) (c : Config) (i : g.Handle) :
    g'.analyze c (φ i) = g.analyze c i := by
  exact (h.seenAlike.walksAlike c).analyze_map fun j _ => h.checksAlike c (h.members j)

/-- The reports of a check by the names of the roots. -/
def namedReports (g : TypeGraph) (c : Config) : List (String × List Diagnostic) :=
  (g.check c).map fun r => (g.nameOf r.root, r.diagnostics)

section Built

variable {d d' : GraphDescription} {implicit implicit' : List String} {g g' : TypeGraph}

theorem namedReports_eq (g : TypeGraph) (c : Config) :
    g.namedReports c = g.formattableRoots.map fun i => (g.nameOf i, g.analyze c i) := by
  simp [namedReports, check, analyzeAll, Function.comp_def]

variable (hg : build d implicit = .ok g) (hg' : build d' implicit' = .ok g')
  (h : d.SameUpToOrder d') (himplicit : ∀ name, name ∈ implicit ↔ name ∈ implicit')
include hg hg' h himplicit

/-- The handles of one graph are those of the other, type by type of the same name. -/
theorem exists_sameUpToOrder : ∃ φ : g.Handle → g'.Handle, g.SameUpToOrder g' φ := by
  obtain ⟨φ, hinjective, hnames, hφ⟩ := exists_handleMap hg hg'
    TypeDescription.SameUpToOrder.name TypeDescription.SameUpToOrder.normalized
    fun _ => h.exists_entry himplicit
  have hdefinition (i : g.Handle) :
      ((g.typeAt i).map φ).SameOutline (g'.typeAt (φ i)) ∧
        (g'.typeAt (φ i)).members = ((g.typeAt i).map φ).members := by
    apply TypeDef.sameOutline_of_describe (nameOf_injective hg')
    rw [describe_of_nameOf hnames i]
    exact hφ i
  exact ⟨φ, ⟨hinjective, fun i => (hdefinition i).1⟩, fun i => (hdefinition i).2⟩

end Built

section Corresponding

variable {d d' : GraphDescription} {implicit implicit' : List String} {g g' : TypeGraph}
  {φ : g.Handle → g'.Handle} (hg : build d implicit = .ok g) (hg' : build d' implicit' = .ok g')
  (hφ : ∀ i, g'.nameOf (φ i) = g.nameOf i)
include hg hg' hφ

/-- A name is looked up alike when the same names are known. -/
theorem lookup_map (hknown : ∀ name, name ∈ d.knownNames implicit ↔ name ∈ d'.knownNames implicit')
    (name : String) : g'.lookup name = (g.lookup name).map φ := by
  cases hlookup : g.lookup name with
  | some i =>
    rw [Option.map_some, lookup_eq_some_iff (nameOf_injective hg'), hφ i]
    exact nameOf_of_lookup hlookup
  | none =>
    rw [Option.map_none, Option.eq_none_iff_forall_ne_some]
    intro j hj
    obtain ⟨i, hi⟩ := (exists_nameOf_iff hg).mpr
      ((hknown name).mpr ((exists_nameOf_iff hg').mp ⟨j, nameOf_of_lookup hj⟩))
    rw [(lookup_eq_some_iff (nameOf_injective hg)).mpr hi] at hlookup
    cases hlookup

/-- The roots are the same types when the same names are declared. -/
theorem formattableRoots_perm (hdeclared : d.names.Perm d'.names)
    (hroot : ∀ i, (g'.typeAt (φ i)).isFormattableRoot = (g.typeAt i).isFormattableRoot) :
    (g.formattableRoots.map φ).Perm g'.formattableRoots := by
  have hinjective : Function.Injective φ := injective_of_nameOf hg hφ
  have hdistinct (g : TypeGraph) : g.formattableRoots.Nodup :=
    ((List.nodup_finRange g.size).filter _).filter _
  apply (List.perm_ext_iff_of_nodup ((hdistinct g).map hinjective) (hdistinct g')).mpr
  intro j
  simp only [formattableRoots, List.mem_map, List.mem_filter, mem_declaredHandles_iff hg,
    mem_declaredHandles_iff hg']
  constructor
  · rintro ⟨i, ⟨hi, hformattable⟩, rfl⟩
    exact ⟨hφ i ▸ hdeclared.mem_iff.mp hi, (hroot i).trans hformattable⟩
  · rintro ⟨hj, hformattable⟩
    have hname := hdeclared.mem_iff.mpr hj
    obtain ⟨i, hi⟩ := (exists_nameOf_iff hg).mpr
      (List.mem_append_left implicit (List.mem_append_left builtinScalars hname))
    obtain rfl : φ i = j := nameOf_injective hg' ((hφ i).trans hi)
    exact ⟨i, ⟨hi ▸ hname, (hroot i).symm.trans hformattable⟩, rfl⟩

end Corresponding

/-- Reports follow the declarations. -/
theorem namedReports_in_declaration_order {d : GraphDescription} {implicit : List String}
    {g : TypeGraph} (hg : build d implicit = .ok g) (c : Config) :
    ((g.namedReports c).map (·.1)).Sublist d.names := by
  rw [namedReports_eq, List.map_map, ← names_declaredHandles hg]
  exact List.filter_sublist.map g.nameOf

/-- The order in which types, constructors, interfaces and other names are listed has no say in
whether a graph is built, nor in what is found about a type. Only reports are listed in the order
of the declarations. -/
theorem declaration_order_changes_no_finding {d d' : GraphDescription}
    {implicit implicit' : List String} (h : d.SameUpToOrder d')
    (himplicit : ∀ name, name ∈ implicit ↔ name ∈ implicit') :
    ((∃ g, build d implicit = .ok g) ↔ ∃ g', build d' implicit' = .ok g') ∧
      ∀ g g', build d implicit = .ok g → build d' implicit' = .ok g' → ∀ c : Config,
        (∀ name, (g'.lookup name).map (g'.analyze c) = (g.lookup name).map (g.analyze c)) ∧
        (g'.namedReports c).Perm (g.namedReports c) ∧
        ((g'.namedReports c).map (·.1)).Sublist d'.names := by
  refine ⟨h.exists_build_iff himplicit, fun g g' hg hg' c => ?_⟩
  obtain ⟨φ, hφ⟩ := exists_sameUpToOrder hg hg' h himplicit
  refine ⟨fun name => ?_, ?_, namedReports_in_declaration_order hg' c⟩
  · rw [lookup_map hg hg' hφ.name (h.mem_knownNames_iff himplicit) name, Option.map_map]
    congr 1
    exact funext (hφ.analyze c)
  · have hroots := formattableRoots_perm hg hg' hφ.name h.names_perm
      hφ.seenAlike.isFormattableRoot
    have hreports := hroots.map fun j => (g'.nameOf j, g'.analyze c j)
    rw [List.map_map] at hreports
    rw [namedReports_eq, namedReports_eq]
    refine hreports.symm.trans (.of_eq (List.map_congr_left fun i _ => ?_))
    exact Prod.ext (hφ.name i) (hφ.analyze c i)

/-- A fleet is a collection by the second of its interfaces, and lists vessels. -/
def harbor : GraphDescription where
  types := [
    TypeDescription.ofKind .structType "Voyage"
      |>.asFormattable
      |>.withConstructor ["Fleet"]
      |>.withConstructor ["int", "Fleet"]
      |>.withMember (((MemberDescription.field "Ships" "Fleet").indexed 1).declaredAt { line := 2 })
      |>.withMember ((MemberDescription.property "Number" "int").indexed 0),
    TypeDescription.generic "Fleet" .classType "Fleet<>" ["Vessel"]
      |>.implementing "Named"
      |>.implementing "Vessels",
    .generic "Vessels" .interfaceType "System.Collections.Generic.ICollection<>" ["Vessel"],
    .ofKind .classType "Vessel"]

/-- The harbor with all that has an order the other way round. -/
def mirroredHarbor : GraphDescription where
  types := harbor.types.reverse.map fun t =>
    { t with constructors := t.constructors.reverse, interfaces := t.interfaces.reverse }

theorem harbor_sameUpToOrder : harbor.SameUpToOrder mirroredHarbor := by
  refine ⟨harbor.types.map fun t => { t with
    constructors := t.constructors.reverse, interfaces := t.interfaces.reverse }, ?_, ?_⟩
  · rw [List.forall₂_map_right_iff]
    exact List.forall₂_same.mpr fun t _ =>
      ⟨(List.reverse_perm _).symm, (List.reverse_perm _).symm, rfl⟩
  · exact (List.reverse_perm harbor.types).symm.map _

def harborGraph : TypeGraph := (build harbor ["Named"]).toOption.get (by decide +kernel)

/-- A voyage leads to vessels, which are not annotated, in the mirrored harbor as well. -/
theorem voyage_found_in_mirroredHarbor :
    harbor.SameUpToOrder mirroredHarbor ∧
      (∀ name, name ∈ ["Named"] ↔ name ∈ ["Named", "Named"]) ∧
      build harbor ["Named"] = .ok harborGraph ∧
      ∃ g', build mirroredHarbor ["Named", "Named"] = .ok g' ∧
        (g'.lookup "Voyage").map (g'.analyze {}) =
          some [.typeMustBeAnnotated { line := 2 } ⟨"Vessel", {}⟩] ∧
        (g'.namedReports {}).Perm (harborGraph.namedReports {}) := by
  have himplicit : ∀ name, name ∈ ["Named"] ↔ name ∈ ["Named", "Named"] := by simp
  have hg : build harbor ["Named"] = .ok harborGraph := rfl
  have hvoyage : (harborGraph.lookup "Voyage").map (harborGraph.analyze {}) =
      some [.typeMustBeAnnotated { line := 2 } ⟨"Vessel", {}⟩] := by
    decide +kernel
  obtain ⟨hbuilt, hfound⟩ := declaration_order_changes_no_finding harbor_sameUpToOrder himplicit
  obtain ⟨g', hg'⟩ := hbuilt.mp ⟨harborGraph, hg⟩
  obtain ⟨hlookup, hreports, -⟩ := hfound harborGraph g' hg hg' {}
  exact ⟨harbor_sameUpToOrder, himplicit, hg, g', hg', (hlookup "Voyage").trans hvoyage, hreports⟩

end TypeGraph
end LayoutContract
