import LayoutContract.Proofs.BuiltGraphs

/-!
Descriptions that extend others. Each type that is declared is changed in some way that leaves its
name, and more types are declared under names that were not known. The types of the first graph
are then found in the second by their names, although implicit types have moved.
-/
namespace LayoutContract

theorem exists_right_of_forall₂ {α β : Type} {R : α → β → Prop} {as : List α} {bs : List β}
    (h : List.Forall₂ R as bs) {a : α} (ha : a ∈ as) : ∃ b ∈ bs, R a b := by
  induction h with
  | nil => simp at ha
  | @cons first b _ bs hfirst _ ih =>
    rcases List.mem_cons.mp ha with rfl | ha
    · exact ⟨b, List.mem_cons_self, hfirst⟩
    · obtain ⟨b', hb', hR⟩ := ih ha
      exact ⟨b', List.mem_cons_of_mem b hb', hR⟩

namespace GraphDescription

variable {R : TypeDescription → TypeDescription → Prop} {d d' : GraphDescription}
  {implicit : List String}

/-- The types of `d'`, in any order, are those of `d`, each changed as `R` allows, and others with
names that are not known in `d`. -/
def Extends (R : TypeDescription → TypeDescription → Prop) (implicit : List String)
    (d d' : GraphDescription) : Prop :=
  ∃ kept added, d'.types.Perm (kept ++ added) ∧ List.Forall₂ R d.types kept ∧
    ∀ t ∈ added, t.name ∉ d.knownNames implicit

/-- Names that stand for themselves go on to do so. -/
theorem Extends.mem_newNames (h : d.Extends R implicit d')
    (hname : ∀ {t t'}, R t t' → t'.name = t.name) {name : String}
    (hnew : name ∈ newNames d.names (builtinScalars ++ implicit)) :
    name ∈ newNames d'.names (builtinScalars ++ implicit) := by
  obtain ⟨kept, added, htypes, hkept, hunknown⟩ := h
  have hnames : d'.names.Perm (d.names ++ added.map (·.name)) := by
    have hsame : kept.map (·.name) = d.names := map_eq_map_of_forall₂ hkept fun _ _ => hname
    simpa [names, hsame] using htypes.map (·.name)
  rw [mem_newNames_iff] at hnew ⊢
  refine ⟨hnew.1, fun hmem => ?_⟩
  rw [hnames.mem_iff, List.mem_append, List.mem_map] at hmem
  rcases hmem with hmem | ⟨t, ht, rfl⟩
  · exact hnew.2 hmem
  · refine hunknown t ht ?_
    rw [knownNames, List.append_assoc]
    exact List.mem_append_right _ hnew.1

theorem Extends.exists_entry (h : d.Extends R implicit d')
    (hname : ∀ {t t'}, R t t' → t'.name = t.name)
    (himplicit : ∀ name ∈ newNames d.names (builtinScalars ++ implicit),
      R (.implicit name) (.implicit name))
    {t : TypeDescription} (ht : t ∈ d.entries implicit) :
    ∃ t' ∈ d'.entries implicit, R t t' := by
  rcases List.mem_append.mp ht with ht | ht
  · obtain ⟨kept, added, htypes, hkept, -⟩ := h
    obtain ⟨t', ht', hR⟩ := exists_right_of_forall₂ hkept ht
    exact ⟨t', List.mem_append_left _ (htypes.mem_iff.mpr (List.mem_append_left added ht')), hR⟩
  · obtain ⟨name, hnew, rfl⟩ := List.mem_map.mp ht
    have hnew' := h.mem_newNames hname hnew
    exact ⟨.implicit name, List.mem_append_right _ (List.mem_map_of_mem hnew'),
      himplicit name hnew⟩

end GraphDescription

namespace TypeGraph

variable {R : TypeDescription → TypeDescription → Prop} {d d' : GraphDescription}
  {implicit implicit' : List String} {g g' : TypeGraph}

/-- Handles that keep their names are kept apart. -/
theorem injective_of_nameOf {φ : g.Handle → g'.Handle} (hg : build d implicit = .ok g)
    (hφ : ∀ i, g'.nameOf (φ i) = g.nameOf i) : Function.Injective φ := by
  have hnames : g.nameOf = g'.nameOf ∘ φ := funext fun i => (hφ i).symm
  exact (hnames ▸ nameOf_injective hg).of_comp

/-- When each entry has one of its name in another description, the types of the one graph are
types of the other. -/
theorem exists_handleMap (hg : build d implicit = .ok g) (hg' : build d' implicit' = .ok g')
    (hname : ∀ {t t'}, R t t' → t'.name = t.name)
    (hnormalized : ∀ {t t'}, R t t' → R t.normalized t'.normalized)
    (hentries : ∀ t ∈ d.entries implicit, ∃ t' ∈ d'.entries implicit', R t t') :
    ∃ φ : g.Handle → g'.Handle, Function.Injective φ ∧ (∀ i, g'.nameOf (φ i) = g.nameOf i) ∧
      ∀ i, R (g.describe i) (g'.describe (φ i)) := by
  -- From a handle to its entry, across to an entry of the other description, back to a handle.
  have hacross (i : g.Handle) : ∃ j, R (g.describe i) (g'.describe j) := by
    obtain ⟨t, ht, hdescribe⟩ := (exists_entry_iff hg).mp ⟨i, rfl⟩
    obtain ⟨t', ht', hR⟩ := hentries t ht
    obtain ⟨j, hj⟩ := (exists_entry_iff hg').mpr ⟨t', ht', rfl⟩
    exact ⟨j, hdescribe ▸ hj ▸ hnormalized hR⟩
  choose φ hφ using hacross
  have hnames (i : g.Handle) : g'.nameOf (φ i) = g.nameOf i := hname (hφ i)
  exact ⟨φ, injective_of_nameOf hg hnames, hnames, hφ⟩

/-- A definition is described alike with the handles of another graph. -/
theorem describe_of_nameOf {φ : g.Handle → g'.Handle} (hφ : ∀ i, g'.nameOf (φ i) = g.nameOf i)
    (i : g.Handle) : (((g.typeAt i).map φ).map g'.nameOf).describe = g.describe i := by
  have hnames : g'.nameOf ∘ φ = g.nameOf := funext hφ
  rw [TypeDef.map_map, hnames, describe]

end TypeGraph
end LayoutContract
