import LayoutContract.TypeGraph.Build
import Mathlib.Data.List.Nodup

/-!
The names of the types of a graph that was built from a description. The declared names are told
apart by the search for a repeated name, and a name is added besides only when it is new, so the
types of the graph have distinct names.
-/
namespace LayoutContract

theorem firstRepeatedAfter_eq_none_iff (seen names : List String) :
    firstRepeatedAfter seen names = none ↔ names.Nodup ∧ ∀ name ∈ names, name ∉ seen := by
  induction names generalizing seen with
  | nil => simp [firstRepeatedAfter]
  | cons name names ih =>
    by_cases hseen : name ∈ seen
    · simp [firstRepeatedAfter, hseen]
    · rw [firstRepeatedAfter, if_neg hseen, ih, List.nodup_cons]
      constructor
      · rintro ⟨hnodup, hnew⟩
        refine ⟨⟨fun hname => hnew name hname List.mem_cons_self, hnodup⟩, ?_⟩
        intro n hn
        rcases List.mem_cons.mp hn with rfl | hn
        · exact hseen
        · exact fun hmem => hnew n hn (List.mem_cons_of_mem name hmem)
      · rintro ⟨⟨hname, hnodup⟩, hnew⟩
        refine ⟨hnodup, fun n hn hmem => ?_⟩
        rcases List.mem_cons.mp hmem with rfl | hmem
        · exact hname hn
        · exact hnew n (List.mem_cons_of_mem name hn) hmem

theorem firstRepeated_eq_none_iff (names : List String) :
    firstRepeated names = none ↔ names.Nodup := by
  simp [firstRepeated, firstRepeatedAfter_eq_none_iff]

theorem mem_newNames_iff {known names : List String} {n : String} :
    n ∈ newNames known names ↔ n ∈ names ∧ n ∉ known := by
  induction names generalizing known with
  | nil => simp [newNames]
  | cons name names ih =>
    by_cases hknown : name ∈ known
    · rw [newNames, if_pos hknown, ih]
      constructor
      · rintro ⟨hn, hnew⟩
        exact ⟨List.mem_cons_of_mem name hn, hnew⟩
      · rintro ⟨hn, hnew⟩
        rcases List.mem_cons.mp hn with rfl | hn
        · exact absurd hknown hnew
        · exact ⟨hn, hnew⟩
    · rw [newNames, if_neg hknown, List.mem_cons, ih]
      constructor
      · rintro (rfl | ⟨hn, hnew⟩)
        · exact ⟨List.mem_cons_self, hknown⟩
        · exact ⟨List.mem_cons_of_mem name hn, fun h => hnew (List.mem_cons_of_mem name h)⟩
      · rintro ⟨hn, hnew⟩
        by_cases hname : n = name
        · exact .inl hname
        · refine .inr ⟨(List.mem_cons.mp hn).resolve_left hname, fun h => ?_⟩
          exact (List.mem_cons.mp h).elim hname hnew

theorem newNames_nodup (known names : List String) : (newNames known names).Nodup := by
  induction names generalizing known with
  | nil => exact List.nodup_nil
  | cons name names ih =>
    by_cases hknown : name ∈ known
    · rw [newNames, if_pos hknown]
      exact ih known
    · rw [newNames, if_neg hknown]
      have hnew : name ∉ newNames (name :: known) names :=
        fun h => (mem_newNames_iff.mp h).2 List.mem_cons_self
      exact List.nodup_cons.mpr ⟨hnew, ih (name :: known)⟩

namespace GraphDescription

theorem names_entries (d : GraphDescription) (implicit : List String) :
    (d.entries implicit).map (·.name) =
      d.names ++ newNames d.names (builtinScalars ++ implicit) := by
  have himplicit : (fun name => (TypeDescription.implicit name).name) = id := rfl
  simp [entries, names, Function.comp_def, himplicit]

theorem names_entries_nodup {d : GraphDescription} (h : d.names.Nodup)
    (implicit : List String) : ((d.entries implicit).map (·.name)).Nodup := by
  rw [names_entries, List.nodup_append']
  refine ⟨h, newNames_nodup _ _, ?_⟩
  intro name hname hnew
  exact (mem_newNames_iff.mp hnew).2 hname

end GraphDescription

theorem except_bind_eq_ok_iff {ε α β : Type} {x : Except ε α} {f : α → Except ε β} {b : β} :
    (x >>= f) = .ok b ↔ ∃ a, x = .ok a ∧ f a = .ok b := by
  cases x <;> simp [bind, Except.bind]

namespace TypeDescription

variable {ι : Type} {find : String → Option ι}

theorem name_of_resolve {t : TypeDescription} {resolved : TypeDef ι}
    (h : t.resolve find = .ok resolved) : resolved.name = t.name := by
  simp only [resolve, except_bind_eq_ok_iff] at h
  obtain ⟨form, _, generic, _, constructors, _, members, _, interfaces, _, hresolved⟩ := h
  cases hresolved
  rfl

theorem names_of_resolve {entries : List TypeDescription} {types : List (TypeDef ι)}
    (h : types.map .ok = entries.map (resolve find)) :
    types.map (·.name) = entries.map (·.name) := by
  induction entries generalizing types with
  | nil => simpa using h
  | cons t entries ih =>
    cases types with
    | nil => simp at h
    | cons resolved types =>
      obtain ⟨hhead, htail⟩ := List.cons.inj h
      simp only [List.map_cons]
      rw [name_of_resolve hhead.symm, ih htail]

end TypeDescription

namespace TypeGraph

variable {d : GraphDescription} {implicit : List String} {g : TypeGraph}

/-- The names by handle are the declared names and the new ones among the others. -/
theorem names_of_build (h : build d implicit = .ok g) :
    d.names.Nodup ∧
      g.handles.map (fun i => (g.typeAt i).name) = (d.entries implicit).map (·.name) := by
  unfold build at h
  cases hrepeated : firstRepeated d.names with
  | some name => simp [hrepeated] at h
  | none =>
    simp only [hrepeated] at h
    split at h
    · cases h
    · rename_i types hcollect
      cases h
      refine ⟨(firstRepeated_eq_none_iff d.names).mp hrepeated, ?_⟩
      rw [← TypeDescription.names_of_resolve types.property]
      apply List.ext_getElem
      · simpa [handles] using (congrArg List.length types.property).symm
      · intro k hk hk'
        simp [handles, typeAt]

/-- The types of a built graph are told apart by their names. -/
theorem name_injective_of_build (h : build d implicit = .ok g) :
    Function.Injective fun i => (g.typeAt i).name := by
  intro i j hname
  obtain ⟨hnodup, hnames⟩ := names_of_build h
  have hinjective := hnames ▸ GraphDescription.names_entries_nodup hnodup implicit
  exact List.inj_on_of_nodup_map hinjective (List.mem_finRange i) (List.mem_finRange j) hname

end TypeGraph
end LayoutContract
