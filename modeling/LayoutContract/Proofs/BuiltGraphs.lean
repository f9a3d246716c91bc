import LayoutContract.Proofs.BuildProblems
import LayoutContract.Proofs.Describing

/-!
What a built graph keeps of its description. Its types are the declared ones in their order, then
the built-in scalars and the other names that nobody declares. Each reference was resolved to the
type of that name in the finished graph, so the graph can be described again, and the description
in normal form is all that the graph depends on.
-/
namespace LayoutContract

theorem eraseDups_of_nodup {names : List String} (h : names.Nodup) : names.eraseDups = names := by
  induction names with
  | nil => rfl
  | cons name names ih =>
    obtain ⟨hname, hnames⟩ := List.nodup_cons.mp h
    have hkeep : names.filter (fun n => !n == name) = names := by
      apply List.filter_eq_self.mpr
      intro n hn
      have hne : n ≠ name := fun heq => hname (heq ▸ hn)
      simp [hne]
    rw [List.eraseDups_cons, hkeep, ih hnames]

/-- New names are those that are not known, without repetitions. -/
theorem newNames_eq_eraseDups (known names : List String) :
    newNames known names = (names.filter (· ∉ known)).eraseDups := by
  induction names generalizing known with
  | nil => rfl
  | cons name names ih =>
    by_cases hknown : name ∈ known
    · rw [newNames, if_pos hknown, ih, List.filter_cons_of_neg (by simpa using hknown)]
    · rw [newNames, if_neg hknown, ih, List.filter_cons_of_pos (by simpa using hknown),
        List.eraseDups_cons, List.filter_filter]
      congr 2
      apply List.filter_congr
      intro n _
      by_cases hname : n = name <;> simp [hname]

theorem positionOf_eq_some_iff {entries : List TypeDescription}
    (h : (entries.map (·.name)).Nodup) {name : String} {k : Fin entries.length} :
    positionOf entries name = some k ↔ entries[k].name = name := by
  rw [positionOf, List.findFinIdx?_eq_some_iff, beq_iff_eq]
  constructor
  · exact And.left
  · rintro rfl
    refine ⟨rfl, fun j hj heq => ?_⟩
    have hnames : (entries.map (·.name)).get (j.cast (by simp)) =
        (entries.map (·.name)).get (k.cast (by simp)) := by
      simpa using heq
    have hindex := Fin.val_eq_of_eq (h.get_inj_iff.mp hnames)
    simp only [Fin.val_cast] at hindex
    omega

theorem collect_eq_ok {ε α β : Type} {f : α → Except ε β} {as : List α} {bs : List β}
    (h : bs.map .ok = as.map f) : collect f as = .ok ⟨bs, h⟩ := by
  induction as generalizing bs with
  | nil =>
    obtain rfl : bs = [] := by simpa using h
    rfl
  | cons a as ih =>
    cases bs with
    | nil => simp at h
    | cons b bs =>
      obtain ⟨hhead, htail⟩ := List.cons.inj h
      rw [collect]
      split
      · rename_i e he
        rw [he] at hhead
        cases hhead
      · rename_i b' hb
        rw [hb, Except.ok.injEq] at hhead
        subst hhead
        rw [ih htail]

theorem TypeDescription.problems_normalized {known : List String} (t : TypeDescription) :
    t.normalized.problems known = t.problems known := by
  have helement : t.normalized.elementProblems known = t.elementProblems known := by
    unfold elementProblems
    cases hkind : t.kind <;> simp [normalized, hkind]
  have hmembers : t.normalized.members.map (·.type) = t.members.map (·.type) := by
    simp only [normalized, List.map_map]
    apply List.map_congr_left
    intro m _
    cases hkind : m.kind <;> simp [MemberDescription.normalized, hkind]
  unfold problems
  rw [helement, hmembers]
  rfl

namespace GraphDescription

theorem names_normalized (d : GraphDescription) : d.normalized.names = d.names := by
  simp [names, normalized, Function.comp_def]

theorem knownNames_normalized (d : GraphDescription) (implicit : List String) :
    d.normalized.knownNames implicit = d.knownNames implicit := by
  rw [knownNames, names_normalized, knownNames]

/-- The names that only stand for themselves: the scalars that are built in and then all others,
each at its first occurrence. -/
theorem names_entries_eq (d : GraphDescription) (implicit : List String) :
    (d.entries implicit).map (·.name) =
      d.names ++ builtinScalars.filter (· ∉ d.names) ++
        (implicit.filter fun name => name ∉ d.names ∧ name ∉ builtinScalars).eraseDups := by
  have hscalars : (builtinScalars.filter (· ∉ d.names)).Nodup :=
    List.Nodup.filter _ (by decide)
  rw [names_entries, newNames_eq_eraseDups, List.filter_append, List.eraseDups_append,
    eraseDups_of_nodup hscalars, List.append_assoc]
  congr 3
  rw [List.removeAll, List.filter_filter]
  apply List.filter_congr
  intro name _
  by_cases hname : name ∈ d.names <;> simp [hname]

end GraphDescription

namespace TypeGraph

variable (g : TypeGraph)

def nameOf (i : g.Handle) : String := (g.typeAt i).name

/-- The description of a type, with the names of the types that it refers to. -/
def describe (i : g.Handle) : TypeDescription := ((g.typeAt i).map g.nameOf).describe

/-- What a graph keeps of the description that it was built from. -/
structure Represents (d : GraphDescription) (implicit : List String) : Prop where
  lookup : ∀ name k, (g.lookup name).map (·.val) = some k ↔
    ∃ hk : k < g.size, (g.typeAt ⟨k, hk⟩).name = name
  declared : g.declaredHandles.map (·.val) = List.range d.types.length
  names : g.handles.map g.nameOf =
    d.names ++ builtinScalars.filter (· ∉ d.names) ++
      (implicit.filter fun name => name ∉ d.names ∧ name ∉ builtinScalars).eraseDups
  closed : ∀ i, ∀ k ∈ ((g.typeAt i).map (·.val)).references, k < g.size
  faithful : g.declaredHandles.map g.describe = d.types.map (·.normalized)
  nameOnly : ∀ i ∈ g.implicitHandles,
    g.describe i = (TypeDescription.implicit (g.nameOf i)).normalized

variable {g} {d : GraphDescription} {implicit : List String}

theorem nameOf_of_lookup {name : String} {i : g.Handle} (h : g.lookup name = some i) :
    g.nameOf i = name :=
  of_decide_eq_true (List.find?_some (p := fun i => decide ((g.typeAt i).name = name)) h)

theorem lookup_eq_some_iff (h : Function.Injective g.nameOf) {name : String} {i : g.Handle} :
    g.lookup name = some i ↔ g.nameOf i = name := by
  constructor
  · exact nameOf_of_lookup
  · rintro rfl
    have hsome : (g.lookup (g.nameOf i)).isSome = true := by
      rw [lookup, List.find?_isSome]
      exact ⟨i, List.mem_finRange i, by simp [nameOf]⟩
    obtain ⟨j, hj⟩ := Option.isSome_iff_exists.mp hsome
    rw [hj, h (nameOf_of_lookup hj)]

theorem nameOf_injective (h : build d implicit = .ok g) : Function.Injective g.nameOf :=
  name_injective_of_build h

/-- A graph is built when names are told apart and the entries, resolved by their positions, are
its types. -/
theorem build_eq_ok_iff_resolve :
    build d implicit = .ok g ↔
      d.names.Nodup ∧ g.declared = d.types.length ∧
        ∃ hsize : (d.entries implicit).length = g.size, ∀ k : Fin (d.entries implicit).length,
          (d.entries implicit)[k].resolve
              (fun name => (positionOf (d.entries implicit) name).map (Fin.cast hsize)) =
            .ok (g.typeAt (k.cast hsize)) := by
  rw [← firstRepeated_eq_none_iff]
  constructor
  · intro h
    unfold build at h
    cases hrepeated : firstRepeated d.names with
    | some name => simp [hrepeated] at h
    | none =>
      simp only [hrepeated] at h
      split at h
      · cases h
      · rename_i types hcollect
        cases h
        refine ⟨rfl, rfl, rfl, fun k => ?_⟩
        have hresolve := List.getElem_of_eq types.property.symm (i := k.val) (by simp)
        simpa [typeAt] using hresolve
  · rintro ⟨hrepeated, hdeclared, hsize, hresolve⟩
    obtain ⟨size, types, declared, hle⟩ := g
    dsimp only at hsize hdeclared
    subst hsize hdeclared
    have htypes : types.toList.map .ok =
        (d.entries implicit).map (TypeDescription.resolve (positionOf (d.entries implicit))) := by
      apply List.ext_getElem
      · simp
      · intro k hk hk'
        have hget := hresolve ⟨k, by simpa using hk'⟩
        simpa [typeAt] using hget.symm
    unfold build
    simp only [hrepeated, collect_eq_ok htypes]
    congr 2

/-- Each type of a built graph was resolved by looking names up in the finished graph. -/
theorem resolved_by_lookup (h : build d implicit = .ok g) :
    List.Forall₂ (fun t i => t.resolve g.lookup = .ok (g.typeAt i)) (d.entries implicit)
      g.handles := by
  have hnodup := GraphDescription.names_entries_nodup (names_of_build h).1 implicit
  obtain ⟨-, -, hsize, hresolve⟩ := build_eq_ok_iff_resolve.mp h
  have hfind : (fun name => (positionOf (d.entries implicit) name).map (Fin.cast hsize)) =
      g.lookup := by
    funext name
    apply Option.ext
    intro i
    have hname : g.nameOf i = (d.entries implicit)[i.cast hsize.symm].name :=
      TypeDescription.name_of_resolve (hresolve (i.cast hsize.symm))
    rw [lookup_eq_some_iff (nameOf_injective h), hname, ← positionOf_eq_some_iff hnodup,
      Option.map_eq_some_iff]
    constructor
    · rintro ⟨k, hk, rfl⟩
      exact hk
    · intro hk
      exact ⟨i.cast hsize.symm, hk, rfl⟩
  rw [List.forall₂_iff_get]
  refine ⟨by simp [handles, hsize], fun k hk hk' => ?_⟩
  rw [← hfind]
  simpa [handles] using hresolve ⟨k, hk⟩

/-- A built graph is described by the entries that it was built from, in normal form. -/
theorem describe_handles (h : build d implicit = .ok g) :
    g.handles.map g.describe = (d.entries implicit).map (·.normalized) :=
  map_eq_map_of_forall₂ (resolved_by_lookup h) fun _ _ hresolve =>
    TypeDescription.describe_of_resolve
      (fun _ _ => (lookup_eq_some_iff (nameOf_injective h)).mp) hresolve

/-- A graph is built from a description when its types are described by the entries. -/
theorem build_eq_ok_iff :
    build d implicit = .ok g ↔
      d.names.Nodup ∧ g.declared = d.types.length ∧
        g.handles.map g.describe = (d.entries implicit).map (·.normalized) := by
  constructor
  · intro h
    obtain ⟨hnodup, hdeclared, -⟩ := build_eq_ok_iff_resolve.mp h
    exact ⟨hnodup, hdeclared, describe_handles h⟩
  · rintro ⟨hnodup, hdeclared, hdescribe⟩
    have hsize : (d.entries implicit).length = g.size := by
      simpa [handles] using (congrArg List.length hdescribe).symm
    have hentries := GraphDescription.names_entries_nodup hnodup implicit
    have hentry (k : Fin (d.entries implicit).length) :
        (d.entries implicit)[k].normalized = g.describe (k.cast hsize) := by
      have hget := List.getElem_of_eq hdescribe (i := k.val) (by simp [handles, ← hsize])
      simp only [List.getElem_map, handles, List.getElem_finRange] at hget
      exact hget.symm
    refine build_eq_ok_iff_resolve.mpr ⟨hnodup, hdeclared, hsize, fun k => ?_⟩
    rw [← TypeDescription.resolve_normalized, hentry k]
    apply TypeDef.resolve_describe
    intro i
    have hname : (d.entries implicit)[i.cast hsize.symm].name = g.nameOf i :=
      congrArg (·.name) (hentry (i.cast hsize.symm))
    rw [(positionOf_eq_some_iff hentries).mpr hname]
    simp

theorem val_lt_of_mem_take {k : Nat} {i : g.Handle} (h : i ∈ g.handles.take k) : i.val < k := by
  obtain ⟨j, hj, rfl⟩ := List.mem_take_iff_getElem.mp h
  simp only [handles, List.getElem_finRange]
  exact (Nat.lt_min.mp hj).1

theorem le_val_of_mem_drop {k : Nat} {i : g.Handle} (h : i ∈ g.handles.drop k) : k ≤ i.val := by
  obtain ⟨j, hj, rfl⟩ := List.mem_drop_iff_getElem.mp h
  simp only [handles, List.getElem_finRange]
  exact Nat.le_add_right k j

theorem declaredHandles_eq_take (g : TypeGraph) :
    g.declaredHandles = g.handles.take g.declared := by
  have hfirst : (g.handles.take g.declared).filter (·.val < g.declared) =
      g.handles.take g.declared :=
    List.filter_eq_self.mpr fun i hi => decide_eq_true (val_lt_of_mem_take hi)
  have hrest : (g.handles.drop g.declared).filter (·.val < g.declared) = [] :=
    List.filter_eq_nil_iff.mpr fun i hi => by simpa using le_val_of_mem_drop hi
  rw [declaredHandles]
  conv_lhs => rw [← List.take_append_drop g.declared g.handles]
  rw [List.filter_append, hfirst, hrest, List.append_nil]

theorem implicitHandles_eq_drop (g : TypeGraph) :
    g.implicitHandles = g.handles.drop g.declared := by
  have hfirst : (g.handles.take g.declared).filter (g.declared ≤ ·.val) = [] :=
    List.filter_eq_nil_iff.mpr fun i hi => by simpa using val_lt_of_mem_take hi
  have hrest : (g.handles.drop g.declared).filter (g.declared ≤ ·.val) =
      g.handles.drop g.declared :=
    List.filter_eq_self.mpr fun i hi => decide_eq_true (le_val_of_mem_drop hi)
  rw [implicitHandles]
  conv_lhs => rw [← List.take_append_drop g.declared g.handles]
  rw [List.filter_append, hfirst, hrest, List.nil_append]

theorem declared_of_build (h : build d implicit = .ok g) : g.declared = d.types.length :=
  (build_eq_ok_iff.mp h).2.1

theorem describe_declaredHandles (h : build d implicit = .ok g) :
    g.declaredHandles.map g.describe = d.types.map (·.normalized) := by
  rw [declaredHandles_eq_take, List.map_take, describe_handles h, declared_of_build h,
    GraphDescription.entries, List.map_append, List.take_left' (by simp)]

theorem describe_implicitHandles (h : build d implicit = .ok g) :
    g.implicitHandles.map g.describe =
      (newNames d.names (builtinScalars ++ implicit)).map
        fun name => (TypeDescription.implicit name).normalized := by
  rw [implicitHandles_eq_drop, List.map_drop, describe_handles h, declared_of_build h,
    GraphDescription.entries, List.map_append, List.drop_left' (by simp), List.map_map]
  rfl

theorem exists_nameOf_iff (h : build d implicit = .ok g) {name : String} :
    (∃ i, g.nameOf i = name) ↔ name ∈ d.knownNames implicit := by
  rw [← GraphDescription.mem_names_entries_iff, ← (names_of_build h).2, List.mem_map]
  simp [handles, nameOf]

theorem names_declaredHandles (h : build d implicit = .ok g) :
    g.declaredHandles.map g.nameOf = d.names := by
  have hnames := congrArg (List.map (·.name)) (describe_declaredHandles h)
  rw [List.map_map, List.map_map] at hnames
  exact hnames

theorem mem_declaredHandles_iff (h : build d implicit = .ok g) {i : g.Handle} :
    i ∈ g.declaredHandles ↔ g.nameOf i ∈ d.names := by
  rw [← names_declaredHandles h, List.mem_map_of_injective (nameOf_injective h)]

/-- A type is described by an entry, and each entry describes a type. -/
theorem exists_entry_iff (h : build d implicit = .ok g) {t : TypeDescription} :
    (∃ i, g.describe i = t) ↔ ∃ entry ∈ d.entries implicit, entry.normalized = t := by
  rw [← List.mem_map, ← describe_handles h, List.mem_map]
  simp [handles]

/-- A type is described by the entry of its name. -/
theorem describe_of_mem_entries (h : build d implicit = .ok g) {t : TypeDescription}
    (ht : t ∈ d.entries implicit) {i : g.Handle} (hname : t.name = g.nameOf i) :
    g.describe i = t.normalized := by
  obtain ⟨j, hj⟩ := (exists_entry_iff h).mpr ⟨t, ht, rfl⟩
  have hsame : g.nameOf j = t.name := congrArg (·.name) hj
  rwa [nameOf_injective h (hsame.trans hname)] at hj

theorem represents_of_build (h : build d implicit = .ok g) : g.Represents d implicit where
  lookup name k := by
    rw [Option.map_eq_some_iff]
    constructor
    · rintro ⟨i, hi, rfl⟩
      exact ⟨i.isLt, nameOf_of_lookup hi⟩
    · rintro ⟨hk, hname⟩
      exact ⟨⟨k, hk⟩, (lookup_eq_some_iff (nameOf_injective h)).mpr hname, rfl⟩
  declared := by
    rw [declaredHandles_eq_take, List.map_take, handles, List.map_coe_finRange_eq_range,
      List.take_range, Nat.min_eq_left g.declared_le, declared_of_build h]
  names := (names_of_build h).2.trans (d.names_entries_eq implicit)
  closed i k hk := by
    rw [TypeDef.references_map] at hk
    obtain ⟨j, _, rfl⟩ := List.mem_map.mp hk
    exact j.isLt
  faithful := describe_declaredHandles h
  nameOnly i hi := by
    have hmem : g.describe i ∈ g.implicitHandles.map g.describe := List.mem_map_of_mem hi
    rw [describe_implicitHandles h] at hmem
    obtain ⟨name, _, hname⟩ := List.mem_map.mp hmem
    have hsame : g.nameOf i = name := (congrArg (·.name) hname).symm
    rw [hsame, hname]

theorem entries_normalized (d : GraphDescription) (implicit : List String) :
    (d.normalized.entries implicit).map (·.normalized) =
      (d.entries implicit).map (·.normalized) := by
  simp only [GraphDescription.entries, List.map_append, GraphDescription.names_normalized]
  simp [GraphDescription.normalized, Function.comp_def]

/-- A description and its normal form lead to the same graph or to the same failure. -/
theorem build_normalized (d : GraphDescription) (implicit : List String) :
    build d.normalized implicit = build d implicit := by
  apply except_ext
  · intro g
    rw [build_eq_ok_iff, build_eq_ok_iff, entries_normalized, GraphDescription.names_normalized,
      GraphDescription.normalized, List.length_map]
  · have hproblems : d.normalized.types.flatMap (·.problems (d.knownNames implicit)) =
        d.types.flatMap (·.problems (d.knownNames implicit)) := by
      simp only [GraphDescription.normalized, List.flatMap_map,
        TypeDescription.problems_normalized]
    rw [failure?_build, failure?_build, GraphDescription.knownNames_normalized,
      GraphDescription.names_normalized, hproblems]

/-- A graph that is built keeps all that its description says, up to its normal form, and the
normal form is all that building depends on. -/
theorem build_keeps_description (d : GraphDescription) (implicit : List String) :
    (∀ g, build d implicit = .ok g → g.Represents d implicit) ∧
      build d.normalized implicit = build d implicit :=
  ⟨fun _ => represents_of_build, build_normalized d implicit⟩

/-- A parcel and the array that it holds refer to each other, a scalar is declared, and there is
more to some types and members than their kinds can use. -/
def parcel : GraphDescription where
  types := [
    TypeDescription.ofKind .classType "Parcel"
      |>.asFormattable
      |>.withConstructor ["Parcel[]", "Stamp"]
      |>.withMember { name := "Parts", kind := .field, type := "Parcel[]" },
    .array "Parcel[]" "Parcel",
    { name := "string", kind := .enumType, element := some "Envelope" }]

def parcelGraph : TypeGraph :=
  (build parcel ["Stamp", "int", "Stamp", "Parcel"]).toOption.get (by decide +kernel)

theorem parcelGraph_represents :
    build parcel ["Stamp", "int", "Stamp", "Parcel"] = .ok parcelGraph ∧
      parcelGraph.Represents parcel ["Stamp", "int", "Stamp", "Parcel"] ∧
      build parcel.normalized ["Stamp", "int", "Stamp", "Parcel"] = .ok parcelGraph := by
  have hbuild : build parcel ["Stamp", "int", "Stamp", "Parcel"] = .ok parcelGraph := rfl
  obtain ⟨hrepresents, hnormalized⟩ :=
    build_keeps_description parcel ["Stamp", "int", "Stamp", "Parcel"]
  exact ⟨hbuild, hrepresents parcelGraph hbuild, hnormalized.trans hbuild⟩

end TypeGraph
end LayoutContract
