import LayoutContract.Proofs.ResolvedNames

/-!
The descriptions of which no graph can be built. Each type has a list of problems that can be read
off its description and the names that are known, in the order in which resolution comes upon
them. Building fails when a name is repeated or some type has a problem, and it reports the first
repeated name, or else the first problem of the first type that has any.
-/
namespace LayoutContract

/-- How an evaluation fails, if it does. -/
def failure? {ε α : Type} : Except ε α → Option ε
  | .ok _ => none
  | .error e => some e

section Failure

variable {ε α β : Type}

theorem failure?_eq_some_iff {x : Except ε α} {e : ε} : failure? x = some e ↔ x = .error e := by
  cases x <;> simp [failure?]

theorem failure?_map (x : Except ε α) (f : α → β) : failure? (x.map f) = failure? x := by
  cases x <;> rfl

/-- Evaluations with the same successes and the same failures are equal. -/
theorem except_ext {x y : Except ε α} (hok : ∀ a, x = .ok a ↔ y = .ok a)
    (hfailure : failure? x = failure? y) : x = y := by
  cases x with
  | ok a => exact ((hok a).mp rfl).symm
  | error e => exact (failure?_eq_some_iff.mp hfailure.symm).symm

/-- The failures of two steps in a row are those of the first step and then those of the second. -/
theorem failure?_bind {x : Except ε α} {f : α → Except ε β} {first second : List ε}
    (hx : failure? x = first.head?) (hf : ∀ a, failure? (f a) = second.head?) :
    failure? (x >>= f) = (first ++ second).head? := by
  cases x with
  | ok a =>
    have hfirst : first = [] := List.head?_eq_none_iff.mp hx.symm
    rw [hfirst]
    exact hf a
  | error e =>
    rw [List.head?_append, ← hx]
    rfl

variable {f : α → Except ε β} {problems : α → List ε}
  (h : ∀ a, failure? (f a) = (problems a).head?)
include h

theorem failure?_mapM (as : List α) : failure? (as.mapM f) = (as.flatMap problems).head? := by
  induction as with
  | nil => rfl
  | cons a as ih =>
    rw [List.mapM_cons, List.flatMap_cons]
    refine failure?_bind (h a) fun b => ?_
    rw [← List.append_nil (as.flatMap problems)]
    exact failure?_bind ih fun bs => rfl

theorem failure?_collect (as : List α) :
    failure? (collect f as) = (as.flatMap problems).head? := by
  induction as with
  | nil => rfl
  | cons a as ih =>
    rw [List.flatMap_cons, List.head?_append, collect]
    split
    · rename_i e he
      rw [← h a, he]
      rfl
    · rename_i b hb
      have hfirst : (problems a).head? = none := by
        rw [← h a, hb]
        rfl
      rw [hfirst, ← ih]
      cases collect f as <;> rfl

end Failure

namespace GraphDescription

/-- The names that the types of a description can refer to. -/
def knownNames (d : GraphDescription) (implicit : List String) : List String :=
  d.names ++ builtinScalars ++ implicit

theorem mem_names_entries_iff {d : GraphDescription} {implicit : List String} {name : String} :
    name ∈ (d.entries implicit).map (·.name) ↔ name ∈ d.knownNames implicit := by
  rw [names_entries]
  simp only [knownNames, List.mem_append, mem_newNames_iff]
  tauto

end GraphDescription

section Problems

variable (known : List String)

/-- A problem for each reference of `owner` to a name that is not known. -/
def unresolved (owner : String) (names : List String) : List GraphError :=
  (names.filter (· ∉ known)).map (.unresolvedType owner)

namespace TypeDescription

def elementProblems (t : TypeDescription) : List GraphError :=
  match t.kind, t.element with
  | .arrayType, some element => unresolved known t.name [element]
  | .arrayType, none => [.missingElement t.name]
  | _, _ => []

def genericProblems (t : TypeDescription) : List GraphError :=
  match t.genericDefinition with
  | some _ => unresolved known t.name t.typeArguments
  | none => if t.typeArguments = [] then [] else [.missingDefinition t.name]

/-- All that keeps a type from being resolved. -/
def problems (t : TypeDescription) : List GraphError :=
  t.elementProblems known ++ t.genericProblems known ++
    unresolved known t.name t.constructors.flatten ++
    unresolved known t.name (t.members.map (·.type)) ++
    unresolved known t.name t.interfaces

/-- The names that have to be known for a type to be resolved. -/
def usedReferences (t : TypeDescription) : List String :=
  (if t.kind = .arrayType then t.element.toList else []) ++
    (if t.genericDefinition.isSome then t.typeArguments else []) ++
    t.constructors.flatten ++ t.members.map (·.type) ++ t.interfaces

/-- Only the element of an array is of any use. -/
def withoutStrayElement (t : TypeDescription) : TypeDescription :=
  { t with element := if t.kind = .arrayType then t.element else none }

end TypeDescription

def GraphDescription.withoutStrayElements (d : GraphDescription) : GraphDescription :=
  { types := d.types.map (·.withoutStrayElement) }

end Problems

section Resolve

variable {known : List String} {owner : String} {names : List String}

theorem unresolved_append (first second : List String) :
    unresolved known owner (first ++ second) =
      unresolved known owner first ++ unresolved known owner second := by
  simp [unresolved]

theorem unresolved_eq_nil_iff :
    unresolved known owner names = [] ↔ ∀ name ∈ names, name ∈ known := by
  simp [unresolved]

theorem unresolved_flatten (lists : List (List String)) :
    unresolved known owner lists.flatten = lists.flatMap (unresolved known owner) := by
  induction lists with
  | nil => rfl
  | cons names lists ih => rw [List.flatten_cons, unresolved_append, ih, List.flatMap_cons]

theorem unresolved_eq_flatMap (names : List String) :
    unresolved known owner names = names.flatMap fun name => unresolved known owner [name] := by
  induction names with
  | nil => rfl
  | cons name names ih =>
    rw [List.flatMap_cons, ← ih, ← unresolved_append]
    rfl

namespace TypeDescription

/-- A type can be resolved when its form and its generic part are complete and all that it refers
to is known. -/
theorem problems_eq_nil_iff {t : TypeDescription} :
    t.problems known = [] ↔
      ¬ (t.kind = .arrayType ∧ t.element = none) ∧
      ¬ (t.typeArguments ≠ [] ∧ t.genericDefinition = none) ∧
      ∀ name ∈ t.usedReferences, name ∈ known := by
  have helement : t.elementProblems known = [] ↔ ¬ (t.kind = .arrayType ∧ t.element = none) ∧
      ∀ name ∈ (if t.kind = .arrayType then t.element.toList else []), name ∈ known := by
    unfold elementProblems
    cases hkind : t.kind <;> cases t.element <;> simp [unresolved_eq_nil_iff]
  have hgeneric : t.genericProblems known = [] ↔
      ¬ (t.typeArguments ≠ [] ∧ t.genericDefinition = none) ∧
      ∀ name ∈ (if t.genericDefinition.isSome then t.typeArguments else []), name ∈ known := by
    unfold genericProblems
    cases t.genericDefinition <;> simp [unresolved_eq_nil_iff]
  simp only [problems, usedReferences, List.append_eq_nil_iff, helement, hgeneric,
    unresolved_eq_nil_iff, List.mem_append]
  grind

theorem problems_withoutStrayElement (t : TypeDescription) :
    t.withoutStrayElement.problems known = t.problems known := by
  have helement : t.withoutStrayElement.elementProblems known = t.elementProblems known := by
    unfold elementProblems withoutStrayElement
    cases hkind : t.kind <;> simp
  unfold problems
  rw [helement]
  rfl

theorem problems_implicit (name : String) : (implicit name).problems known = [] := by
  rw [problems_eq_nil_iff]
  unfold implicit implicitKind
  split <;> simp [ofKind, usedReferences]

end TypeDescription

section Failures

variable {ι : Type} {find : String → Option ι} (h : ∀ name, find name = none ↔ name ∉ known)
include h

theorem failure?_resolveName (name : String) :
    failure? (resolveName find owner name) = (unresolved known owner [name]).head? := by
  unfold resolveName
  cases hfind : find name with
  | none => simp [failure?, unresolved, (h name).mp hfind]
  | some i =>
    have hknown : name ∈ known := by
      by_contra hnot
      simp [(h name).mpr hnot] at hfind
    simp [failure?, unresolved, hknown]

theorem failure?_resolveNames (names : List String) :
    failure? (resolveNames find owner names) = (unresolved known owner names).head? := by
  rw [unresolved_eq_flatMap]
  exact failure?_mapM (failure?_resolveName h) names

theorem failure?_resolveMember (m : MemberDescription) :
    failure? (m.resolve find owner) = (unresolved known owner [m.type]).head? := by
  rw [← List.append_nil (unresolved known owner [m.type])]
  exact failure?_bind (failure?_resolveName h m.type) fun _ => rfl

theorem failure?_resolveForm (t : TypeDescription) :
    failure? (t.resolveForm find) = (t.elementProblems known).head? := by
  unfold TypeDescription.resolveForm TypeDescription.elementProblems
  cases t.kind with
  | arrayType =>
    cases t.element with
    | none => rfl
    | some element => rw [failure?_map, failure?_resolveName h]
  | _ => rfl

theorem failure?_resolveGeneric (t : TypeDescription) :
    failure? (t.resolveGeneric find) = (t.genericProblems known).head? := by
  unfold TypeDescription.resolveGeneric TypeDescription.genericProblems
  cases t.genericDefinition with
  | none => by_cases harguments : t.typeArguments = [] <;> simp [harguments, failure?]
  | some definition => exact (failure?_map _ _).trans (failure?_resolveNames h _)

/-- A type fails to be resolved with its first problem. -/
theorem failure?_resolve (t : TypeDescription) :
    failure? (t.resolve find) = (t.problems known).head? := by
  unfold TypeDescription.resolve TypeDescription.problems
  simp only [List.append_assoc]
  rw [← List.append_nil (unresolved known t.name t.interfaces), unresolved_flatten,
    unresolved_eq_flatMap (t.members.map (·.type)), List.flatMap_map]
  refine failure?_bind (failure?_resolveForm h t) fun form => ?_
  refine failure?_bind (failure?_resolveGeneric h t) fun generic => ?_
  refine failure?_bind (failure?_mapM (failure?_resolveNames h) _) fun constructors => ?_
  refine failure?_bind (failure?_mapM (failure?_resolveMember h) _) fun members => ?_
  exact failure?_bind (failure?_resolveNames h _) fun interfaces => rfl

end Failures
end Resolve

theorem positionOf_eq_none_iff {entries : List TypeDescription} {name : String} :
    positionOf entries name = none ↔ name ∉ entries.map (·.name) := by
  simp [positionOf, List.findFinIdx?_eq_none_iff]

theorem firstRepeatedAfter_eq_some_iff {seen names : List String} {name : String} :
    firstRepeatedAfter seen names = some name ↔
      ∃ before after, names = before ++ name :: after ∧ before.Nodup ∧
        (∀ n ∈ before, n ∉ seen) ∧ (name ∈ before ∨ name ∈ seen) := by
  induction names generalizing seen with
  | nil => simp [firstRepeatedAfter]
  | cons first names ih =>
    by_cases hseen : first ∈ seen
    · rw [firstRepeatedAfter, if_pos hseen, Option.some.injEq]
      constructor
      · rintro rfl
        exact ⟨[], names, rfl, .nil, by simp, .inr hseen⟩
      · rintro ⟨before, after, heq, _, hnew, _⟩
        cases before with
        | nil => exact (List.cons.inj heq).1
        | cons n before =>
          have hn : first = n := (List.cons.inj heq).1
          exact absurd (hn ▸ hseen) (hnew n List.mem_cons_self)
    · rw [firstRepeatedAfter, if_neg hseen, ih]
      constructor
      · rintro ⟨before, after, rfl, hnodup, hnew, hname⟩
        refine ⟨first :: before, after, rfl, ?_, ?_, ?_⟩
        · exact List.nodup_cons.mpr ⟨fun h => hnew first h List.mem_cons_self, hnodup⟩
        · intro n hn
          rcases List.mem_cons.mp hn with rfl | hn
          · exact hseen
          · exact fun h => hnew n hn (List.mem_cons_of_mem first h)
        · simp only [List.mem_cons] at hname ⊢
          tauto
      · rintro ⟨before, after, heq, hnodup, hnew, hname⟩
        cases before with
        | nil =>
          have hn : first = name := (List.cons.inj heq).1
          rw [hn] at hseen
          simp [hseen] at hname
        | cons n before =>
          obtain ⟨rfl, rfl⟩ := List.cons.inj heq
          obtain ⟨hfirst, hnodup⟩ := List.nodup_cons.mp hnodup
          refine ⟨before, after, rfl, hnodup, ?_, ?_⟩
          · intro m hm hseen'
            rcases List.mem_cons.mp hseen' with rfl | hseen'
            · exact hfirst hm
            · exact hnew m (List.mem_cons_of_mem first hm) hseen'
          · simp only [List.mem_cons] at hname ⊢
            tauto

/-- The first name that has occurred before comes behind names that are all different. -/
theorem firstRepeated_eq_some_iff {names : List String} {name : String} :
    firstRepeated names = some name ↔
      ∃ before after, names = before ++ name :: after ∧ before.Nodup ∧ name ∈ before := by
  simp [firstRepeated, firstRepeatedAfter_eq_some_iff]

/-- The first of all problems is the first one of the first type that has any. -/
theorem head?_flatMap_eq_some_iff {α β : Type} {f : α → List β} {as : List α} {b : β} :
    (as.flatMap f).head? = some b ↔
      ∃ before a after, as = before ++ a :: after ∧ (∀ x ∈ before, f x = []) ∧
        (f a).head? = some b := by
  rw [List.head?_flatMap, List.findSome?_eq_some_iff]
  simp only [List.head?_eq_none_iff]
  constructor
  · rintro ⟨before, a, after, has, ha, hbefore⟩
    exact ⟨before, a, after, has, hbefore, ha⟩
  · rintro ⟨before, a, after, has, hbefore, ha⟩
    exact ⟨before, a, after, has, ha, hbefore⟩

namespace GraphDescription

/-- The first type whose name has occurred before. -/
theorem firstRepeated_names_eq_some_iff {d : GraphDescription} {name : String} :
    firstRepeated d.names = some name ↔
      ∃ before t after, d.types = before ++ t :: after ∧ (before.map (·.name)).Nodup ∧
        t.name ∈ before.map (·.name) ∧ t.name = name := by
  rw [firstRepeated_eq_some_iff, names]
  constructor
  · rintro ⟨before, after, hnames, hnodup, hname⟩
    obtain ⟨first, rest, hsplit, rfl, hrest⟩ := List.map_eq_append_iff.mp hnames
    obtain ⟨t, later, rfl, rfl, rfl⟩ := List.map_eq_cons_iff.mp hrest
    exact ⟨first, t, later, hsplit, hnodup, hname, rfl⟩
  · rintro ⟨before, t, after, hsplit, hnodup, hname, rfl⟩
    exact ⟨before.map (·.name), after.map (·.name), by simp [hsplit], hnodup, hname⟩

/-- Types that are only names have no problems. -/
theorem flatMap_problems_entries (d : GraphDescription) (implicit known : List String) :
    (d.entries implicit).flatMap (·.problems known) = d.types.flatMap (·.problems known) := by
  rw [entries, List.flatMap_append, List.flatMap_map]
  simp [TypeDescription.problems_implicit]

end GraphDescription

namespace TypeGraph

variable (d : GraphDescription) (implicit : List String)

/-- How building a graph fails, in one formula. -/
theorem failure?_build :
    failure? (build d implicit) =
      ((firstRepeated d.names).map .duplicateType).or
        (d.types.flatMap (·.problems (d.knownNames implicit))).head? := by
  have hfind (name : String) : positionOf (d.entries implicit) name = none ↔
      name ∉ d.knownNames implicit := by
    rw [positionOf_eq_none_iff, GraphDescription.mem_names_entries_iff]
  unfold build
  cases firstRepeated d.names with
  | some name => rfl
  | none =>
    rw [Option.map_none, Option.none_or, ← d.flatMap_problems_entries implicit,
      ← failure?_collect (failure?_resolve hfind)]
    dsimp only
    cases collect (TypeDescription.resolve (positionOf (d.entries implicit)))
      (d.entries implicit) <;> rfl

/-- A graph can be built when names are told apart and no type has a problem. -/
theorem exists_build_iff :
    (∃ g, build d implicit = .ok g) ↔
      d.names.Nodup ∧ ∀ t ∈ d.types, t.problems (d.knownNames implicit) = [] := by
  have hfailure : (∃ g, build d implicit = .ok g) ↔ failure? (build d implicit) = none := by
    cases build d implicit <;> simp [failure?]
  rw [hfailure, failure?_build, Option.or_eq_none_iff, Option.map_eq_none_iff,
    firstRepeated_eq_none_iff, List.head?_eq_none_iff, List.flatMap_eq_nil_iff]

/-- The repeated name that comes first stops everything else. Without one, the first type that
has any problem is the one that is reported, for the first of its problems. -/
theorem build_eq_error_iff (e : GraphError) :
    build d implicit = .error e ↔
      (∃ before t after, d.types = before ++ t :: after ∧ (before.map (·.name)).Nodup ∧
        t.name ∈ before.map (·.name) ∧ e = .duplicateType t.name) ∨
      d.names.Nodup ∧ ∃ before t after, d.types = before ++ t :: after ∧
        (∀ u ∈ before, u.problems (d.knownNames implicit) = []) ∧
        (t.problems (d.knownNames implicit)).head? = some e := by
  rw [← failure?_eq_some_iff, failure?_build, ← head?_flatMap_eq_some_iff,
    ← firstRepeated_eq_none_iff]
  cases hrepeated : firstRepeated d.names with
  | some name =>
    have hfirst := GraphDescription.firstRepeated_names_eq_some_iff.mp hrepeated
    rw [Option.map_some, Option.some_or, Option.some.injEq]
    constructor
    · rintro rfl
      obtain ⟨before, t, after, hsplit, hnodup, hname, rfl⟩ := hfirst
      exact .inl ⟨before, t, after, hsplit, hnodup, hname, rfl⟩
    · rintro (⟨before, t, after, hsplit, hnodup, hname, rfl⟩ | ⟨hnone, _⟩)
      · have hsame := GraphDescription.firstRepeated_names_eq_some_iff.mpr
          ⟨before, t, after, hsplit, hnodup, hname, rfl⟩
        rw [hrepeated] at hsame
        rw [Option.some.inj hsame]
      · cases hnone
  | none =>
    rw [Option.map_none, Option.none_or]
    constructor
    · intro h
      exact .inr ⟨rfl, h⟩
    · rintro (⟨before, t, after, hsplit, hnodup, hname, _⟩ | ⟨_, h⟩)
      · have hsome := GraphDescription.firstRepeated_names_eq_some_iff.mpr
          ⟨before, t, after, hsplit, hnodup, hname, rfl⟩
        rw [hrepeated] at hsome
        cases hsome
      · exact h

theorem failure?_build_withoutStrayElements :
    failure? (build d.withoutStrayElements implicit) = failure? (build d implicit) := by
  have hnames : d.withoutStrayElements.names = d.names := by
    simp only [GraphDescription.names, GraphDescription.withoutStrayElements, List.map_map]
    rfl
  rw [failure?_build, failure?_build, GraphDescription.knownNames, hnames,
    GraphDescription.withoutStrayElements, List.flatMap_map]
  simp only [TypeDescription.problems_withoutStrayElement]
  rfl

/-- A graph cannot be built when a name is repeated, an array has no element, type arguments lack
a generic definition, or something refers to a name that is not known. The failure is that of the
first repeated name, or else the first problem of the first type that has any; an element that is
given for another kind of type makes no difference. -/
theorem build_fails_with_first_problem :
    ((∃ e, build d implicit = .error e) ↔
      ¬ d.names.Nodup ∨
      (∃ t ∈ d.types, t.kind = .arrayType ∧ t.element = none) ∨
      (∃ t ∈ d.types, t.typeArguments ≠ [] ∧ t.genericDefinition = none) ∨
      ∃ t ∈ d.types, ∃ name ∈ t.usedReferences, name ∉ d.knownNames implicit) ∧
    (∀ e, build d implicit = .error e ↔
      (∃ before t after, d.types = before ++ t :: after ∧ (before.map (·.name)).Nodup ∧
        t.name ∈ before.map (·.name) ∧ e = .duplicateType t.name) ∨
      d.names.Nodup ∧ ∃ before t after, d.types = before ++ t :: after ∧
        (∀ u ∈ before, u.problems (d.knownNames implicit) = []) ∧
        (t.problems (d.knownNames implicit)).head? = some e) ∧
    ∀ e, build d.withoutStrayElements implicit = .error e ↔ build d implicit = .error e := by
  refine ⟨?_, build_eq_error_iff d implicit, ?_⟩
  · have hfails : (∃ e, build d implicit = .error e) ↔ ¬ ∃ g, build d implicit = .ok g := by
      cases build d implicit <;> simp
    rw [hfails, exists_build_iff]
    simp only [TypeDescription.problems_eq_nil_iff]
    grind
  · intro e
    rw [← failure?_eq_some_iff, failure?_build_withoutStrayElements, failure?_eq_some_iff]

/-- A crate has two problems, of which that of the interface comes last, and so has the array
behind it. -/
example :
    build { types := [
      TypeDescription.ofKind .classType "Crate" |>.implementing "Box" |>.withConstructor ["Lid"],
      .ofKind .arrayType "Crate[]"] } [] = .error (.unresolvedType "Crate" "Lid") := rfl

end TypeGraph
end LayoutContract
