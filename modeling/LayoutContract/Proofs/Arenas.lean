import LayoutContract.Proofs.BuiltGraphs
import LayoutContract.Proofs.HandleMaps

/-!
Type graphs as arenas. An arena keeps its definitions in a row, and a definition refers to others
by their places in it, as numbers of 32 bits that nothing ties to the arena. Ids are given out by
name, before any type has been resolved: to the declared names first, then to those of the scalars
and of the other types that nobody declares. The arena of a description is the graph of the
description with the handles made into such numbers, and there is none when there is no graph.
-/
namespace LayoutContract

/-- The id of the type in the given place. Places that do not fit into 32 bits wrap around. -/
def idAt (place : Nat) : UInt32 := UInt32.ofNat place

def idOf {size : Nat} (i : Fin size) : UInt32 := idAt i.val

/-- The ids that have been given out, by name. -/
abbrev NameIndex := List (String × UInt32)

namespace NameIndex

def find? (ids : NameIndex) (name : String) : Option UInt32 := ids.lookup name

def knows (ids : NameIndex) (name : String) : Bool := (find? ids name).isSome

/-- Gives out the next id. -/
def give (ids : NameIndex) (name : String) : NameIndex := ids ++ [(name, idAt ids.length)]

/-- Gives ids to the declared names, of which none may be repeated. -/
def giveDeclared (ids : NameIndex) : List String → Except GraphError NameIndex
  | [] => .ok ids
  | name :: names =>
    if knows ids name then .error (.duplicateType name)
    else giveDeclared (give ids name) names

/-- Gives ids to the names that have none, and lists these names. -/
def giveImplicit (ids : NameIndex) : List String → NameIndex × List String
  | [] => (ids, [])
  | name :: names =>
    if knows ids name then giveImplicit ids names
    else
      let (ids', fresh) := giveImplicit (give ids name) names
      (ids', name :: fresh)

end NameIndex

/-- A type of which only the name is known. -/
def TypeDef.implicit {ι : Type} (name : String) : TypeDef ι where
  name := name
  qualifiedName := name
  form := if implicitKind name = .structType then .structType else .classType
  formattable := false
  generic := none
  interfaces := []
  constructors := []
  members := []
  location := {}

theorem TypeDef.map_implicit {ι κ : Type} (f : ι → κ) (name : String) :
    (TypeDef.implicit name).map f = .implicit name := by
  unfold TypeDef.implicit
  split <;> rfl

structure Arena where
  types : List (TypeDef UInt32)
  names : NameIndex
  /-- How many of the types, counted from the first, come from the description itself. -/
  declared : Nat

namespace Arena

def build (d : GraphDescription) (implicit : List String) : Except GraphError Arena := do
  let ids ← NameIndex.giveDeclared [] d.names
  let (ids, fresh) := NameIndex.giveImplicit ids (builtinScalars ++ implicit)
  let types ← d.types.mapM (·.resolve (NameIndex.find? ids))
  return { types := types ++ fresh.map .implicit, names := ids, declared := d.types.length }

def declaredIds (a : Arena) : List UInt32 := (List.range a.declared).map idAt

end Arena

/-- The index in which the names have their places as ids. -/
def numbered (names : List String) : NameIndex :=
  names.zipIdx.map fun entry => (entry.1, idAt entry.2)

namespace TypeGraph

variable (g : TypeGraph)

/-- The graph with ids in place of handles. -/
def arena : Arena where
  types := g.types.toList.map (·.map idOf)
  names := numbered (g.types.toList.map (·.name))
  declared := g.declared

end TypeGraph

section Numbered

variable {known seen names : List String} {name : String}

theorem give_numbered (known : List String) (name : String) :
    NameIndex.give (numbered known) name = numbered (known ++ [name]) := by
  simp [NameIndex.give, numbered, List.zipIdx_append]

theorem lookup_zipIdx (k : Nat) (names : List String) :
    ((names.zipIdx k).map fun entry => (entry.1, idAt entry.2)).lookup name =
      (names.findIdx? (· == name)).map fun i => idAt (i + k) := by
  induction names generalizing k with
  | nil => rfl
  | cons first names ih =>
    rw [List.zipIdx_cons, List.map_cons, List.lookup_cons, List.findIdx?_cons, ih, BEq.comm]
    cases first == name with
    | true => simp
    | false =>
      cases names.findIdx? (· == name) with
      | none => rfl
      | some i => simp [Nat.add_assoc, Nat.add_comm 1 k]

theorem find?_numbered (names : List String) (name : String) :
    NameIndex.find? (numbered names) name = (names.findIdx? (· == name)).map idAt :=
  lookup_zipIdx 0 names

theorem knows_numbered (known : List String) (name : String) :
    NameIndex.knows (numbered known) name = decide (name ∈ known) := by
  rw [Bool.eq_iff_iff, NameIndex.knows, find?_numbered, Option.isSome_map, List.findIdx?_isSome,
    List.any_beq', List.contains_iff_mem, decide_eq_true_iff]

theorem mem_cons_iff_mem_concat (hseen : ∀ n, n ∈ seen ↔ n ∈ known) (n : String) :
    n ∈ name :: seen ↔ n ∈ known ++ [name] := by
  rw [List.mem_cons, List.mem_append, List.mem_singleton, hseen n, or_comm]

/-- Declared names are numbered on, unless one of them is repeated. -/
theorem giveDeclared_numbered (hseen : ∀ n, n ∈ seen ↔ n ∈ known) (names : List String) :
    NameIndex.giveDeclared (numbered known) names =
      match firstRepeatedAfter seen names with
      | some name => .error (.duplicateType name)
      | none => .ok (numbered (known ++ names)) := by
  induction names generalizing known seen with
  | nil => simp [NameIndex.giveDeclared, firstRepeatedAfter]
  | cons name names ih =>
    rw [NameIndex.giveDeclared, knows_numbered, firstRepeatedAfter, give_numbered]
    by_cases hname : name ∈ known
    · simp [hname, (hseen name).mpr hname]
    · simp [hname, mt (hseen name).mp hname, ih (mem_cons_iff_mem_concat hseen)]

/-- The names that nobody declares are numbered on where they are new. -/
theorem giveImplicit_numbered (hseen : ∀ n, n ∈ seen ↔ n ∈ known) (names : List String) :
    NameIndex.giveImplicit (numbered known) names =
      (numbered (known ++ newNames seen names), newNames seen names) := by
  induction names generalizing known seen with
  | nil => simp [NameIndex.giveImplicit, newNames]
  | cons name names ih =>
    rw [NameIndex.giveImplicit, knows_numbered, newNames, give_numbered]
    by_cases hname : name ∈ known
    · simp [hname, (hseen name).mpr hname, ih hseen]
    · simp [hname, mt (hseen name).mp hname, ih (mem_cons_iff_mem_concat hseen)]

theorem find?_numbered_names (entries : List TypeDescription) (name : String) :
    NameIndex.find? (numbered (entries.map (·.name))) name =
      (positionOf entries name).map idOf := by
  rw [find?_numbered, List.findIdx?_map, List.findIdx?_eq_map_findFinIdx?_val, Option.map_map]
  rfl

end Numbered

/-! References are resolved alike when ids take the place of handles. -/
section Renaming

variable {ι κ : Type} (find : String → Option ι) (φ : ι → κ)

theorem mapM_map_eq {ε α β γ : Type} {f : α → Except ε β} {f' : α → Except ε γ} {h : β → γ}
    (hf : ∀ a, f' a = (f a).map h) (as : List α) : as.mapM f' = (as.mapM f).map (·.map h) := by
  induction as with
  | nil => rfl
  | cons a as ih =>
    rw [List.mapM_cons, List.mapM_cons, hf, ih]
    cases f a with
    | error e => rfl
    | ok b => cases as.mapM f <;> rfl

theorem resolveName_renamed (owner name : String) :
    resolveName (fun n => (find n).map φ) owner name = (resolveName find owner name).map φ := by
  simp only [resolveName]
  cases find name <;> rfl

theorem resolveNames_renamed (owner : String) (names : List String) :
    resolveNames (fun n => (find n).map φ) owner names =
      (resolveNames find owner names).map (·.map φ) :=
  mapM_map_eq (resolveName_renamed find φ owner) names

theorem MemberDescription.resolve_renamed (owner : String) (m : MemberDescription) :
    m.resolve (fun n => (find n).map φ) owner = (m.resolve find owner).map (·.map φ) := by
  unfold resolve
  rw [resolveName_renamed]
  cases resolveName find owner m.type <;> rfl

namespace TypeDescription

theorem resolveForm_renamed (t : TypeDescription) :
    t.resolveForm (fun n => (find n).map φ) = (t.resolveForm find).map (·.map φ) := by
  unfold resolveForm
  cases t.kind with
  | arrayType =>
    cases t.element with
    | none => rfl
    | some element =>
      simp only [resolveName_renamed]
      cases resolveName find t.name element <;> rfl
  | _ => rfl

theorem resolveGeneric_renamed (t : TypeDescription) :
    t.resolveGeneric (fun n => (find n).map φ) =
      (t.resolveGeneric find).map (·.map (·.map φ)) := by
  unfold resolveGeneric
  cases t.genericDefinition with
  | some definition =>
    simp only [resolveNames_renamed]
    cases resolveNames find t.name t.typeArguments <;> rfl
  | none =>
    simp only
    split <;> rfl

theorem resolve_renamed (t : TypeDescription) :
    t.resolve (fun n => (find n).map φ) = (t.resolve find).map (·.map φ) := by
  have hconstructors := mapM_map_eq (resolveNames_renamed find φ t.name) t.constructors
  have hmembers := mapM_map_eq (MemberDescription.resolve_renamed find φ t.name) t.members
  unfold resolve
  rw [resolveForm_renamed, resolveGeneric_renamed, hconstructors, hmembers, resolveNames_renamed]
  cases t.resolveForm find with
  | error e => rfl
  | ok form =>
    cases t.resolveGeneric find with
    | error e => rfl
    | ok generic =>
      cases t.constructors.mapM (resolveNames find t.name) with
      | error e => rfl
      | ok constructors =>
        cases t.members.mapM (·.resolve find t.name) with
        | error e => rfl
        | ok members => cases resolveNames find t.name t.interfaces <;> rfl

theorem resolve_implicit (name : String) : (implicit name).resolve find = .ok (.implicit name) := by
  have hkind : implicitKind name = .structType ∨ implicitKind name = .classType := by
    unfold implicitKind
    split <;> simp
  rw [implicit, ofKind, TypeDef.implicit]
  rcases hkind with h | h <;> rw [h] <;> rfl

end TypeDescription
end Renaming

theorem map_val_collect {ε α β : Type} (f : α → Except ε β) (as : List α) :
    (collect f as).map Subtype.val = as.mapM f := by
  induction as with
  | nil => rfl
  | cons a as ih =>
    conv_rhs => rw [List.mapM_cons, ← ih]
    rw [collect]
    split
    · rename_i e h
      rw [h]
      rfl
    · rename_i b h
      conv_rhs => rw [h]
      cases collect f as <;> rfl

theorem GraphDescription.mapM_resolve_entries {ι : Type} (d : GraphDescription)
    (implicit : List String) (find : String → Option ι) :
    (d.entries implicit).mapM (TypeDescription.resolve find) =
      (d.types.mapM (TypeDescription.resolve find)).map
        (· ++ (newNames d.names (builtinScalars ++ implicit)).map .implicit) := by
  have himplicit (names : List String) :
      (names.map TypeDescription.implicit).mapM (TypeDescription.resolve find) =
        .ok (names.map .implicit) := by
    have hresolve : (TypeDescription.resolve find ∘ TypeDescription.implicit) =
        fun name => pure (.implicit name) :=
      funext (TypeDescription.resolve_implicit find)
    rw [List.mapM_map, hresolve, List.mapM_pure]
    rfl
  rw [entries, List.mapM_append, himplicit]
  cases d.types.mapM (TypeDescription.resolve find) <;> rfl

section Build

variable (d : GraphDescription) (implicit : List String)

/-- The ids of the names stand for the positions of the entries. -/
theorem mapM_resolve_numbered :
    d.types.mapM (TypeDescription.resolve
        (NameIndex.find? (numbered ((d.entries implicit).map (·.name))))) =
      (d.types.mapM (TypeDescription.resolve (positionOf (d.entries implicit)))).map
        (·.map (·.map idOf)) := by
  have hfind : NameIndex.find? (numbered ((d.entries implicit).map (·.name))) =
      fun name => (positionOf (d.entries implicit) name).map idOf :=
    funext (find?_numbered_names (d.entries implicit))
  rw [hfind]
  exact mapM_map_eq (TypeDescription.resolve_renamed (positionOf (d.entries implicit)) idOf) d.types

/-- Without repeated names, only the types of the description decide about the graph. -/
theorem TypeGraph.map_arena_build (hdistinct : firstRepeated d.names = none) :
    (TypeGraph.build d implicit).map TypeGraph.arena =
      (d.types.mapM (TypeDescription.resolve (positionOf (d.entries implicit)))).map
        fun types => {
          types := types.map (·.map idOf) ++
            (newNames d.names (builtinScalars ++ implicit)).map .implicit
          names := numbered ((d.entries implicit).map (·.name))
          declared := d.types.length } := by
  have hcollect := map_val_collect (TypeDescription.resolve (positionOf (d.entries implicit)))
    (d.entries implicit)
  rw [GraphDescription.mapM_resolve_entries] at hcollect
  unfold TypeGraph.build
  rw [hdistinct]
  generalize d.types.mapM (TypeDescription.resolve (positionOf (d.entries implicit))) = resolved
    at hcollect ⊢
  -- Both the entries and the types of the description have been resolved, or neither have.
  cases hall : collect (TypeDescription.resolve (positionOf (d.entries implicit)))
      (d.entries implicit) with
  | error e =>
    rw [hall] at hcollect
    cases resolved with
    | error e' =>
      cases hcollect
      simp only [hall]
      rfl
    | ok types => cases hcollect
  | ok all =>
    rw [hall] at hcollect
    cases resolved with
    | error e => cases hcollect
    | ok types =>
      have hnames := TypeDescription.names_of_resolve all.property
      have hvalue : all.val = types ++ _ := Except.ok.inj hcollect
      have himages : all.val.map (·.map idOf) =
          types.map (·.map idOf) ++
            (newNames d.names (builtinScalars ++ implicit)).map .implicit := by
        rw [hvalue, List.map_append, List.map_map]
        congr 2
        exact funext (TypeDef.map_implicit idOf)
      simp only [hall]
      refine congrArg Except.ok ?_
      simp only [← himages, ← hnames]
      rfl

/-- The arena of a description is its graph, and it cannot be built for the same reasons. -/
theorem Arena.build_eq :
    Arena.build d implicit = (TypeGraph.build d implicit).map TypeGraph.arena := by
  have hdeclared : NameIndex.giveDeclared [] d.names =
      match firstRepeated d.names with
      | some name => .error (.duplicateType name)
      | none => pure (numbered d.names) :=
    giveDeclared_numbered (fun n => Iff.refl (n ∈ [])) d.names
  have himplicit := giveImplicit_numbered (fun n => Iff.refl (n ∈ d.names))
    (builtinScalars ++ implicit)
  cases hrepeated : firstRepeated d.names with
  | some name =>
    rw [Arena.build, TypeGraph.build, hdeclared, hrepeated]
    rfl
  | none =>
    rw [TypeGraph.map_arena_build d implicit hrepeated, Arena.build, hdeclared, hrepeated,
      pure_bind, himplicit, ← GraphDescription.names_entries]
    simp only [mapM_resolve_numbered]
    cases d.types.mapM (TypeDescription.resolve (positionOf (d.entries implicit))) <;> rfl

end Build
end LayoutContract
