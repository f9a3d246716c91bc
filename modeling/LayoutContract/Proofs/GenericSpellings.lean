import LayoutContract.Proofs.AlikeDefinitions
import LayoutContract.Proofs.Extensions
import Mathlib.Data.List.TakeWhile

/-!
Generic definitions that are spelt in different ways. Behind the base of a definition there may be
a mark, and behind the mark anything that tells the arity. All spellings of a base are of one
family, and a check asks for families only, so it goes alike whichever spelling stands in each
type. Where a definition ends in a question mark nothing is cut off, and it is its own family.
-/
namespace LayoutContract

/-- Nothing is cut off behind such a definition. -/
def EndsInQuestionMark (definition : String) : Prop := definition.toList.getLast? = some '?'

instance (definition : String) : Decidable (EndsInQuestionMark definition) :=
  inferInstanceAs (Decidable (_ = _))

/-- What is left of a definition once its arity is cut off. -/
structure IsBase (base : String) : Prop where
  unmarked : ∀ ch ∈ base.toList, isArityMark ch = false
  plain : ¬ EndsInQuestionMark base

/-- A base alone, or with a mark and any text behind it. -/
structure IsSpelling (base definition : String) : Prop where
  plain : ¬ EndsInQuestionMark definition
  parts : definition = base ∨
    ∃ arity, definition = base ++ "<" ++ arity ∨ definition = base ++ "\x60" ++ arity

section Family

variable {base definition : String}

theorem familyOf_of_endsInQuestionMark (h : EndsInQuestionMark definition) :
    familyOf definition = definition :=
  if_pos h

theorem familyOf_of_plain (h : ¬ EndsInQuestionMark definition) :
    familyOf definition = String.ofList (definition.toList.takeWhile (!isArityMark ·)) :=
  if_neg h

/-- Marks are where a definition is cut. -/
theorem familyOf_of_unmarked (h : ∀ ch ∈ definition.toList, isArityMark ch = false) :
    familyOf definition = definition := by
  by_cases hmark : EndsInQuestionMark definition
  · exact familyOf_of_endsInQuestionMark hmark
  · have hall : definition.toList.takeWhile (!isArityMark ·) = definition.toList := by
      apply List.takeWhile_eq_self_iff.mpr
      intro ch hch
      rw [h ch hch]
      rfl
    rw [familyOf_of_plain hmark, hall, String.ofList_toList]

/-- All spellings of a base are of the family that it names. -/
theorem familyOf_of_isSpelling (hbase : IsBase base) (h : IsSpelling base definition) :
    familyOf definition = base := by
  have hcut (mark : Char) (hmark : isArityMark mark = true) (arity : List Char) :
      (base.toList ++ mark :: arity).takeWhile (!isArityMark ·) = base.toList := by
    rw [List.takeWhile_append_of_pos, List.takeWhile_cons_of_neg, List.append_nil]
    · simp [hmark]
    · intro ch hch
      simp [hbase.unmarked ch hch]
  rcases h.parts with rfl | ⟨arity, hparts | hparts⟩
  · exact familyOf_of_unmarked hbase.unmarked
  · have hlist : definition.toList = base.toList ++ '<' :: arity.toList := by simp [hparts]
    rw [familyOf_of_plain h.plain, hlist, hcut '<' rfl, String.ofList_toList]
  · have hlist : definition.toList = base.toList ++ '\x60' :: arity.toList := by simp [hparts]
    rw [familyOf_of_plain h.plain, hlist, hcut '\x60' rfl, String.ofList_toList]

/-- A family is not cut again. -/
theorem familyOf_familyOf (definition : String) :
    familyOf (familyOf definition) = familyOf definition := by
  by_cases h : EndsInQuestionMark definition
  · rw [familyOf_of_endsInQuestionMark h, familyOf_of_endsInQuestionMark h]
  · apply familyOf_of_unmarked
    intro ch hch
    rw [familyOf_of_plain h, String.toList_ofList] at hch
    simpa using List.mem_takeWhile_imp hch

end Family

/-- The type with the family in place of its generic definition. -/
def TypeDescription.inFamily (t : TypeDescription) : TypeDescription :=
  { t with genericDefinition := t.genericDefinition.map familyOf }

/-- The same type, with another spelling of its generic definition if it has one. -/
structure TypeDescription.Respells (t t' : TypeDescription) : Prop where
  definition : t'.genericDefinition = t.genericDefinition ∨
    ∃ base spelling spelling', IsBase base ∧ IsSpelling base spelling ∧
      IsSpelling base spelling' ∧ t.genericDefinition = some spelling ∧
      t'.genericDefinition = some spelling'
  rest : t' = { t with genericDefinition := t'.genericDefinition }

/-- The same types, each with any spelling of its generic definition. -/
def GraphDescription.Respells (d d' : GraphDescription) : Prop :=
  List.Forall₂ TypeDescription.Respells d.types d'.types

namespace TypeDescription

variable {t t' : TypeDescription}

theorem Respells.inFamily (h : t.Respells t') : t'.inFamily = t.inFamily := by
  have hfamily : t'.genericDefinition.map familyOf = t.genericDefinition.map familyOf := by
    rcases h.definition with hsame | ⟨base, spelling, spelling', hbase, hs, hs', ht, ht'⟩
    · rw [hsame]
    · rw [ht, ht', Option.map_some, Option.map_some, familyOf_of_isSpelling hbase hs,
        familyOf_of_isSpelling hbase hs']
  unfold TypeDescription.inFamily
  rw [hfamily, h.rest]

theorem name_of_inFamily (h : t'.inFamily = t.inFamily) : t'.name = t.name :=
  congrArg (·.name) h

/-- A family leaves as much to be resolved as a definition. -/
theorem problems_inFamily (known : List String) (t : TypeDescription) :
    t.inFamily.problems known = t.problems known := by
  have hgeneric : t.inFamily.genericProblems known = t.genericProblems known := by
    unfold genericProblems TypeDescription.inFamily
    cases t.genericDefinition <;> rfl
  unfold problems
  rw [hgeneric]
  rfl

end TypeDescription

namespace GraphDescription

variable {d d' : GraphDescription} (h : d.Respells d') {implicit : List String}
include h

theorem Respells.names : d'.names = d.names :=
  map_eq_map_of_forall₂ h fun _ _ ht => TypeDescription.name_of_inFamily ht.inFamily

theorem Respells.exists_build_iff :
    (∃ g, TypeGraph.build d' implicit = .ok g) ↔ ∃ g, TypeGraph.build d implicit = .ok g := by
  have hknown : d'.knownNames implicit = d.knownNames implicit := by
    rw [knownNames, h.names, knownNames]
  have hproblems (known : List String) :
      d'.types.map (·.problems known) = d.types.map (·.problems known) := by
    refine map_eq_map_of_forall₂ h fun t t' ht => ?_
    rw [← t'.problems_inFamily, ht.inFamily, t.problems_inFamily]
  rw [TypeGraph.exists_build_iff, TypeGraph.exists_build_iff, h.names, hknown,
    ← List.forall_mem_map (P := (· = [])), hproblems, List.forall_mem_map]

theorem Respells.extends : d.Extends (fun t t' => t'.inFamily = t.inFamily) implicit d' :=
  ⟨d'.types, [], by simp, h.imp fun _ _ ht => ht.inFamily, by simp⟩

end GraphDescription

namespace TypeDef

variable {ι κ : Type}

def inFamily (t : TypeDef ι) : TypeDef ι :=
  { t with generic := t.generic.map fun generic => { generic with definition := generic.family } }

theorem inFamily_map (f : ι → κ) (t : TypeDef ι) : (t.map f).inFamily = t.inFamily.map f := by
  unfold inFamily map
  cases t.generic <;> rfl

theorem inFamily_describe (t : TypeDef String) : t.describe.inFamily = t.inFamily.describe := by
  unfold TypeDescription.inFamily describe inFamily
  cases t.generic <;> rfl

end TypeDef

namespace TypeGraph

/-- Each type of `g` has the family of its image in `g'`, and all else in common with it. -/
structure SpeltAlike (g g' : TypeGraph) (φ : g.Handle → g'.Handle) : Prop where
  injective : Function.Injective φ
  definition : ∀ i, (g'.typeAt (φ i)).inFamily = ((g.typeAt i).map φ).inFamily

namespace SpeltAlike

variable {g g' : TypeGraph} {φ : g.Handle → g'.Handle} (h : g.SpeltAlike g' φ)
include h

theorem name (i : g.Handle) : (g'.typeAt (φ i)).name = (g.typeAt i).name :=
  congrArg (·.name) (h.definition i)

theorem qualifiedName (i : g.Handle) :
    (g'.typeAt (φ i)).qualifiedName = (g.typeAt i).qualifiedName :=
  congrArg (·.qualifiedName) (h.definition i)

theorem form (i : g.Handle) : (g'.typeAt (φ i)).form = (g.typeAt i).form.map φ :=
  congrArg (·.form) (h.definition i)

theorem isValue (i : g.Handle) : (g'.typeAt (φ i)).isValue = (g.typeAt i).isValue :=
  (congrArg TypeDef.isValue (h.definition i)).trans (TypeDef.isValue_map φ _)

theorem fault? (i : g.Handle) : (g'.typeAt (φ i)).fault? = (g.typeAt i).fault? :=
  (congrArg TypeDef.fault? (h.definition i)).trans (TypeDef.fault?_map φ _)

theorem site (i : g.Handle) : g'.site (φ i) = g.site i :=
  congrArg (fun t => TypeSite.mk t.name t.location) (h.definition i)

/-- Both types are generic or none is. -/
theorem generic (i : g.Handle) :
    (g.typeAt i).generic = none ∧ (g'.typeAt (φ i)).generic = none ∨
      ∃ generic generic', (g.typeAt i).generic = some generic ∧
        (g'.typeAt (φ i)).generic = some generic' ∧ generic'.family = generic.family ∧
        generic'.arguments = generic.arguments.map φ := by
  have hgeneric := congrArg (·.generic) (h.definition i)
  cases hg : (g.typeAt i).generic <;> cases hg' : (g'.typeAt (φ i)).generic <;>
    simp_all [TypeDef.inFamily, TypeDef.map, GenericInstance.map, GenericInstance.family]

theorem isCollectionInterface (i : g.Handle) :
    g'.isCollectionInterface (φ i) = g.isCollectionInterface i := by
  unfold TypeGraph.isCollectionInterface
  rcases h.generic i with ⟨hg, hg'⟩ | ⟨generic, generic', hg, hg', hfamily, -⟩
  · rw [hg, hg']
  · simp only [hg, hg', hfamily]

theorem shape (i : g.Handle) : g'.shape (φ i) = g.shape i := by
  have hinterfaces : (g'.typeAt (φ i)).interfaces = (g.typeAt i).interfaces.map φ :=
    congrArg (·.interfaces) (h.definition i)
  unfold TypeGraph.shape
  rcases h.generic i with ⟨hg, hg'⟩ | ⟨generic, generic', hg, hg', hfamily, harguments⟩
  · rw [hg, hg']
  · simp only [hg, hg', hfamily, harguments, List.length_map, hinterfaces, List.any_map,
      Function.comp_def, h.isCollectionInterface]

theorem wrapped? (i : g.Handle) : g'.wrapped? (φ i) = (g.wrapped? i).map (·.map φ) := by
  unfold TypeGraph.wrapped?
  rw [h.shape i]
  rcases h.generic i with ⟨hg, hg'⟩ | ⟨generic, generic', hg, hg', -, harguments⟩
  · rw [hg, hg']
    rfl
  · rw [hg, hg']
    simp only [harguments]
    split <;> rfl

theorem role (c : Config) (i : g.Handle) : g'.role c (φ i) = (g.role c i).map φ :=
  role_map (h.name i) (h.form i) (h.wrapped? i)

theorem walksAlike (c : Config) : g.WalksAlike c g' c φ where
  injective := h.injective
  site := h.site
  role := h.role c
  offence i := offence?_map (h.role c i) (h.fault? i)

theorem checksAlike (c : Config) (i : g.Handle) : g.ChecksAlike c g' c φ i where
  threshold := rfl
  isValue := h.isValue i
  fault := h.fault? i
  members := (congrArg TypeDef.contractMembers (h.definition i)).trans (contractMembers_map φ _)
  constructors := constructorsAlike_of_perm h.qualifiedName
    (.of_eq (congrArg (·.constructors) (h.definition i)).symm)

end SpeltAlike

variable {d d' : GraphDescription} {implicit : List String} {g g' : TypeGraph}

theorem exists_speltAlike (hg : build d implicit = .ok g) (hg' : build d' implicit = .ok g')
    (h : d.Respells d') :
    ∃ φ : g.Handle → g'.Handle, g.SpeltAlike g' φ ∧ ∀ i, g'.nameOf (φ i) = g.nameOf i := by
  obtain ⟨φ, hinjective, hnames, hφ⟩ := exists_handleMap hg hg' TypeDescription.name_of_inFamily
    (R := fun t t' => t'.inFamily = t.inFamily)
    (fun ht => congrArg TypeDescription.normalized ht)
    fun _ => h.extends.exists_entry TypeDescription.name_of_inFamily fun _ _ => rfl
  refine ⟨φ, ⟨hinjective, fun i => ?_⟩, hnames⟩
  apply TypeDef.describe_map_injective (nameOf_injective hg')
  rw [← TypeDef.inFamily_map, ← TypeDef.inFamily_map, ← TypeDef.inFamily_describe,
    ← TypeDef.inFamily_describe, describe_of_nameOf hnames i]
  exact hφ i

/-- How generic definitions spell their arity never matters: with other spellings the graph is
built all the same, each type has the shape that it had, and the same is found about it. Only
definitions that end in a question mark are compared as a whole. -/
theorem spelling_of_arity_never_matters (hg : build d implicit = .ok g) (h : d.Respells d') :
    (∃ g', build d' implicit = .ok g' ∧ ∀ i, ∃ i', g'.lookup (g.nameOf i) = some i' ∧
      g'.shape i' = g.shape i ∧ ∀ c : Config, g'.analyze c i' = g.analyze c i) ∧
    (∀ definition definition', EndsInQuestionMark definition → EndsInQuestionMark definition' →
      (familyOf definition = familyOf definition' ↔ definition = definition')) ∧
    ∀ definition, familyOf (familyOf definition) = familyOf definition := by
  refine ⟨?_, fun definition definition' hd hd' => ?_, familyOf_familyOf⟩
  · obtain ⟨g', hg'⟩ := h.exists_build_iff.mpr ⟨g, hg⟩
    obtain ⟨φ, hφ, hnames⟩ := exists_speltAlike hg hg' h
    refine ⟨g', hg', fun i => ⟨φ i, ?_, hφ.shape i, fun c => ?_⟩⟩
    · exact (lookup_eq_some_iff (nameOf_injective hg')).mpr (hnames i)
    · exact (hφ.walksAlike c).analyze_map fun j _ => hφ.checksAlike c j
  · rw [familyOf_of_endsInQuestionMark hd, familyOf_of_endsInQuestionMark hd']

/-- An atlas has a list of maps, which are not annotated. -/
def atlas (list sequence : String) : GraphDescription where
  types := [
    TypeDescription.ofKind .structType "Atlas"
      |>.asFormattable
      |>.withMember ((MemberDescription.field "Maps" "MapList").indexed 0),
    (TypeDescription.generic "MapList" .classType list ["Map"]).implementing "MapSequence",
    .generic "MapSequence" .interfaceType sequence ["Map"],
    .ofKind .classType "Map"]

theorem atlas_respells {list list' sequence sequence' base base' : String}
    (hbase : IsBase base) (hlist : IsSpelling base list) (hlist' : IsSpelling base list')
    (hbase' : IsBase base') (hsequence : IsSpelling base' sequence)
    (hsequence' : IsSpelling base' sequence') :
    (atlas list sequence).Respells (atlas list' sequence') :=
  .cons ⟨.inl rfl, rfl⟩ <|
    .cons ⟨.inr ⟨base, list, list', hbase, hlist, hlist', rfl, rfl⟩, rfl⟩ <|
      .cons ⟨.inr ⟨base', sequence, sequence', hbase', hsequence, hsequence', rfl, rfl⟩, rfl⟩ <|
        .cons ⟨.inl rfl, rfl⟩ .nil

def atlasGraph : TypeGraph :=
  (build (atlas "Lists.MapList<>" "System.Collections.Generic.ICollection<T>") []).toOption.get
    (by decide +kernel)

def atlasRoot : atlasGraph.Handle := (atlasGraph.lookup "Atlas").get (by decide +kernel)

def mapList : atlasGraph.Handle := (atlasGraph.lookup "MapList").get (by decide +kernel)

/-- In another spelling the list is a collection still, and maps are blamed in its place. -/
theorem map_list_is_collection_in_other_spelling :
    ∃ g', build (atlas "Lists.MapList\x601" "System.Collections.Generic.ICollection") [] =
        .ok g' ∧
      (∃ i, g'.lookup "MapList" = some i ∧ g'.shape i = .collection) ∧
      ∃ i, g'.lookup "Atlas" = some i ∧
        g'.analyze {} i = [.typeMustBeAnnotated {} ⟨"Map", {}⟩] := by
  have hbuild : build (atlas "Lists.MapList<>" "System.Collections.Generic.ICollection<T>") [] =
      .ok atlasGraph := rfl
  have hlist : IsBase "Lists.MapList" := ⟨by simp [isArityMark], by decide⟩
  have hsequence : IsBase "System.Collections.Generic.ICollection" :=
    ⟨by simp [isArityMark], by decide⟩
  have hrespelt : (atlas "Lists.MapList<>" "System.Collections.Generic.ICollection<T>").Respells
      (atlas "Lists.MapList\x601" "System.Collections.Generic.ICollection") :=
    atlas_respells hlist ⟨by decide, .inr ⟨">", .inl rfl⟩⟩ ⟨by decide, .inr ⟨"1", .inr rfl⟩⟩
      hsequence ⟨by decide, .inr ⟨"T>", .inl rfl⟩⟩ ⟨by decide, .inl rfl⟩
  obtain ⟨⟨g', hg', hsame⟩, -, -⟩ := spelling_of_arity_never_matters hbuild hrespelt
  refine ⟨g', hg', ?_, ?_⟩
  · obtain ⟨i, hi, hshape, -⟩ := hsame mapList
    refine ⟨i, hi, ?_⟩
    rw [hshape]
    decide +kernel
  · obtain ⟨i, hi, -, hfound⟩ := hsame atlasRoot
    refine ⟨i, hi, ?_⟩
    rw [hfound]
    decide +kernel

end TypeGraph
end LayoutContract
