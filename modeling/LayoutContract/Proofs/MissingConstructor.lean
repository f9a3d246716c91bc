import LayoutContract.Proofs.EditedGraphs
import LayoutContract.Proofs.LayoutFindings
import LayoutContract.Proofs.RootSubject

/-!
A struct that is told which constructor it lacks, and given that constructor. The names in the
note are the display names of the types at its places, so in the description they lead back to
these types, and a constructor that takes them takes the places. No walk looks at the constructors
of a struct. So nothing else changes, except for the arrays that stand for the struct: such a root
is checked as the struct is.
-/
namespace LayoutContract

/-- The type of the given name has one more constructor. -/
def GraphDescription.withConstructor (d : GraphDescription) (name : String)
    (parameters : List String) : GraphDescription :=
  { types := d.types.map fun t =>
      if t.name = name then t.withConstructor parameters else t }

namespace TypeGraph

/-- The definitions in which `root` has one more constructor. -/
def addingConstructor (g : TypeGraph) (root : g.Handle) (parameters : List g.Handle)
    (i : g.Handle) : TypeDef g.Handle :=
  if i = root then
    { g.typeAt root with constructors := (g.typeAt root).constructors ++ [parameters] }
  else g.typeAt i

/-- The graph in which `root` has one more constructor. -/
abbrev withConstructor (g : TypeGraph) (root : g.Handle) (parameters : List g.Handle) :
    TypeGraph :=
  g.withDefinitions (g.addingConstructor root parameters)

variable {g : TypeGraph} {c : Config} {root : g.Handle} {parameters : List g.Handle}
  {d : GraphDescription} {implicit : List String}

theorem addingConstructor_self (root : g.Handle) (parameters : List g.Handle) :
    g.addingConstructor root parameters root =
      { g.typeAt root with constructors := (g.typeAt root).constructors ++ [parameters] } :=
  if_pos rfl

theorem addingConstructor_of_ne {i : g.Handle} (h : i ≠ root) :
    g.addingConstructor root parameters i = g.typeAt i :=
  if_neg h

/-- An annotated type is declared. -/
theorem ne_nameOf_of_new (hg : build d implicit = .ok g)
    (hannotated : (g.typeAt root).formattable = true) {name : String}
    (hnew : name ∈ newNames d.names (builtinScalars ++ implicit)) : name ≠ g.nameOf root := by
  intro hname
  have hentry : TypeDescription.implicit name ∈ d.entries implicit :=
    List.mem_append_right _ (List.mem_map_of_mem hnew)
  have hdescribe := congrArg (·.formattable) (describe_of_mem_entries hg hentry hname)
  simp [describe, TypeDef.describe, TypeDef.map, TypeDescription.normalized,
    TypeDescription.implicit, TypeDescription.ofKind, hannotated] at hdescribe

section Struct

variable (hstruct : (g.typeAt root).form = .structType)
include hstruct

theorem keepsWalks_withConstructor (parameters : List g.Handle) :
    g.KeepsWalks (g.addingConstructor root parameters) where
  outline i := by
    unfold addingConstructor
    split
    · rename_i h
      rw [h]
    · rfl
  constructors i hi := by
    rw [addingConstructor_of_ne]
    rintro rfl
    exact hi hstruct

theorem describe_withConstructor (hnames : Function.Injective g.nameOf) (i : g.Handle) :
    (g.withConstructor root parameters).describe i =
      if g.nameOf i = g.nameOf root then
        (g.describe i).withConstructor (parameters.map g.nameOf)
      else g.describe i := by
  rw [describe, (keepsWalks_withConstructor hstruct parameters).nameOf, typeAt_withDefinitions]
  by_cases hi : i = root
  · subst hi
    rw [addingConstructor_self, if_pos rfl]
    simp [describe, TypeDef.describe, TypeDef.map, TypeDescription.withConstructor]
  · rw [addingConstructor_of_ne hi, if_neg fun hsame => hi (hnames hsame)]
    rfl

/-- The constructor can be added in the description. -/
theorem build_withConstructor (hg : build d implicit = .ok g)
    (hannotated : (g.typeAt root).formattable = true) (parameters : List g.Handle) :
    build (d.withConstructor (g.nameOf root) (parameters.map g.nameOf)) implicit =
      .ok (g.withConstructor root parameters) := by
  refine build_edited hg ?_ ?_ ?_ (describe_withConstructor hstruct (nameOf_injective hg))
  · intro t
    split <;> rfl
  · intro t
    rw [TypeDescription.name_normalized]
    split <;> rfl
  · intro name hnew
    exact if_neg (ne_nameOf_of_new hg hannotated hnew)

/-- A root that does not stand for the struct is checked as before. -/
theorem analyze_withConstructor_of_not_standsFor (parameters : List g.Handle) {i : g.Handle}
    (hi : ¬ g.StandsFor c i root) :
    (g.withConstructor root parameters).analyze c i = g.analyze c i := by
  have hkeeps := keepsWalks_withConstructor hstruct parameters
  refine (hkeeps.walksAlike c).analyze_map fun j hj => hkeeps.checksAlike c ?_
  refine addingConstructor_of_ne fun heq => hi ?_
  exact heq ▸ standsFor_of_subject hj

theorem enumeratesMembers_withConstructor (h : g.EnumeratesMembers c root)
    (parameters : List g.Handle) :
    (g.withConstructor root parameters).EnumeratesMembers c root := by
  constructor
  all_goals rw [typeAt_withDefinitions, addingConstructor_self]
  · exact h.nonterminal
  · exact h.composite
  · exact h.annotated
  · exact .inl hstruct

theorem standsFor_withConstructor (parameters : List g.Handle) {i j : g.Handle}
    (h : g.StandsFor c i j) : (g.withConstructor root parameters).StandsFor c i j := by
  have hkeeps := keepsWalks_withConstructor hstruct parameters
  induction h with
  | @self i hname hkind =>
    apply StandsFor.self
    · rwa [typeAt_withDefinitions, hkeeps.name i]
    · rwa [typeAt_withDefinitions, hkeeps.form i]
  | @element i j k hname hform _ ih =>
    refine StandsFor.element ?_ ?_ ih
    · rwa [typeAt_withDefinitions, hkeeps.name i]
    · rwa [typeAt_withDefinitions, hkeeps.form i]

/-- With a constructor that takes its places, a clean struct has a layout, and so has each array
that stands for it. -/
theorem analyze_withConstructor_of_standsFor (h : g.EnumeratesMembers c root)
    (hclean : g.memberBlocks c root (g.typeAt root).membersInCheckOrder = [])
    {places : List (Int × g.Handle)}
    (hplaces :
      (g.memberPass c root (g.typeAt root).membersInCheckOrder).ledger.places = places)
    (hgap : IndexLedger.firstGap (places.map (·.1)) = none) {i : g.Handle}
    (hi : g.StandsFor c i root) :
    (g.withConstructor root (places.map (·.2))).analyze c i = [] := by
  have hkeeps := keepsWalks_withConstructor hstruct (places.map (·.2))
  have hmembers : ((g.withConstructor root (places.map (·.2))).typeAt root).membersInCheckOrder =
      (g.typeAt root).membersInCheckOrder := by
    rw [typeAt_withDefinitions, addingConstructor_self]
    rfl
  have haccepted : (g.withConstructor root (places.map (·.2))).AcceptsPlaces root places := by
    refine ⟨hgap, .inr ⟨places.map (·.2), ?_, List.map_map⟩⟩
    rw [typeAt_withDefinitions, addingConstructor_self]
    exact List.mem_append_right _ (List.mem_singleton_self _)
  rw [analyze_of_standsFor (standsFor_withConstructor hstruct _ hi)
    (enumeratesMembers_withConstructor hstruct h _), hmembers, hkeeps.memberBlocks c h.composite,
    hclean, hkeeps.memberPass c root, layoutFinding?_of_accepted (hplaces ▸ haccepted)]
  split <;> rfl

end Struct

/-- A struct of which it is found that no constructor takes its places is clean otherwise, and
its places are in order and without a gap. -/
theorem clean_of_missing_constructor (hstruct : (g.typeAt root).form = .structType)
    {x : Diagnostic} (hx : g.analyze c root = [x])
    (hrule : x.rule = .layoutNeedsMatchingConstructor) :
    g.EnumeratesMembers c root ∧
      g.memberBlocks c root (g.typeAt root).membersInCheckOrder = [] := by
  have hkind : (g.typeAt root).form.kind.isComposite = true := by rw [hstruct]; rfl
  have hlayout : x.rule.subject = .layout := by rw [hrule]; rfl
  rcases root_cases (c := c) hkind with hname | ⟨hname, fault, hfault⟩ | henumerates
  · simp [analyze_of_terminal hname] at hx
  · rw [analyze_of_fault hname hkind hfault, List.cons.injEq] at hx
    simp [← hx.1] at hlayout
  · refine ⟨henumerates, ?_⟩
    by_contra hfound
    rw [analyze_eq_memberBlocks_append henumerates, if_neg fun h => hfound h.2,
      List.append_nil] at hx
    exact not_layout_of_mem_memberBlocks (hx ▸ List.mem_singleton_self x) hlayout

/-- The note tells the types at the places, which are in order and without a gap. -/
theorem finding_of_missing_constructor (h : g.EnumeratesMembers c root)
    (hstruct : (g.typeAt root).form = .structType)
    (hclean : g.memberBlocks c root (g.typeAt root).membersInCheckOrder = [])
    {places : List (Int × g.Handle)}
    (hplaces :
      (g.memberPass c root (g.typeAt root).membersInCheckOrder).ledger.places = places)
    {x : Diagnostic} (hx : g.analyze c root = [x])
    (hrule : x.rule = .layoutNeedsMatchingConstructor) :
    IndexLedger.firstGap (places.map (·.1)) = none ∧
      x = .layoutNeedsMatchingConstructor (g.typeAt root).location (g.site root)
        (places.map fun p => g.nameOf p.2) := by
  have hsegment := firstGap_eq_none_iff_of_clean h.composite hclean
  have hdecided := decidedByPlaces_of_clean h hstruct hclean
  rw [hplaces] at hsegment hdecided
  by_cases hinitial : IsInitialSegment ((indexedTypes (g.typeAt root).members).map (·.1))
  · refine ⟨hsegment.mpr hinitial, ?_⟩
    by_cases haccepted : places = [] ∨ ∃ parameters ∈ (g.typeAt root).constructors,
        parameters.map (fun j => (g.typeAt j).qualifiedName) =
          places.map fun p => (g.typeAt p.2).qualifiedName
    · simp [hdecided.accepted hinitial haccepted] at hx
    · obtain ⟨hsome, hnone⟩ := not_or.mp haccepted
      have hrejected := hdecided.rejected hinitial hsome fun parameters hmem heq =>
        hnone ⟨parameters, hmem, heq⟩
      exact List.head_eq_of_cons_eq (hx.symm.trans hrejected)
  · obtain ⟨_, index, _, _, _, _, hgap⟩ := hdecided.gap hinitial
    have hsequential := List.head_eq_of_cons_eq (hx.symm.trans hgap)
    simp [hsequential] at hrule

/-- When all that is found about a struct is that no constructor takes its places, the note names
the types at these places, and a constructor with just these parameters is the remedy: the graph is
built as before, with the same handles for all names, nothing is found about the struct any more,
nor about an array that stands for it, and about every other type the same is found as before. -/
theorem missing_constructor_is_as_noted
    (hg : build d implicit = .ok g) (c : Config) (hstruct : (g.typeAt root).form = .structType)
    {x : Diagnostic} (hx : g.analyze c root = [x])
    (hrule : x.rule = .layoutNeedsMatchingConstructor) :
    ∃ places : List (Int × g.Handle),
      places.Perm (indexedTypes (g.typeAt root).members) ∧
      (places.map (·.1)).Pairwise (· < ·) ∧
      x = .layoutNeedsMatchingConstructor (g.typeAt root).location (g.site root)
        (places.map fun p => g.nameOf p.2) ∧
      build (d.withConstructor (g.nameOf root) (places.map fun p => g.nameOf p.2)) implicit =
        .ok (g.withConstructor root (places.map (·.2))) ∧
      (∀ name,
        (g.withConstructor root (places.map (·.2))).lookup name = g.lookup name) ∧
      (g.withConstructor root (places.map (·.2))).analyze c root = [] ∧
      ∀ i, i ≠ root →
        (g.StandsFor c i root → (g.withConstructor root (places.map (·.2))).analyze c i = []) ∧
        (¬ g.StandsFor c i root →
          (g.withConstructor root (places.map (·.2))).analyze c i = g.analyze c i) := by
  obtain ⟨henumerates, hclean⟩ := clean_of_missing_constructor hstruct hx hrule
  have hkind := henumerates.composite
  obtain ⟨places, hplaces⟩ :
      ∃ places, (g.memberPass c root (g.typeAt root).membersInCheckOrder).ledger.places = places :=
    ⟨_, rfl⟩
  obtain ⟨hgap, hfinding⟩ :=
    finding_of_missing_constructor henumerates hstruct hclean hplaces hx hrule
  have hbuild := build_withConstructor hstruct hg henumerates.annotated (places.map (·.2))
  rw [List.map_map] at hbuild
  have hstands {i : g.Handle} (hi : g.StandsFor c i root) :=
    analyze_withConstructor_of_standsFor hstruct henumerates hclean hplaces hgap hi
  refine ⟨places, hplaces ▸ places_of_clean hkind hclean,
    hplaces ▸ places_pairwise_lt_of_clean hkind hclean, hfinding, hbuild,
    (keepsWalks_withConstructor hstruct _).lookup,
    hstands (.self henumerates.nonterminal hkind), ?_⟩
  exact fun i _ => ⟨hstands, analyze_withConstructor_of_not_standsFor hstruct _⟩

/-- A voucher with the noted constructor is clean, and shelves are found to be what they were. -/
theorem voucher_clean_with_noted_constructor :
    build library [] = .ok libraryGraph ∧
      (libraryGraph.typeAt voucher).form = .structType ∧
      libraryGraph.analyze {} voucher =
        [.layoutNeedsMatchingConstructor {} ⟨"Voucher", {}⟩ ["string", "int"]] ∧
      ∃ parameters,
        build (library.withConstructor "Voucher" ["string", "int"]) [] =
          .ok (libraryGraph.withConstructor voucher parameters) ∧
        (libraryGraph.withConstructor voucher parameters).analyze {} voucher = [] ∧
        (libraryGraph.withConstructor voucher parameters).analyze {} shelf =
          libraryGraph.analyze {} shelf := by
  have hg : build library [] = .ok libraryGraph := rfl
  have hstruct : (libraryGraph.typeAt voucher).form = .structType := by decide +kernel
  have hx : libraryGraph.analyze {} voucher =
      [.layoutNeedsMatchingConstructor {} ⟨"Voucher", {}⟩ ["string", "int"]] := by
    decide +kernel
  obtain ⟨places, hperm, hascending, -, hbuild, -, hclean, hothers⟩ :=
    missing_constructor_is_as_noted hg {} hstruct hx (by simp)
  have hplaces : places = (indexedTypes (libraryGraph.typeAt voucher).members).reverse :=
    eq_of_perm_of_ascending (hperm.trans (List.reverse_perm _).symm) hascending
      (by decide +kernel)
  have hnames : (places.map fun p => libraryGraph.nameOf p.2) = ["string", "int"] := by
    rw [hplaces]
    decide +kernel
  have hname : libraryGraph.nameOf voucher = "Voucher" := by decide +kernel
  have hne : shelf ≠ voucher := by decide +kernel
  have hshelf : ¬ libraryGraph.StandsFor {} shelf voucher := fun h =>
    hne (h.eq_root (by decide +kernel)).symm
  rw [hname, hnames] at hbuild
  have hsame := (hothers shelf hne).2 hshelf
  refine ⟨hg, hstruct, hx, places.map (·.2), ?_, ?_, ?_⟩
  · exact hbuild
  · exact hclean
  · exact hsame

/-- Two vouchers at a time, as an array. -/
def vouchers : GraphDescription where
  types := [
    TypeDescription.ofKind .structType "Voucher"
      |>.asFormattable
      |>.withConstructor ["int", "string"]
      |>.withMember ((MemberDescription.field "Amount" "int").indexed 1)
      |>.withMember ((MemberDescription.property "Holder" "string").indexed 0),
    .array "Voucher[]" "Voucher"]

def vouchersGraph : TypeGraph := (build vouchers []).toOption.get (by decide +kernel)

/-- The note changes what is found about the array as well, which is another type. -/
theorem array_of_vouchers_changes_with_voucher :
    build vouchers [] = .ok vouchersGraph ∧
      ∃ voucher bundle : vouchersGraph.Handle,
        vouchersGraph.lookup "Voucher" = some voucher ∧
        vouchersGraph.lookup "Voucher[]" = some bundle ∧ bundle ≠ voucher ∧
        (vouchersGraph.typeAt voucher).form = .structType ∧
        vouchersGraph.analyze {} voucher =
          [.layoutNeedsMatchingConstructor {} ⟨"Voucher", {}⟩ ["string", "int"]] ∧
        ∃ parameters,
          build (vouchers.withConstructor "Voucher" ["string", "int"]) [] =
            .ok (vouchersGraph.withConstructor voucher parameters) ∧
          (vouchersGraph.withConstructor voucher parameters).analyze {} bundle ≠
            vouchersGraph.analyze {} bundle := by
  have hg : build vouchers [] = .ok vouchersGraph := rfl
  have hannotated : (vouchersGraph.typeAt ⟨0, by decide +kernel⟩).formattable = true := by
    decide +kernel
  have hstruct : (vouchersGraph.typeAt ⟨0, by decide +kernel⟩).form = .structType := by
    decide +kernel
  have hbuild := build_withConstructor hstruct hg hannotated
    (["string", "int"].filterMap vouchersGraph.lookup)
  exact ⟨hg, ⟨0, by decide +kernel⟩, ⟨1, by decide +kernel⟩, by decide +kernel,
    by decide +kernel, by decide +kernel, hstruct, by decide +kernel, _, hbuild,
    by decide +kernel⟩

end TypeGraph
end LayoutContract
