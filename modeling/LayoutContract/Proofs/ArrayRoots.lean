import LayoutContract.Proofs.LayoutFindings
import LayoutContract.Proofs.ResolvedNames
import LayoutContract.Proofs.RootSubject
import Mathlib.Logic.Relation

/-!
Roots that are arrays. An array is found to be what the type at the end of the chain of its
elements is found to be, finding by finding. Only what is found about that type itself, or about
its layout, is shown at the place of the array, with the declaration beside it. Arrays that only
lead to each other have no findings.
-/
namespace LayoutContract

/-- The labels of a finding about a type: the place that led to the type and, where it is known
and a different place, its declaration. -/
def TypeSite.labels (t : TypeSite) (rule : Rule) (caller : Location) : List Label :=
  ⟨caller, rule.title, true⟩ ::
    if t.declaredAt.isKnown ∧ t.declaredAt ≠ caller then
      [⟨t.declaredAt, "`" ++ t.name ++ "` declared here", false⟩]
    else []

namespace Diagnostic

/-- Blames the type of this name itself, or its layout. -/
def blamesType (name : String) (d : Diagnostic) : Bool :=
  d.rule.subject ≠ .member ∧ d.arguments.head? = some (.type name)

/-- What is found about the type at `t` itself, shown at `caller` instead. Other findings stay. -/
def shownAt (caller : Location) (t : TypeSite) (d : Diagnostic) : Diagnostic :=
  if d.blamesType t.name then { d with labels := t.labels d.rule caller } else d

variable {rule : Rule} {caller caller' : Location} {t : TypeSite}

theorem blamesType_iff {name : String} {d : Diagnostic} :
    d.blamesType name = true ↔
      d.rule.subject ≠ .member ∧ d.arguments.head? = some (.type name) := by
  simp [blamesType]

theorem shownAt_of_not_blamesType {d : Diagnostic} (h : d.blamesType t.name = false) :
    d.shownAt caller t = d := by
  simp [shownAt, h]

theorem shownAt_of_member {d : Diagnostic} (h : d.rule.subject = .member) :
    d.shownAt caller t = d := by
  apply shownAt_of_not_blamesType
  rw [Bool.eq_false_iff, ne_eq, blamesType_iff]
  exact fun hd => hd.1 h

/-- Nothing but the labels tells where a finding about a type is shown. -/
theorem aboutType_eq (rule : Rule) (caller : Location) (t : TypeSite) (message : String) :
    aboutType rule caller t message =
      { rule, message, labels := t.labels rule caller, arguments := [.type t.name] } := by
  unfold aboutType TypeSite.labels
  split <;> rfl

theorem shownAt_aboutType (hrule : rule.subject ≠ .member) (message : String) :
    (aboutType rule caller t message).shownAt caller' t = aboutType rule caller' t message := by
  simp [shownAt, blamesType, aboutType_eq, hrule]

theorem shownAt_indicesMustBeSequential (index : Int) :
    (indicesMustBeSequential caller t index).shownAt caller' t =
      indicesMustBeSequential caller' t index := by
  simp [shownAt, blamesType, indicesMustBeSequential, aboutType_eq, withArgument, Rule.subject]

theorem shownAt_layoutNeedsMatchingConstructor (expected : List String) :
    (layoutNeedsMatchingConstructor caller t expected).shownAt caller' t =
      layoutNeedsMatchingConstructor caller' t expected := by
  simp [shownAt, blamesType, layoutNeedsMatchingConstructor, aboutType_eq, withNote, Rule.subject]

end Diagnostic

namespace TypeFault

variable (fault : TypeFault) (caller caller' : Location) (t : TypeSite)

theorem shownAt_finding : (fault.finding caller t).shownAt caller' t = fault.finding caller' t := by
  cases fault <;> exact Diagnostic.shownAt_aboutType (by decide) _

theorem shownAt_finding_of_ne {other : TypeSite} (h : other.name ≠ t.name) :
    (fault.finding caller other).shownAt caller' t = fault.finding caller other := by
  apply Diagnostic.shownAt_of_not_blamesType
  rw [Bool.eq_false_iff, ne_eq, Diagnostic.blamesType_iff, arguments_finding]
  simp [h]

end TypeFault

namespace TypeGraph

/-- A step from an array, whose name is not terminal, to its element. -/
def HasElement (g : TypeGraph) (c : Config) (i j : g.Handle) : Prop :=
  c.isTerminal (g.typeAt i).name = false ∧ (g.typeAt i).form = .arrayType j

variable {g : TypeGraph} {c : Config} {root i j k : g.Handle}

instance : Decidable (g.HasElement c i j) := inferInstanceAs (Decidable (_ ∧ _))

/-- An array has one element. -/
theorem HasElement.unique (hj : g.HasElement c i j) (hk : g.HasElement c i k) : j = k :=
  TypeForm.arrayType.inj (hj.2.symm.trans hk.2)

theorem HasElement.not_composite (h : g.HasElement c i j) :
    (g.typeAt i).form.kind.isComposite = false := by
  rw [h.2]
  rfl

/-- An array and its element stand for the same. -/
theorem HasElement.standsFor_iff (h : g.HasElement c i j) :
    g.StandsFor c i k ↔ g.StandsFor c j k := by
  constructor
  · intro hk
    cases hk with
    | self _ hkind => simp [h.not_composite] at hkind
    | element hname hform hk => exact h.unique ⟨hname, hform⟩ ▸ hk
  · exact .element h.1 h.2

theorem standsFor_iff_of_elements (h : Relation.ReflTransGen (g.HasElement c) root i) :
    g.StandsFor c root k ↔ g.StandsFor c i k := by
  induction h using Relation.ReflTransGen.head_induction_on with
  | refl => rfl
  | head hstep _ ih => rw [hstep.standsFor_iff, ih]

theorem StandsFor.elements (h : g.StandsFor c root i) :
    Relation.ReflTransGen (g.HasElement c) root i := by
  induction h with
  | self => exact .refl
  | element hname hform _ ih => exact .head ⟨hname, hform⟩ ih

/-- A type without an element stands for itself or for nothing. -/
theorem StandsFor.eq_of_no_element (h : g.StandsFor c i k) (hend : ∀ j, ¬ g.HasElement c i j) :
    k = i := by
  cases h with
  | self => rfl
  | element hname hform _ => exact absurd ⟨hname, hform⟩ (hend _)

/-- Among arrays whose elements are among them, a chain of elements goes on forever. -/
theorem exists_element_of_closed {arrays : List g.Handle}
    (hclosed : ∀ i ∈ arrays, ∃ j ∈ arrays, g.HasElement c i j) (hroot : root ∈ arrays)
    (h : Relation.ReflTransGen (g.HasElement c) root i) : ∃ j, g.HasElement c i j := by
  have hmem : i ∈ arrays := by
    induction h with
    | refl => exact hroot
    | tail _ hstep ih =>
      obtain ⟨j, hj, helement⟩ := hclosed _ ih
      exact hstep.unique helement ▸ hj
  obtain ⟨j, -, helement⟩ := hclosed i hmem
  exact ⟨j, helement⟩

/-- What is found behind the members of a type is not about that type. -/
theorem map_shownAt_memberBlocks (hnames : Function.Injective fun i => (g.typeAt i).name)
    (caller : Location) (i : g.Handle) (ms : List (Member g.Handle)) :
    (g.memberBlocks c i ms).map (·.shownAt caller (g.site i)) = g.memberBlocks c i ms := by
  refine (List.map_congr_left fun d hd => ?_).trans (List.map_id _)
  cases hsubject : d.rule.subject with
  | member => exact Diagnostic.shownAt_of_member hsubject
  | layout => exact absurd hsubject (not_layout_of_mem_memberBlocks hd)
  | type =>
    obtain ⟨m, -, j, fault, -, hreach, rfl⟩ := reached_of_type_finding hd hsubject
    have hother : (g.typeAt j).name ≠ (g.typeAt i).name := by
      intro hname
      exact hreach.target_not_avoided (List.mem_singleton.mpr (hnames hname))
    exact fault.shownAt_finding_of_ne _ _ _ hother

theorem layoutFinding?_shownAt (caller caller' : Location) (i : g.Handle)
    (ledger : IndexLedger g.Handle) :
    (g.layoutFinding? caller i ledger).map (·.shownAt caller' (g.site i)) =
      g.layoutFinding? caller' i ledger := by
  unfold layoutFinding?
  cases g.layoutVerdict ledger i with
  | valid => rfl
  | gap index => exact congrArg some (Diagnostic.shownAt_indicesMustBeSequential index)
  | noMatchingConstructor expected =>
    exact congrArg some (Diagnostic.shownAt_layoutNeedsMatchingConstructor _)

/-- A root that stands for a type is found to be what that type is found to be. -/
theorem StandsFor.analyze_eq_map (h : g.StandsFor c root i)
    (hnames : Function.Injective fun i => (g.typeAt i).name) :
    g.analyze c root =
      (g.analyze c i).map (·.shownAt (g.typeAt root).location (g.site i)) := by
  have hself : g.StandsFor c i i := .self h.nonterminal h.composite
  rcases h.fault_or_enumerates with ⟨fault, hfault⟩ | henumerates
  · rw [analyze_of_standsFor_fault h hfault, analyze_of_standsFor_fault hself hfault,
      List.map_singleton, fault.shownAt_finding]
  · rw [analyze_of_standsFor h henumerates, analyze_of_standsFor hself henumerates,
      List.map_append, map_shownAt_memberBlocks hnames]
    congr 1
    split
    · rw [← layoutFinding?_shownAt (g.typeAt i).location, Option.toList_map]
    · rfl

/-- A root that is an array is found to be what its innermost element is found to be, the same
findings in the same order. Those about that element itself and about its layout are shown at the
array, with the declaration of the element behind it where that is known and a different place.
When the chain of elements does not end, nothing is found. -/
theorem array_root_found_as_innermost_element {d : GraphDescription} {implicit : List String}
    (hg : build d implicit = .ok g) (c : Config) (root : g.Handle) :
    (∀ i, Relation.ReflTransGen (g.HasElement c) root i → (∀ j, ¬ g.HasElement c i j) →
      g.analyze c root =
        (g.analyze c i).map (·.shownAt (g.typeAt root).location (g.site i))) ∧
    ((∀ i, Relation.ReflTransGen (g.HasElement c) root i → ∃ j, g.HasElement c i j) →
      g.analyze c root = []) := by
  constructor
  · intro i hchain hend
    by_cases hi : g.StandsFor c i i
    · exact ((standsFor_iff_of_elements hchain).mpr hi).analyze_eq_map (name_injective_of_build hg)
    · have hnone : ∀ k, ¬ g.StandsFor c i k := fun k hk => hi (hk.eq_of_no_element hend ▸ hk)
      rw [analyze_of_not_standsFor hnone,
        analyze_of_not_standsFor fun k hk => hnone k ((standsFor_iff_of_elements hchain).mp hk)]
      rfl
  · intro hendless
    refine analyze_of_not_standsFor fun i hi => ?_
    obtain ⟨j, hj⟩ := hendless i hi.elements
    exact Bool.false_ne_true (hj.not_composite.symm.trans hi.composite)

/-- Crates in stacks on a pallet, with crates for parts, beside two arrays of each other. -/
def crates : GraphDescription where
  types := [
    (TypeDescription.array "Crate[][]" "Crate[]").declaredAt { line := 1 },
    (TypeDescription.array "Crate[]" "Crate").declaredAt { line := 2 },
    TypeDescription.ofKind .structType "Crate"
      |>.asFormattable
      |>.withMember ((MemberDescription.field "Parts" "Crate[]").indexed 0)
      |>.declaredAt { line := 3 },
    .array "Ring[]" "Loop[]",
    .array "Loop[]" "Ring[]"]

def cratesGraph : TypeGraph := (build crates []).toOption.get (by decide +kernel)

def pallet : cratesGraph.Handle := (cratesGraph.lookup "Crate[][]").get (by decide +kernel)

def crate : cratesGraph.Handle := (cratesGraph.lookup "Crate").get (by decide +kernel)

def ring : cratesGraph.Handle := (cratesGraph.lookup "Ring[]").get (by decide +kernel)

/-- A crate lacks a constructor, which is shown at the pallet when that is the root. -/
theorem crate_found_at_pallet :
    build crates [] = .ok cratesGraph ∧
      Relation.ReflTransGen (cratesGraph.HasElement {}) pallet crate ∧
      (∀ j, ¬ cratesGraph.HasElement {} crate j) ∧
      cratesGraph.analyze {} crate =
        [.layoutNeedsMatchingConstructor { line := 3 } ⟨"Crate", { line := 3 }⟩ ["Crate[]"]] ∧
      cratesGraph.analyze {} pallet =
        [.layoutNeedsMatchingConstructor { line := 1 } ⟨"Crate", { line := 3 }⟩ ["Crate[]"]] ∧
      (∀ i, Relation.ReflTransGen (cratesGraph.HasElement {}) ring i →
        ∃ j, cratesGraph.HasElement {} i j) ∧
      cratesGraph.analyze {} ring = [] := by
  have hg : build crates [] = .ok cratesGraph := rfl
  have hstack : ∃ stack, cratesGraph.HasElement {} pallet stack ∧
      cratesGraph.HasElement {} stack crate := by
    decide +kernel
  obtain ⟨stack, hpallet, hcrates⟩ := hstack
  have hchain : Relation.ReflTransGen (cratesGraph.HasElement {}) pallet crate :=
    (Relation.ReflTransGen.single hpallet).tail hcrates
  have hend : ∀ j, ¬ cratesGraph.HasElement {} crate j := by decide +kernel
  have hcrate : cratesGraph.analyze {} crate =
      [.layoutNeedsMatchingConstructor { line := 3 } ⟨"Crate", { line := 3 }⟩ ["Crate[]"]] := by
    decide +kernel
  have hclosed : ∃ loop, ∀ i ∈ [ring, loop], ∃ j ∈ [ring, loop],
      cratesGraph.HasElement {} i j := by
    decide +kernel
  obtain ⟨loop, hclosed⟩ := hclosed
  have hendless : ∀ i, Relation.ReflTransGen (cratesGraph.HasElement {}) ring i →
      ∃ j, cratesGraph.HasElement {} i j :=
    fun _ => exists_element_of_closed hclosed List.mem_cons_self
  have hfound := (array_root_found_as_innermost_element hg {} pallet).1 crate hchain hend
  refine ⟨hg, hchain, hend, hcrate, ?_, hendless,
    (array_root_found_as_innermost_element hg {} ring).2 hendless⟩
  rw [hfound, hcrate]
  decide +kernel

end TypeGraph
end LayoutContract
