import LayoutContract.Proofs.MemberOrder
import LayoutContract.Proofs.NestedOffenders

/-!
What a type is blamed for behind the members of another one, compared with what it is blamed for
as a root. A wrapper is looked through behind members and the members of a type are looked at
for a root only, so a root is judged in more ways. But a fault of a type is found before any of
that, and it is the same fault, shown at another place.
-/
namespace LayoutContract.TypeGraph

variable {g : TypeGraph} {c : Config} {root t : g.Handle}

/-- A type that offends behind members has its fault for the only finding as a root. -/
theorem Offends.analyze_eq {fault : TypeFault} (h : g.Offends c t fault) :
    g.analyze c t = [fault.finding (g.typeAt t).location (g.site t)] := by
  cases h with
  | unannotated hself hannotated =>
    exact analyze_of_fault hself.nonterminal hself.composite
      (fault?_eq_unannotated_iff.mpr hannotated)
  | noDefaultConstructor hself hannotated hform hconstructors =>
    exact analyze_of_fault hself.nonterminal hself.composite
      ((fault?_eq_noDefaultConstructor_iff hself.composite).mpr
        ⟨hannotated, hform, hconstructors⟩)

/-- Whatever one root finds about another type is an offence of that type. -/
theorem offends_of_type_finding (hnames : Function.Injective fun i => (g.typeAt i).name)
    (hne : root ≠ t) (hkind : (g.typeAt root).form.kind.isComposite = true) {x : Diagnostic}
    (hx : x ∈ g.analyze c root) (hfinding : x.isTypeFinding (g.typeAt t).name = true) :
    ∃ fault caller, g.Offends c t fault ∧ fault.finding caller (g.site t) = x := by
  rcases root_cases (c := c) hkind with hname | ⟨hname, fault, hfault⟩ | henumerates
  · simp [analyze_of_terminal hname] at hx
  · -- A root that is at fault blames itself.
    rw [analyze_of_fault hname hkind hfault, List.mem_singleton] at hx
    rw [hx, TypeFault.isTypeFinding_finding, decide_eq_true_iff] at hfinding
    exact absurd (hnames hfinding) hne
  · have hmem := List.mem_filter.mpr ⟨hx, hfinding⟩
    rw [filter_analyze hnames henumerates t, Option.mem_toList, firstFinding?_eq_some_iff] at hmem
    obtain ⟨m, fault, -, hoffends, hfound⟩ := hmem
    exact ⟨fault, m.location, hoffends, hfound⟩

/-- What a root finds about another type is all that is found about that type when it is the root,
with nothing but the labels changed. So a type without findings as a root, or with any that is not
about a type, is never blamed behind the members of another. -/
theorem nested_fault_is_fault_of_root {d : GraphDescription} {implicit : List String}
    (hg : build d implicit = .ok g) (c : Config) (hne : root ≠ t)
    (hkind : (g.typeAt root).form.kind.isComposite = true) :
    (∀ x ∈ g.analyze c root, x.isTypeFinding (g.typeAt t).name = true →
      ∃ y, g.analyze c t = [y] ∧ y.unlabelled = x.unlabelled) ∧
    ((g.analyze c t = [] ∨ ∃ y ∈ g.analyze c t, y.rule.subject ≠ .type) →
      ∀ x ∈ g.analyze c root, x.isTypeFinding (g.typeAt t).name = false) := by
  have hoffends {x : Diagnostic} (hx : x ∈ g.analyze c root)
      (hfinding : x.isTypeFinding (g.typeAt t).name = true) :=
    offends_of_type_finding (name_injective_of_build hg) hne hkind hx hfinding
  constructor
  · intro x hx hfinding
    obtain ⟨fault, caller, hoffends, rfl⟩ := hoffends hx hfinding
    exact ⟨_, hoffends.analyze_eq, fault.unlabelled_finding _ _ _⟩
  · intro hother x hx
    rw [Bool.eq_false_iff]
    intro hfinding
    obtain ⟨fault, -, hoffends, -⟩ := hoffends hx hfinding
    rw [hoffends.analyze_eq] at hother
    rcases hother with hnone | ⟨y, hy, hsubject⟩
    · exact List.cons_ne_nil _ _ hnone
    · rw [List.mem_singleton.mp hy, TypeFault.rule_finding, TypeFault.subject_rule] at hsubject
      exact hsubject rfl

/-- A letter with a stamp that is not annotated and a sender whose name lacks an index. -/
def mail : GraphDescription where
  types := [
    TypeDescription.ofKind .structType "Letter"
      |>.asFormattable
      |>.withMember (((MemberDescription.field "Stamp" "Stamp").indexed 0).declaredAt { line := 2 })
      |>.withMember (((MemberDescription.field "Sender" "Person").indexed 1).declaredAt
        { line := 3 }),
    (TypeDescription.ofKind .classType "Stamp").declaredAt { line := 5 },
    TypeDescription.ofKind .structType "Person"
      |>.asFormattable
      |>.withMember (MemberDescription.field "Name" "string")]

def mailGraph : TypeGraph := (build mail []).toOption.get (by decide +kernel)

def letter : mailGraph.Handle := (mailGraph.lookup "Letter").get (by decide +kernel)

def stamp : mailGraph.Handle := (mailGraph.lookup "Stamp").get (by decide +kernel)

def person : mailGraph.Handle := (mailGraph.lookup "Person").get (by decide +kernel)

/-- The letter is blamed for its stamp as the stamp itself is, and for its sender not at all. -/
theorem letter_blames_stamp_and_not_person :
    build mail [] = .ok mailGraph ∧ letter ≠ stamp ∧ letter ≠ person ∧
      (mailGraph.typeAt letter).form.kind.isComposite = true ∧
      mailGraph.analyze {} letter = [.typeMustBeAnnotated { line := 2 } ⟨"Stamp", { line := 5 }⟩] ∧
      (∃ y, mailGraph.analyze {} stamp = [y] ∧
        y.unlabelled =
          (Diagnostic.typeMustBeAnnotated { line := 2 } ⟨"Stamp", { line := 5 }⟩).unlabelled) ∧
      (mailGraph.analyze {} person).map (·.rule) = [.memberNeedsIndex] ∧
      ∀ x ∈ mailGraph.analyze {} letter,
        x.isTypeFinding (mailGraph.typeAt person).name = false := by
  have hg : build mail [] = .ok mailGraph := rfl
  have hstamp : letter ≠ stamp := by decide +kernel
  have hperson : letter ≠ person := by decide +kernel
  have hkind : (mailGraph.typeAt letter).form.kind.isComposite = true := by decide +kernel
  have hletter : mailGraph.analyze {} letter =
      [.typeMustBeAnnotated { line := 2 } ⟨"Stamp", { line := 5 }⟩] := by
    decide +kernel
  have hblamed := (nested_fault_is_fault_of_root hg {} hstamp hkind).1 _
    (hletter ▸ List.mem_singleton_self _) (by decide +kernel)
  have hother : ∃ y ∈ mailGraph.analyze {} person, y.rule.subject ≠ .type := by decide +kernel
  exact ⟨hg, hstamp, hperson, hkind, hletter, hblamed, by decide +kernel,
    (nested_fault_is_fault_of_root hg {} hperson hkind).2 (.inr hother)⟩

end LayoutContract.TypeGraph
