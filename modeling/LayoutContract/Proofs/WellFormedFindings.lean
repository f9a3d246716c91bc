import LayoutContract.Proofs.ArrayRoots

/-!
What a finding about a root can look like. Its rule settles the severity, the words of the first
label and the kinds of the arguments; all names, places and indices in it are those of the type or
of the member that it is about. A type is blamed at the place of the root that stands for it, or
else at a member that leads to it, and a layout at the place of the root.
-/
namespace LayoutContract

/-- The arguments of a finding about a member. Few rules mention an index. -/
def Rule.memberArguments (rule : Rule) (m : MemberSite) (index : Int) : List Argument :=
  match rule with
  | .duplicateIndex => [.type m.owner, .member m.name, .index index]
  | .indexTooLarge => [.index index, .member m.name]
  | _ => [.type m.owner, .member m.name]

namespace Diagnostic

/-- A finding about the type at `t`, shown at `caller`. Behind the name of the type there are
`more` arguments. -/
structure IsAboutType (d : Diagnostic) (t : TypeSite) (caller : Location)
    (more : List Argument) : Prop where
  severity : d.severity = d.rule.severity
  labels : d.labels = t.labels d.rule caller
  arguments : d.arguments = .type t.name :: more

/-- A finding about the member at `m`. An index in it is the one that the member is marked with. -/
structure IsAboutMember (d : Diagnostic) (m : MemberSite) (mark : IndexMark) : Prop where
  subject : d.rule.subject = .member
  severity : d.severity = d.rule.severity
  labels : d.labels = [⟨m.location, d.rule.title, true⟩]
  arguments : ∃ index, d.arguments = d.rule.memberArguments m index ∧
    (d.rule = .duplicateIndex ∨ d.rule = .indexTooLarge → mark = .value index)

theorem isAboutType_aboutType (rule : Rule) (caller : Location) (t : TypeSite)
    (message : String) : (aboutType rule caller t message).IsAboutType t caller [] := by
  rw [aboutType_eq]
  exact ⟨rfl, rfl, rfl⟩

variable {d : Diagnostic} {t : TypeSite} {caller : Location} {more : List Argument}

theorem IsAboutType.withNote (h : d.IsAboutType t caller more) (note : String) :
    (d.withNote note).IsAboutType t caller more :=
  ⟨h.severity, h.labels, h.arguments⟩

theorem IsAboutType.withArgument (h : d.IsAboutType t caller more) (a : Argument) :
    (d.withArgument a).IsAboutType t caller (more ++ [a]) where
  severity := h.severity
  labels := h.labels
  arguments := by rw [Diagnostic.withArgument, h.arguments, List.cons_append]

variable {rule : Rule} {m : MemberSite} {mark : IndexMark} {index : Int}

/-- A rule for members that mentions no index. -/
theorem isAboutMember_aboutMember (hrule : rule.subject = .member) (hfirst : rule ≠ .duplicateIndex)
    (hsecond : rule ≠ .indexTooLarge) (m : MemberSite) (mark : IndexMark) (message : String) :
    (aboutMember rule m message).IsAboutMember m mark where
  subject := hrule
  severity := rfl
  labels := rfl
  arguments := by
    refine ⟨0, ?_, fun h => absurd h (not_or.mpr ⟨hfirst, hsecond⟩)⟩
    show [Argument.type m.owner, .member m.name] = rule.memberArguments m 0
    cases rule <;> simp_all [Rule.memberArguments]

theorem IsAboutMember.withNote (h : d.IsAboutMember m mark) (note : String) :
    (d.withNote note).IsAboutMember m mark :=
  ⟨h.subject, h.severity, h.labels, h.arguments⟩

theorem isAboutMember_duplicateIndex (h : mark = .value index) :
    (duplicateIndex m index).IsAboutMember m mark :=
  ⟨rfl, rfl, rfl, index, rfl, fun _ => h⟩

theorem isAboutMember_indexTooLarge (h : mark = .value index) :
    (indexTooLarge m index).IsAboutMember m mark :=
  ⟨rfl, rfl, rfl, index, rfl, fun _ => h⟩

end Diagnostic

theorem TypeFault.isAboutType_finding (fault : TypeFault) (caller : Location) (t : TypeSite) :
    (fault.finding caller t).IsAboutType t caller [] := by
  cases fault <;> exact Diagnostic.isAboutType_aboutType _ _ _ _

namespace TypeGraph

/-- What a finding about `root` can be when the root stands for the type `i`. -/
inductive IsFindingAbout (g : TypeGraph) (c : Config) (root i : g.Handle) (d : Diagnostic) : Prop
  /-- The type itself is at fault. -/
  | self (hrule : d.rule.subject = .type)
      (h : d.IsAboutType (g.site i) (g.typeAt root).location [])
  /-- A type that one of its members leads to is at fault. -/
  | reached {m : Member g.Handle} {j : g.Handle} (hrule : d.rule.subject = .type)
      (hi : g.EnumeratesMembers c i)
      (hm : m ∈ g.descended i (g.typeAt i).membersInCheckOrder)
      (hreach : g.Reaches c [i] m.type j) (hname : c.isTerminal (g.typeAt j).name = false)
      (h : d.IsAboutType (g.site j) m.location [])
  /-- One of its members breaks a rule. -/
  | member {m : Member g.Handle} (hi : g.EnumeratesMembers c i) (hm : m ∈ (g.typeAt i).members)
      (hcontract : m.isInContract = true) (h : d.IsAboutMember (g.memberSite i m) m.index)
  /-- The indices of its members leave a gap in the layout. -/
  | gap {index : Int} (hrule : d.rule = .indicesMustBeSequential) (hi : g.EnumeratesMembers c i)
      (hindex : ∃ m ∈ (g.typeAt i).members, m.isInContract = true ∧ m.index = .value index)
      (h : d.IsAboutType (g.site i) (g.typeAt root).location [.index index])
  /-- No constructor takes the members in the order of the layout. -/
  | constructors (hrule : d.rule = .layoutNeedsMatchingConstructor) (hi : g.EnumeratesMembers c i)
      (h : d.IsAboutType (g.site i) (g.typeAt root).location [])

variable {g : TypeGraph} {c : Config} {root i : g.Handle} {d : Diagnostic}

/-- The rules for members find something only at a member in the contract, and it is about that
member. -/
theorem isAboutMember_of_mem_ruleFindings {earlier : List (Member g.Handle)} {m : Member g.Handle}
    (h : d ∈ g.ruleFindings c i earlier m) :
    m.isInContract = true ∧ d.IsAboutMember (g.memberSite i m) m.index := by
  unfold ruleFindings at h
  split at h
  · simp at h
  rename_i hcontract
  refine ⟨by simpa using hcontract, ?_⟩
  split at h
  · rw [List.mem_singleton.mp h]
    exact (Diagnostic.isAboutMember_aboutMember rfl (by decide) (by decide) _ _ _).withNote _
  split at h
  · rw [List.mem_singleton.mp h]
    exact Diagnostic.isAboutMember_aboutMember rfl (by decide) (by decide) _ _ _
  cases hindex : m.index with
  | missing | empty =>
    rw [hindex] at h
    rw [List.mem_singleton.mp h]
    exact Diagnostic.isAboutMember_aboutMember rfl (by decide) (by decide) _ _ _
  | null => simp [hindex] at h
  | value index =>
    simp only [hindex] at h
    split at h
    · rw [List.mem_singleton.mp h]
      exact Diagnostic.isAboutMember_duplicateIndex rfl
    · rcases List.mem_append.mp h with hlarge | haccess
      · split at hlarge
        · rw [List.mem_singleton.mp hlarge]
          exact Diagnostic.isAboutMember_indexTooLarge rfl
        · simp at hlarge
      · split at haccess
        · rw [List.mem_singleton.mp haccess]
          exact Diagnostic.isAboutMember_aboutMember rfl (by decide) (by decide) _ _ _
        · simp at haccess

theorem isFindingAbout_of_mem_memberBlocks (hi : g.EnumeratesMembers c i)
    (h : d ∈ g.memberBlocks c i (g.typeAt i).membersInCheckOrder) :
    g.IsFindingAbout c root i d := by
  obtain ⟨⟨earlier, m⟩, hm, hblock⟩ := List.mem_flatMap.mp h
  obtain ⟨later, horder⟩ := mem_withEarlier_iff.mp hm
  rcases List.mem_append.mp hblock with hrules | hnested
  · obtain ⟨hcontract, habout⟩ := isAboutMember_of_mem_ruleFindings hrules
    have hmem : m ∈ (g.typeAt i).membersInCheckOrder := by simp [horder]
    exact .member hi ((membersInCheckOrder_perm _).mem_iff.mp hmem) hcontract habout
  · split at hnested
    · rename_i hdescends
      obtain ⟨j, fault, hoffends, hd, hreach, -⟩ := mem_nestedFindings_iff.mp hnested
      have hanswers : g.AnswersForItself c j := by
        cases hoffends with
        | unannotated h => exact h
        | noDefaultConstructor h => exact h
      refine .reached ?_ hi (mem_descended_iff.mpr ⟨earlier, later, horder, hdescends⟩) hreach
        hanswers.nonterminal (hd ▸ fault.isAboutType_finding _ _)
      rw [← hd, TypeFault.rule_finding, TypeFault.subject_rule]
    · simp at hnested

/-- The index of a gap has a place in the ledger. -/
theorem layoutFinding?_cases {caller : Location} {ledger : IndexLedger g.Handle}
    (h : g.layoutFinding? caller i ledger = some d) :
    (∃ index ∈ ledger.places.map (·.1),
      d = .indicesMustBeSequential caller (g.site i) index) ∨
    ∃ expected, d = .layoutNeedsMatchingConstructor caller (g.site i) expected := by
  cases hgap : IndexLedger.firstGap (ledger.places.map (·.1)) with
  | some index =>
    obtain ⟨before, after, hsplit, -, -⟩ := (IndexLedger.firstGap_eq_some_iff _ _).mp hgap
    rw [layoutFinding?_of_gap hgap] at h
    exact .inl ⟨index, by simp [hsplit], (Option.some.inj h).symm⟩
  | none =>
    by_cases haccepted : g.AcceptsPlaces i ledger.places
    · rw [layoutFinding?_of_accepted haccepted] at h
      cases h
    · have hrejected := not_or.mp fun hconstructed => haccepted ⟨hgap, hconstructed⟩
      rw [layoutFinding?_of_rejected hgap hrejected.1 fun parameters hmem heq =>
        hrejected.2 ⟨parameters, hmem, heq⟩] at h
      exact .inr ⟨_, (Option.some.inj h).symm⟩

theorem isFindingAbout_of_layoutFinding (hi : g.EnumeratesMembers c i)
    (hclean : g.memberBlocks c i (g.typeAt i).membersInCheckOrder = [])
    (h : g.layoutFinding? (g.typeAt root).location i
      (g.memberPass c i (g.typeAt i).membersInCheckOrder).ledger = some d) :
    g.IsFindingAbout c root i d := by
  rcases layoutFinding?_cases h with ⟨index, hindex, rfl⟩ | ⟨expected, rfl⟩
  · refine .gap (Diagnostic.rule_indicesMustBeSequential _ _ _) hi ?_
      ((Diagnostic.isAboutType_aboutType _ _ _ _).withArgument _)
    -- Every place in the ledger is one that a member asks for.
    have hasked := ((places_of_clean hi.composite hclean).map (·.1)).mem_iff.mp hindex
    obtain ⟨⟨_, j⟩, hplace, rfl⟩ := List.mem_map.mp hasked
    obtain ⟨m, hm, hplaced⟩ := List.mem_filterMap.mp hplace
    obtain ⟨hcontract, hmark, -⟩ := Member.indexedType?_eq_some_iff.mp hplaced
    exact ⟨m, hm, hcontract, hmark⟩
  · exact .constructors (Diagnostic.rule_layoutNeedsMatchingConstructor _ _ _) hi
      ((Diagnostic.isAboutType_aboutType _ _ _ _).withNote _)

/-- Every finding about a root is well formed and shown at the right place. It is about the type
that the root stands for, about a member of that type, or about a type that such a member leads
to, and it names no terminal type. -/
theorem findings_are_about_what_root_stands_for (h : d ∈ g.analyze c root) :
    ∃ i, g.StandsFor c root i ∧ c.isTerminal (g.typeAt i).name = false ∧
      g.IsFindingAbout c root i d := by
  by_cases hstands : ∃ i, g.StandsFor c root i
  · obtain ⟨i, hi⟩ := hstands
    refine ⟨i, hi, hi.nonterminal, ?_⟩
    rcases hi.fault_or_enumerates with ⟨fault, hfault⟩ | henumerates
    · rw [analyze_of_standsFor_fault hi hfault, List.mem_singleton] at h
      refine .self ?_ (h ▸ fault.isAboutType_finding _ _)
      rw [h, TypeFault.rule_finding, TypeFault.subject_rule]
    · rw [analyze_of_standsFor hi henumerates] at h
      rcases List.mem_append.mp h with hmember | hlayout
      · exact isFindingAbout_of_mem_memberBlocks henumerates hmember
      · split at hlayout
        · rename_i hclean
          exact isFindingAbout_of_layoutFinding henumerates hclean.2 (Option.mem_toList.mp hlayout)
        · simp at hlayout
  · rw [analyze_of_not_standsFor (not_exists.mp hstands)] at h
    cases h

/-- Menus list dishes, which are declared elsewhere and not annotated, and have a large index. -/
def menu : GraphDescription where
  types := [
    (TypeDescription.array "Menu[]" "Menu").declaredAt { line := 20 },
    TypeDescription.ofKind .structType "Menu"
      |>.asFormattable
      |>.withMember (((MemberDescription.field "Dishes" "Dish[]").indexed 0).declaredAt
        { line := 3 })
      |>.withMember (((MemberDescription.field "Price" "int").indexed 500).declaredAt
        { line := 4 }),
    .array "Dish[]" "Dish",
    (TypeDescription.ofKind .classType "Dish").declaredAt { line := 9 }]

def menuGraph : TypeGraph := (build menu []).toOption.get (by decide +kernel)

def menus : menuGraph.Handle := (menuGraph.lookup "Menu[]").get (by decide +kernel)

/-- Dishes are blamed at the member that lists them, with their declaration beside it, and the
price for its index. -/
theorem menus_are_blamed_for_dishes_and_price :
    ∃ dish price, menuGraph.analyze {} menus = [dish, price] ∧
      (dish ∈ menuGraph.analyze {} menus ∧ ∃ i, menuGraph.StandsFor {} menus i ∧
        ({} : Config).isTerminal (menuGraph.typeAt i).name = false ∧
        menuGraph.IsFindingAbout {} menus i dish) ∧
      (price ∈ menuGraph.analyze {} menus ∧ ∃ i, menuGraph.StandsFor {} menus i ∧
        ({} : Config).isTerminal (menuGraph.typeAt i).name = false ∧
        menuGraph.IsFindingAbout {} menus i price) ∧
      dish.labels.map (fun l => (l.location.line, l.isPrimary)) = [(3, true), (9, false)] ∧
      dish.arguments = [.type "Dish"] ∧ price.arguments = [.index 500, .member "Price"] := by
  have hfound : menuGraph.analyze {} menus =
      [.typeMustBeAnnotated { line := 3 } ⟨"Dish", { line := 9 }⟩,
        .indexTooLarge ⟨"Menu", "Price", { line := 4 }⟩ 500] := by
    decide +kernel
  refine ⟨_, _, hfound, ⟨?_, ?_⟩, ⟨?_, ?_⟩, by decide, by decide, by decide⟩
  · simp [hfound]
  · exact findings_are_about_what_root_stands_for (by simp [hfound])
  · simp [hfound]
  · exact findings_are_about_what_root_stands_for (by simp [hfound])

end TypeGraph
end LayoutContract
