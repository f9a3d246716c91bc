import LayoutContract.Proofs.MemberOrder

/-!
Checks in which more names are allowed. To allow a name takes types out of the walk, so less is
reached and fewer types offend, while the rules for members judge as before. What can be new is a
finding about the layout: it comes out when the findings about types were all that kept the layout
from being judged.
-/
namespace LayoutContract

/-- The same settings, except that more names may be allowed. -/
structure Config.AllowsMore (c c' : Config) : Prop where
  threshold : c'.warningThreshold = c.warningThreshold
  allowed : ∀ name ∈ c.allowed, name ∈ c'.allowed

theorem Config.allowsMore_allowing (c : Config) (names : List String) :
    c.AllowsMore (c.allowing names) :=
  ⟨rfl, fun _ hname => NameSet.mem_insertAll.mpr (.inr hname)⟩

theorem Config.AllowsMore.isTerminal {c c' : Config} (h : c.AllowsMore c') {name : String}
    (hname : c.isTerminal name = true) : c'.isTerminal name = true := by
  simp only [Config.isTerminal, Bool.or_eq_true, decide_eq_true_eq] at hname ⊢
  exact hname.imp id (h.allowed name)

theorem Config.AllowsMore.not_isTerminal {c c' : Config} (h : c.AllowsMore c') {name : String}
    (hname : c'.isTerminal name = false) : c.isTerminal name = false := by
  cases hterminal : c.isTerminal name with
  | false => rfl
  | true => rw [h.isTerminal hterminal] at hname; exact hname

/-- What is found after a change, compared with what was found before: the same about members, no
new fault of a type, and about the layout only what was found before or stands in for a fault of a
type that is no longer found. -/
structure AddsOnlyLayouts (found found' : List Diagnostic) : Prop where
  members : found'.filter (·.rule.subject = .member) = found.filter (·.rule.subject = .member)
  types : ∀ x ∈ found', x.rule.subject = .type →
    ∃ y ∈ found, y.rule = x.rule ∧ y.arguments = x.arguments
  layout : ∀ x ∈ found', x.rule.subject = .layout →
    x ∈ found ∨ ∃ y ∈ found, y.rule.subject = .type ∧
      ∀ z ∈ found', ¬ (z.rule = y.rule ∧ z.arguments = y.arguments)
  clean : found = [] → found' = []

theorem AddsOnlyLayouts.refl (found : List Diagnostic) : AddsOnlyLayouts found found :=
  ⟨rfl, fun x hx _ => ⟨x, hx, rfl, rfl⟩, fun _ hx _ => .inl hx, id⟩

namespace TypeGraph

variable {g : TypeGraph} {c c' : Config} {owner : g.Handle} {ms : List (Member g.Handle)}

/-- Findings about the layout follow from the entries of a ledger. -/
theorem layoutFinding?_congr {ledger ledger' : IndexLedger g.Handle}
    (h : ledger'.entries = ledger.entries) (caller : Location) (i : g.Handle) :
    g.layoutFinding? caller i ledger' = g.layoutFinding? caller i ledger := by
  have hplaces : ledger'.places = ledger.places := by
    simp only [IndexLedger.places, IndexLedger.sorted, h]
  unfold layoutFinding? layoutVerdict
  rw [IndexLedger.verdict_congr _ _ hplaces]

/-- A pass leaves the same entries whatever names are allowed. -/
theorem entries_memberPass_congr (c c' : Config)
    (hkind : (g.typeAt owner).form.kind.isComposite = true) (ms : List (Member g.Handle)) :
    (g.memberPass c' owner ms).ledger.entries = (g.memberPass c owner ms).ledger.entries := by
  rw [(memberPass_passedOver hkind ms).entries, (memberPass_passedOver hkind ms).entries]

/-- The layout is judged alike when the members are clean under both settings or under neither. -/
theorem layoutFindings_congr (hkind : (g.typeAt owner).form.kind.isComposite = true)
    (h : g.memberBlocks c' owner ms = [] ↔ g.memberBlocks c owner ms = []) :
    g.layoutFindings c' owner ms = g.layoutFindings c owner ms := by
  unfold layoutFindings
  rw [layoutFinding?_congr (entries_memberPass_congr c c' hkind ms)]
  simp only [h]

theorem memberBlocks_eq_nil_of_mem_layoutFindings {x : Diagnostic}
    (h : x ∈ g.layoutFindings c owner ms) : g.memberBlocks c owner ms = [] := by
  unfold layoutFindings at h
  split at h
  · rename_i hclean
    exact hclean.2
  · simp at h

theorem analyze_eq_append_layoutFindings {root : g.Handle} (h : g.EnumeratesMembers c root) :
    g.analyze c root =
      g.memberBlocks c root (g.typeAt root).membersInCheckOrder ++
        g.layoutFindings c root (g.typeAt root).membersInCheckOrder :=
  analyze_eq_memberBlocks_append h

section AllowsMore

variable (h : c.AllowsMore c')
include h

theorem Unwraps.of_allowsMore {i j : g.Handle} (hij : g.Unwraps c' i j) : g.Unwraps c i j := by
  cases hij with
  | element hname hform => exact .element (h.not_isTerminal hname) hform
  | argument hname hkind hgeneric hshape hmem =>
    exact .argument (h.not_isTerminal hname) hkind hgeneric hshape hmem

theorem Reaches.of_allowsMore {avoided : List g.Handle} {i j : g.Handle}
    (hij : g.Reaches c' avoided i j) : g.Reaches c avoided i j := by
  induction hij with
  | refl hi => exact .refl hi
  | tail _ hstep hk ih => exact .tail ih (hstep.of_allowsMore h) hk

theorem AnswersForItself.of_allowsMore {i : g.Handle} (hi : g.AnswersForItself c' i) :
    g.AnswersForItself c i :=
  ⟨h.not_isTerminal hi.nonterminal, hi.composite, hi.noWrapper⟩

theorem Offends.of_allowsMore {i : g.Handle} {fault : TypeFault} (hi : g.Offends c' i fault) :
    g.Offends c i fault := by
  cases hi with
  | unannotated hself hannotated => exact .unannotated (hself.of_allowsMore h) hannotated
  | noDefaultConstructor hself hannotated hform hconstructors =>
    exact .noDefaultConstructor (hself.of_allowsMore h) hannotated hform hconstructors

theorem ruleFindings_of_allowsMore (earlier : List (Member g.Handle)) (m : Member g.Handle) :
    g.ruleFindings c' owner earlier m = g.ruleFindings c owner earlier m := by
  unfold ruleFindings
  rw [h.threshold]

theorem member_findings_of_allowsMore (ms : List (Member g.Handle)) :
    (g.memberBlocks c' owner ms).filter (·.rule.subject = .member) =
      (g.memberBlocks c owner ms).filter (·.rule.subject = .member) := by
  simp only [memberBlocks, List.filter_flatMap, filter_subject_memberBlock,
    ruleFindings_of_allowsMore h]

/-- A fault that is still found was found before, perhaps at another member. -/
theorem type_finding_of_allowsMore {x : Diagnostic} (hx : x ∈ g.memberBlocks c' owner ms)
    (hsubject : x.rule.subject = .type) :
    ∃ y ∈ g.memberBlocks c owner ms, y.rule = x.rule ∧ y.arguments = x.arguments := by
  obtain ⟨m, hm, i, fault, hoffends, hreach, rfl⟩ := reached_of_type_finding hx hsubject
  obtain ⟨caller, hcaller⟩ :=
    exists_finding_of_reached hm (hreach.of_allowsMore h) (hoffends.of_allowsMore h)
  exact ⟨_, hcaller, by simp, by simp⟩

theorem memberBlocks_eq_nil_of_allowsMore (hclean : g.memberBlocks c owner ms = []) :
    g.memberBlocks c' owner ms = [] := by
  rw [memberBlocks_eq_nil_iff_filter, member_findings_of_allowsMore h, hclean]
  refine ⟨rfl, List.filter_eq_nil_iff.mpr fun x hx hsubject => ?_⟩
  obtain ⟨y, hy, _⟩ := type_finding_of_allowsMore h hx (of_decide_eq_true hsubject)
  simp [hclean] at hy

/-- When the members become clean only by what is allowed, some fault of a type is gone. -/
theorem exists_type_finding_of_allowsMore (hclean' : g.memberBlocks c' owner ms = [])
    (hclean : g.memberBlocks c owner ms ≠ []) :
    ∃ y ∈ g.memberBlocks c owner ms, y.rule.subject = .type := by
  by_contra hnone
  apply hclean
  rw [memberBlocks_eq_nil_iff_filter, ← member_findings_of_allowsMore h, hclean']
  refine ⟨rfl, List.filter_eq_nil_iff.mpr fun y hy hsubject => ?_⟩
  exact hnone ⟨y, hy, of_decide_eq_true hsubject⟩

theorem addsOnlyLayouts_of_enumerates {root : g.Handle} (hroot : g.EnumeratesMembers c root)
    (hroot' : g.EnumeratesMembers c' root) :
    AddsOnlyLayouts (g.analyze c root) (g.analyze c' root) := by
  have hanalyze := analyze_eq_append_layoutFindings hroot
  have hanalyze' := analyze_eq_append_layoutFindings hroot'
  generalize (g.typeAt root).membersInCheckOrder = ms at hanalyze hanalyze'
  have hlayout (hclean : g.memberBlocks c root ms = []) :
      g.layoutFindings c' root ms = g.layoutFindings c root ms :=
    layoutFindings_congr hroot.composite
      ⟨fun _ => hclean, fun _ => memberBlocks_eq_nil_of_allowsMore h hclean⟩
  rw [hanalyze, hanalyze']
  refine ⟨?_, ?_, ?_, ?_⟩
  · rw [List.filter_append, List.filter_append, member_findings_of_allowsMore h,
      filter_subject_layoutFindings (by simp), filter_subject_layoutFindings (by simp)]
  · intro x hx hsubject
    rcases List.mem_append.mp hx with hx | hx
    · obtain ⟨y, hy, hsame⟩ := type_finding_of_allowsMore h hx hsubject
      exact ⟨y, List.mem_append_left _ hy, hsame⟩
    · simp [subject_of_mem_layoutFindings hx] at hsubject
  · intro x hx hsubject
    -- A finding about the layout is there because nothing is found at the members.
    have hx : x ∈ g.layoutFindings c' root ms :=
      (List.mem_append.mp hx).resolve_left fun hx => not_layout_of_mem_memberBlocks hx hsubject
    have hclean' := memberBlocks_eq_nil_of_mem_layoutFindings hx
    by_cases hclean : g.memberBlocks c root ms = []
    · exact .inl (List.mem_append_right _ (hlayout hclean ▸ hx))
    · obtain ⟨y, hy, htype⟩ := exists_type_finding_of_allowsMore h hclean' hclean
      refine .inr ⟨y, List.mem_append_left _ hy, htype, fun z hz hsame => ?_⟩
      rw [hclean', List.nil_append] at hz
      simp [← hsame.1, subject_of_mem_layoutFindings hz] at htype
  · intro hnone
    obtain ⟨hclean, hnone⟩ := List.append_eq_nil_iff.mp hnone
    rw [memberBlocks_eq_nil_of_allowsMore h hclean, hlayout hclean, hnone]
    rfl

end AllowsMore

/-- To allow more names brings no complaint that was not there before, except one about the layout
of a struct, which takes the place of a complaint about a type. A root whose own name is allowed
has no findings at all. -/
theorem allowing_more_names_adds_only_layouts (h : c.AllowsMore c') {root : g.Handle}
    (hkind : (g.typeAt root).form.kind.isComposite = true) :
    (c'.isTerminal (g.typeAt root).name = true → g.analyze c' root = []) ∧
      (c'.isTerminal (g.typeAt root).name = false →
        AddsOnlyLayouts (g.analyze c root) (g.analyze c' root)) := by
  refine ⟨analyze_of_terminal, fun hname' => ?_⟩
  rcases root_cases (c := c) hkind with hterminal | ⟨hname, fault, hfault⟩ | henumerates
  · simp [h.isTerminal hterminal] at hname'
  · rw [analyze_of_fault hname hkind hfault, analyze_of_fault hname' hkind hfault]
    exact .refl _
  · exact addsOnlyLayouts_of_enumerates h henumerates
      ⟨hname', hkind, henumerates.annotated, henumerates.constructible⟩

/-- Once books are allowed, nothing is left to find at the members of a shelf, and it shows that
no constructor takes them. -/
theorem shelf_lacks_constructor_once_books_are_allowed :
    ({} : Config).AllowsMore (.allowing {} ["Book"]) ∧
      (libraryGraph.typeAt shelf).form.kind.isComposite = true ∧
      (Config.allowing {} ["Book"]).isTerminal (libraryGraph.typeAt shelf).name = false ∧
      (libraryGraph.analyze {} shelf).map (·.rule) = [.typeMustBeAnnotated] ∧
      (libraryGraph.analyze (.allowing {} ["Book"]) shelf).map (·.rule) =
        [.layoutNeedsMatchingConstructor] ∧
      AddsOnlyLayouts (libraryGraph.analyze {} shelf)
        (libraryGraph.analyze (.allowing {} ["Book"]) shelf) := by
  have hmore : ({} : Config).AllowsMore (.allowing {} ["Book"]) :=
    Config.allowsMore_allowing {} ["Book"]
  have hkind : (libraryGraph.typeAt shelf).form.kind.isComposite = true := by decide +kernel
  have hname :
      (Config.allowing {} ["Book"]).isTerminal (libraryGraph.typeAt shelf).name = false := by
    decide +kernel
  exact ⟨hmore, hkind, hname, by decide +kernel, by decide +kernel,
    (allowing_more_names_adds_only_layouts hmore hkind).2 hname⟩

end TypeGraph
end LayoutContract
