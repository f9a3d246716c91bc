import LayoutContract.Proofs.MemberBlocks
import LayoutContract.Proofs.ResolvedNames

/-!
The findings about types that the members of a root lead to. A type is reported when it offends
and is reached from a member that is descended into, on a path around the root; then it is
reported once, at the first such member. Names tell the types of a built graph apart, so the
findings about a type are those that carry its name.
-/
namespace LayoutContract.TypeGraph

variable (g : TypeGraph) (c : Config) (owner : g.Handle)

/-- What is reported about a type at the first member that leads to it. -/
def firstFinding? (ms : List (Member g.Handle)) (i : g.Handle) : Option Diagnostic :=
  ((g.descended owner ms).find? fun m => g.Reaches c [owner] m.type i).bind fun m =>
    g.arrivalFinding? c m.location i

variable {g c owner}

theorem find?_leading_eq_none_iff {ms : List (Member g.Handle)} {i : g.Handle} :
    (g.descended owner ms).find? (fun m => g.Reaches c [owner] m.type i) = none ↔
      ∀ m ∈ g.descended owner ms, ¬ g.Reaches c [owner] m.type i := by
  simp [List.find?_eq_none]

section Names

variable (hnames : Function.Injective fun i => (g.typeAt i).name)
include hnames

/-- Among different types, the findings about one type are its own. -/
theorem filter_arrivals (caller : Location) {types : List g.Handle} (h : types.Nodup)
    (i : g.Handle) :
    (types.filterMap (g.arrivalFinding? c caller)).filter
        (·.isTypeFinding (g.typeAt i).name) =
      if i ∈ types then (g.arrivalFinding? c caller i).toList else [] := by
  induction types with
  | nil => simp
  | cons j types ih =>
    obtain ⟨hj, htypes⟩ := List.nodup_cons.mp h
    have harrival : ((g.arrivalFinding? c caller j).toList).filter
        (·.isTypeFinding (g.typeAt i).name) =
          if j = i then (g.arrivalFinding? c caller i).toList else [] := by
      by_cases hji : j = i
      · subst hji
        unfold arrivalFinding?
        cases g.offence? c j <;> simp [TypeFault.isTypeFinding_finding, site]
      · have hname : (g.typeAt j).name ≠ (g.typeAt i).name := fun h => hji (hnames h)
        unfold arrivalFinding?
        cases g.offence? c j <;> simp [TypeFault.isTypeFinding_finding, site, hname, hji]
    have hsplit : (j :: types).filterMap (g.arrivalFinding? c caller) =
        (g.arrivalFinding? c caller j).toList ++
          types.filterMap (g.arrivalFinding? c caller) := by
      rw [List.filterMap_cons]
      cases g.arrivalFinding? c caller j <;> rfl
    rw [hsplit, List.filter_append, harrival, ih htypes]
    by_cases hji : j = i
    · subst hji
      simp [hj]
    · simp [hji, Ne.symm hji]

/-- A type is reported in the block of a member that is descended into and is the first to lead
to the type. -/
theorem filter_memberBlock (earlier : List (Member g.Handle)) (m : Member g.Handle)
    (i : g.Handle) :
    (g.memberBlock c owner earlier m).filter (·.isTypeFinding (g.typeAt i).name) =
      if g.descendsInto owner earlier m ∧ g.Reaches c [owner] m.type i ∧
          ∀ m' ∈ g.descended owner earlier, ¬ g.Reaches c [owner] m'.type i then
        (g.arrivalFinding? c m.location i).toList
      else [] := by
  have hrules : (g.ruleFindings c owner earlier m).filter
      (·.isTypeFinding (g.typeAt i).name) = [] := by
    rw [List.filter_eq_nil_iff]
    intro d hd
    have hsubject := subject_of_mem_ruleFindings hd
    rw [Diagnostic.isTypeFinding_of_subject_ne (by simp [hsubject])]
    exact Bool.false_ne_true
  rw [memberBlock, List.filter_append, hrules, List.nil_append]
  cases hdescends : g.descendsInto owner earlier m with
  | false => simp
  | true =>
    rw [if_pos rfl, nestedFindings, filter_arrivals hnames _ (discovered_nodup _ _)]
    simp [mem_discovered_visitedBy_iff]

/-- What a pass reports about a type comes from the first member that leads to it. -/
theorem filter_memberBlocks (ms : List (Member g.Handle)) (i : g.Handle) :
    (g.memberBlocks c owner ms).filter (·.isTypeFinding (g.typeAt i).name) =
      (g.firstFinding? c owner ms i).toList := by
  unfold firstFinding?
  induction ms using List.reverseRecOn with
  | nil => rfl
  | append_singleton ms m ih =>
    rw [memberBlocks_concat, List.filter_append, ih, filter_memberBlock hnames,
      descended_concat, List.find?_append]
    cases hfind : (g.descended owner ms).find? fun m => g.Reaches c [owner] m.type i with
    | some first =>
      -- An earlier member leads to the type already.
      have hfirst : g.Reaches c [owner] first.type i := by simpa using List.find?_some hfind
      have hmem := List.mem_of_find?_eq_some hfind
      rw [if_neg fun h => h.2.2 first hmem hfirst]
      simp
    | none =>
      have hnone := find?_leading_eq_none_iff.mp hfind
      cases hdescends : g.descendsInto owner ms m with
      | false => simp
      | true =>
        by_cases hreach : g.Reaches c [owner] m.type i
        · rw [if_pos ⟨rfl, hreach, hnone⟩]
          simp [hreach]
        · simp [hreach]

/-- The findings about a type among all findings about a root. -/
theorem filter_analyze {root : g.Handle} (h : g.EnumeratesMembers c root) (i : g.Handle) :
    (g.analyze c root).filter (·.isTypeFinding (g.typeAt i).name) =
      (g.firstFinding? c root (g.typeAt root).membersInCheckOrder i).toList := by
  rw [← filter_memberBlocks hnames, analyze_eq_memberBlocks_append h, List.filter_append,
    List.append_right_eq_self, List.filter_eq_nil_iff]
  intro d hd
  split at hd
  · have hsubject := (subject_of_layoutFinding (Option.mem_toList.mp hd)).1
    rw [Diagnostic.isTypeFinding_of_subject_ne (by simp [hsubject])]
    exact Bool.false_ne_true
  · simp at hd

end Names

section First

variable {ms earlier : List (Member g.Handle)} {m : Member g.Handle} {i : g.Handle}

theorem firstFinding?_eq_some_iff {x : Diagnostic} :
    g.firstFinding? c owner ms i = some x ↔
      ∃ m fault, (g.descended owner ms).find? (fun m => g.Reaches c [owner] m.type i) = some m ∧
        g.Offends c i fault ∧ fault.finding m.location (g.site i) = x := by
  simp [firstFinding?, Option.bind_eq_some_iff, arrivalFinding?_eq_some_iff]

theorem firstFinding?_eq_none_of_unreached
    (h : ∀ m ∈ g.descended owner ms, ¬ g.Reaches c [owner] m.type i) :
    g.firstFinding? c owner ms i = none := by
  rw [firstFinding?, find?_leading_eq_none_iff.mpr h, Option.bind_none]

/-- The first member that leads to a type stays the first one, whatever members follow. -/
theorem firstFinding?_of_first {fault : TypeFault}
    (hdescends : g.descendsInto owner earlier m = true) (hreach : g.Reaches c [owner] m.type i)
    (hfirst : ∀ m' ∈ g.descended owner earlier, ¬ g.Reaches c [owner] m'.type i)
    (hoffends : g.Offends c i fault) (later : List (Member g.Handle)) :
    g.firstFinding? c owner (earlier ++ m :: later) i =
      some (fault.finding m.location (g.site i)) := by
  have hfind : (g.descended owner (earlier ++ [m])).find?
      (fun m => g.Reaches c [owner] m.type i) = some m := by
    rw [descended_concat, hdescends, List.find?_append, find?_leading_eq_none_iff.mpr hfirst]
    simp [hreach]
  rw [List.append_cons]
  exact firstFinding?_eq_some_iff.mpr
    ⟨m, fault, (descended_extends (earlier ++ [m]) later).find?_eq_some hfind, hoffends, rfl⟩

/-- A type has a finding for a fault when some member leads to it and it has that fault. -/
theorem exists_firstFinding?_iff {fault : TypeFault} :
    (∃ x, g.firstFinding? c owner ms i = some x ∧ x.rule = fault.rule) ↔
      g.Offends c i fault ∧ ∃ m ∈ g.descended owner ms, g.Reaches c [owner] m.type i := by
  constructor
  · rintro ⟨x, hx, hrule⟩
    obtain ⟨m, fault', hfind, hoffends, rfl⟩ := firstFinding?_eq_some_iff.mp hx
    rw [TypeFault.rule_finding] at hrule
    refine ⟨TypeFault.rule_injective hrule ▸ hoffends, m, List.mem_of_find?_eq_some hfind, ?_⟩
    simpa using List.find?_some hfind
  · rintro ⟨hoffends, m, hm, hreach⟩
    obtain ⟨first, hfind⟩ : ∃ first, (g.descended owner ms).find?
        (fun m => g.Reaches c [owner] m.type i) = some first := by
      rw [← Option.isSome_iff_exists, List.find?_isSome]
      exact ⟨m, hm, decide_eq_true hreach⟩
    exact ⟨_, firstFinding?_eq_some_iff.mpr ⟨first, fault, hfind, hoffends, rfl⟩,
      TypeFault.rule_finding _ _ _⟩

end First

variable {d : GraphDescription} {implicit : List String}

/-- A type is reported for a fault exactly when it has that fault and is reached, around the root,
from a member that is descended into. There is one such finding, shown at the first such member,
and it comes with the check of that member: before it there is none. -/
theorem type_findings_at_first_member {root : g.Handle} (hg : build d implicit = .ok g)
    (hroot : g.EnumeratesMembers c root) (i : g.Handle) (fault : TypeFault) :
    ((∃ x ∈ g.analyze c root, x.rule = fault.rule ∧ x.arguments = [.type (g.typeAt i).name]) ↔
      g.Offends c i fault ∧
        ∃ m ∈ g.descended root (g.typeAt root).membersInCheckOrder,
          g.Reaches c [root] m.type i) ∧
    (g.Offends c i fault →
      (∃ m ∈ g.descended root (g.typeAt root).membersInCheckOrder,
        g.Reaches c [root] m.type i) →
      ∃ earlier m later x,
        (g.typeAt root).membersInCheckOrder = earlier ++ m :: later ∧
        g.descendsInto root earlier m = true ∧ g.Reaches c [root] m.type i ∧
        (∀ m' ∈ g.descended root earlier, ¬ g.Reaches c [root] m'.type i) ∧
        x.rule = fault.rule ∧ x.arguments = [.type (g.typeAt i).name] ∧
        x.primaryLocation? = some m.location ∧
        (g.analyze c root).filter (·.isTypeFinding (g.typeAt i).name) = [x] ∧
        (g.memberPass c root earlier).context.findings.toList.filter
          (·.isTypeFinding (g.typeAt i).name) = [] ∧
        (g.memberPass c root (earlier ++ [m])).context.findings.toList.filter
          (·.isTypeFinding (g.typeAt i).name) = [x]) := by
  have hnames := name_injective_of_build hg
  have hfilter := filter_analyze hnames hroot i
  constructor
  · rw [← exists_firstFinding?_iff]
    have hmem (x : Diagnostic) :
        g.firstFinding? c root (g.typeAt root).membersInCheckOrder i = some x ↔
          x ∈ g.analyze c root ∧ x.rule.subject = .type ∧
            x.arguments = [.type (g.typeAt i).name] := by
      rw [← Option.mem_toList, ← hfilter, List.mem_filter, Diagnostic.isTypeFinding_iff]
    simp only [hmem]
    constructor
    · rintro ⟨x, hx, hrule, harguments⟩
      exact ⟨x, ⟨hx, by rw [hrule, TypeFault.subject_rule], harguments⟩, hrule⟩
    · rintro ⟨x, ⟨hx, _, harguments⟩, hrule⟩
      exact ⟨x, hx, hrule, harguments⟩
  · intro hoffends hreached
    obtain ⟨earlier, m, later, horder, hdescends, hreach, hfirst⟩ :=
      exists_first_descended hreached
    have hfound := firstFinding?_of_first hdescends hreach hfirst hoffends
    have hpass (ms : List (Member g.Handle)) :
        (g.memberPass c root ms).context.findings.toList.filter
          (·.isTypeFinding (g.typeAt i).name) = (g.firstFinding? c root ms i).toList := by
      rw [(memberPass_passedOver hroot.composite ms).findings, filter_memberBlocks hnames]
    refine ⟨earlier, m, later, fault.finding m.location (g.site i), horder, hdescends, hreach,
      hfirst, TypeFault.rule_finding _ _ _, TypeFault.arguments_finding _ _ _,
      TypeFault.primaryLocation?_finding _ _ _, ?_, ?_, ?_⟩
    · rw [hfilter, horder, hfound later]
      rfl
    · rw [hpass, firstFinding?_eq_none_of_unreached hfirst]
      rfl
    · rw [hpass, hfound []]
      rfl

theorem build_library : build library [] = .ok libraryGraph := rfl

def book : libraryGraph.Handle := (libraryGraph.lookup "Book").get (by decide +kernel)

/-- Both catalogues of the shelf lead to books, and each catalogue leads to itself. The lower one
is a property and comes first, though it is declared last. -/
theorem book_reported_at_lower_catalogue :
    build library [] = .ok libraryGraph ∧ libraryGraph.EnumeratesMembers {} shelf ∧
      libraryGraph.Offends {} book .unannotated ∧
      (∃ m ∈ libraryGraph.descended shelf (libraryGraph.typeAt shelf).membersInCheckOrder,
        libraryGraph.Reaches {} [shelf] m.type book) ∧
      ∃ x, x.rule = .typeMustBeAnnotated ∧
        x.arguments = [.type (libraryGraph.typeAt book).name] ∧
        x.primaryLocation? = some { line := 4 } ∧
        (libraryGraph.analyze {} shelf).filter
          (·.isTypeFinding (libraryGraph.typeAt book).name) = [x] := by
  obtain ⟨hreported, hfirst⟩ :=
    type_findings_at_first_member build_library enumeratesMembers_shelf book .unannotated
  obtain ⟨hoffends, hreached⟩ := hreported.mp (by decide +kernel)
  obtain ⟨_, _, _, x, -, -, -, -, hrule, harguments, -, hfilter, -, -⟩ :=
    hfirst hoffends hreached
  have hlocation : ((libraryGraph.analyze {} shelf).filter
      (·.isTypeFinding (libraryGraph.typeAt book).name)).map (·.primaryLocation?) =
        [some { line := 4 }] := by
    decide +kernel
  rw [hfilter] at hlocation
  exact ⟨build_library, enumeratesMembers_shelf, hoffends, hreached, x, hrule, harguments,
    List.singleton_inj.mp hlocation, hfilter⟩

end LayoutContract.TypeGraph
