import LayoutContract.Proofs.Discovery
import LayoutContract.Proofs.FindingFields
import LayoutContract.Proofs.IndexClaims
import LayoutContract.Proofs.LedgerOrder
import LayoutContract.Proofs.RootOutcome
import LayoutContract.TypeGraph.Build

/-!
The findings about the members of a root, member by member. What is found at one member follows
from the member and from those before it, so the pass over the members, with its visited types
and its ledger, comes to the same as joining these blocks.
-/
namespace LayoutContract

/-- Reports a list of findings in its order. -/
def Context.reportAll {ι : Type} (context : Context ι) (ds : List Diagnostic) : Context ι :=
  { context with findings := context.findings.extend ds }

namespace TypeGraph

variable (g : TypeGraph) (c : Config) (owner : g.Handle)

/-- The types that are visited once the given members of `owner` have been checked. -/
def visitedBy (ms : List (Member g.Handle)) : List g.Handle :=
  (g.discovered c [owner] ((g.descended owner ms).map (·.type))).reverse ++ [owner]

/-- What is reported about the types that a member leads to first. -/
def nestedFindings (earlier : List (Member g.Handle)) (m : Member g.Handle) : List Diagnostic :=
  (g.discovered c (g.visitedBy c owner earlier) [m.type]).filterMap
    (g.arrivalFinding? c m.location)

/-- What the rules for members find at a member. Only a large index is no reason to stop. -/
def ruleFindings (earlier : List (Member g.Handle)) (m : Member g.Handle) : List Diagnostic :=
  if m.isInContract = false then []
  else if (g.typeAt owner).form ≠ .structType ∧ m.form = .field then
    [.fieldNotAllowedOnReferenceType (g.memberSite owner m)]
  else if (g.typeAt owner).form ≠ .structType ∧ m.overridable = false then
    [.memberMustBeOverridable (g.memberSite owner m)]
  else
    match m.index with
    | .missing | .empty => [.memberNeedsIndex (g.memberSite owner m)]
    | .null => []
    | .value index =>
      if index ∈ g.claims owner earlier then [.duplicateIndex (g.memberSite owner m) index]
      else
        (if c.warningThreshold ≤ index then [.indexTooLarge (g.memberSite owner m) index]
          else []) ++
        (if (g.typeAt owner).form ≠ .structType ∧ m.form.isReadableAndWritable = false then
          [.memberNeedsPublicAccessors (g.memberSite owner m)]
          else [])

/-- All that is reported at a member: the first rule that it breaks, or the offenders behind it. -/
def memberBlock (earlier : List (Member g.Handle)) (m : Member g.Handle) : List Diagnostic :=
  g.ruleFindings c owner earlier m ++
    if g.descendsInto owner earlier m then g.nestedFindings c owner earlier m else []

def memberBlocks (ms : List (Member g.Handle)) : List Diagnostic :=
  (withEarlier ms).flatMap fun x => g.memberBlock c owner x.1 x.2

/-- What a pass knows after the members in `ms`. -/
structure PassedOver (ms : List (Member g.Handle)) (p : MemberPass g.Handle) : Prop where
  visited : p.context.visited = g.visitedBy c owner ms
  findings : p.context.findings.toList = g.memberBlocks c owner ms
  claimed : ∀ index, index ∈ p.ledger.claimed ↔ index ∈ g.claims owner ms
  entries : p.ledger.entries = g.acceptedEntries owner ms

variable {g c owner} {ms earlier : List (Member g.Handle)} {m : Member g.Handle} {index : Int}

theorem memberBlocks_concat (ms : List (Member g.Handle)) (m : Member g.Handle) :
    g.memberBlocks c owner (ms ++ [m]) =
      g.memberBlocks c owner ms ++ g.memberBlock c owner ms m := by
  simp [memberBlocks, withEarlier_concat]

theorem visitedBy_concat_of_descends (h : g.descendsInto owner ms m = true) :
    g.visitedBy c owner (ms ++ [m]) =
      (g.discovered c (g.visitedBy c owner ms) [m.type]).reverse ++ g.visitedBy c owner ms := by
  simp [visitedBy, descended_concat, h, discovered_append]

theorem visitedBy_concat_of_not_descends (h : g.descendsInto owner ms m = false) :
    g.visitedBy c owner (ms ++ [m]) = g.visitedBy c owner ms := by
  simp [visitedBy, descended_concat, h]

section Step

variable (hkind : (g.typeAt owner).form.kind.isComposite = true)
include hkind

/-- A member that claims nothing is judged by itself alone. -/
theorem checkMember_of_unclaimed (earlier : List (Member g.Handle))
    (h : g.claim? owner m = none) (p : MemberPass g.Handle) :
    g.checkMember c owner p m =
      { p with context := p.context.reportAll (g.ruleFindings c owner earlier m) } := by
  unfold checkMember ruleFindings formFinding?
  unfold claim? at h
  rw [isValue_eq_decide_struct hkind]
  cases hcontract : m.isInContract with
  | false => rfl
  | true =>
    by_cases hstruct : (g.typeAt owner).form = .structType
    · cases hindex : m.index <;> simp_all [IndexMark.value?] <;> rfl
    · cases hform : m.form with
      | field => simp_all; rfl
      | property getter setter =>
        cases hvirtual : m.overridable with
        | false => simp_all; rfl
        | true =>
          cases hindex : m.index <;> simp_all [IndexMark.value?, MemberForm.isProperty] <;> rfl

theorem checkMember_of_claim (h : g.claim? owner m = some index) (p : MemberPass g.Handle) :
    g.checkMember c owner p m = g.checkIndexed c owner m index p := by
  obtain ⟨hcontract, hform, hindex⟩ := claim?_eq_some_iff.mp h
  unfold checkMember formFinding?
  rw [isValue_eq_decide_struct hkind]
  by_cases hstruct : (g.typeAt owner).form = .structType
  · simp [hcontract, hstruct, hindex]
  · cases hkindOf : m.form <;> simp_all [MemberForm.isProperty]

theorem ruleFindings_of_claim (h : g.claim? owner m = some index) :
    g.ruleFindings c owner earlier m =
      if index ∈ g.claims owner earlier then [.duplicateIndex (g.memberSite owner m) index]
      else
        (g.thresholdFinding? c owner m index).toList ++ (g.accessFinding? owner m).toList := by
  obtain ⟨hcontract, hform, hindex⟩ := claim?_eq_some_iff.mp h
  have hfield : ¬ ((g.typeAt owner).form ≠ .structType ∧ m.form = .field) := by
    rintro ⟨hstruct, hfield⟩
    simp [hstruct, hfield, MemberForm.isProperty] at hform
  have hvirtual : ¬ ((g.typeAt owner).form ≠ .structType ∧ m.overridable = false) := by
    rintro ⟨hstruct, hvirtual⟩
    simp [hstruct, hvirtual] at hform
  rw [ruleFindings, if_neg (by simp [hcontract]), if_neg hfield, if_neg hvirtual, hindex]
  unfold thresholdFinding? accessFinding?
  rw [isValue_eq_decide_struct hkind]
  by_cases hstruct : (g.typeAt owner).form = .structType <;>
    cases haccess : m.form.isReadableAndWritable <;>
    by_cases hlarge : c.warningThreshold ≤ index <;> simp [hstruct, hlarge]

theorem descendsInto_of_claim (h : g.claim? owner m = some index)
    (hfree : index ∉ g.claims owner earlier) :
    g.descendsInto owner earlier m = (g.accessFinding? owner m).isNone := by
  rw [Bool.eq_iff_iff, descendsInto_iff]
  unfold accessFinding?
  rw [isValue_eq_decide_struct hkind]
  by_cases hstruct : (g.typeAt owner).form = .structType <;>
    cases haccess : m.form.isReadableAndWritable <;> simp [h, hfree, hstruct]

omit hkind in
theorem checkClaimed_of_access {d : Diagnostic} (h : g.accessFinding? owner m = some d)
    (context : Context g.Handle) :
    (g.checkClaimed c owner m index context).visited = context.visited ∧
      (g.checkClaimed c owner m index context).findings.toList =
        context.findings.toList ++ ((g.thresholdFinding? c owner m index).toList ++ [d]) := by
  unfold checkClaimed
  cases g.thresholdFinding? c owner m index <;> simp [h, Context.report]

omit hkind in
theorem checkClaimed_of_no_access (h : g.accessFinding? owner m = none)
    (context : Context g.Handle) :
    (g.checkClaimed c owner m index context).visited =
        (g.discovered c context.visited [m.type]).reverse ++ context.visited ∧
      (g.checkClaimed c owner m index context).findings.toList =
        context.findings.toList ++ ((g.thresholdFinding? c owner m index).toList ++
          (g.discovered c context.visited [m.type]).filterMap
            (g.arrivalFinding? c m.location)) := by
  unfold checkClaimed
  cases g.thresholdFinding? c owner m index <;>
    simp [h, Context.report, walk_visited, walk_findings]

theorem passedOver_of_unclaimed {p : MemberPass g.Handle} (hp : g.PassedOver c owner ms p)
    (hclaim : g.claim? owner m = none) :
    g.PassedOver c owner (ms ++ [m]) (g.checkMember c owner p m) := by
  have hdescends : g.descendsInto owner ms m = false := by simp [descendsInto, hclaim]
  rw [checkMember_of_unclaimed hkind ms hclaim p]
  refine ⟨?_, ?_, ?_, ?_⟩
  · rw [visitedBy_concat_of_not_descends hdescends]
    exact hp.visited
  · simp [Context.reportAll, memberBlocks_concat, memberBlock, hdescends, hp.findings]
  · simp [claims_concat, hclaim, hp.claimed]
  · simp [acceptedEntries_concat, entryLeft?, hclaim, hp.entries]

/-- A claim that is refused adds the finding about it and nothing else. -/
theorem passedOver_of_refused {p : MemberPass g.Handle} (hp : g.PassedOver c owner ms p)
    (hclaim : g.claim? owner m = some index) (hclaimed : index ∈ g.claims owner ms) :
    g.PassedOver c owner (ms ++ [m]) (g.checkMember c owner p m) := by
  have hdescends : g.descendsInto owner ms m = false := by
    simp [descendsInto, hclaim, hclaimed]
  have hrecord := IndexLedger.record_of_claimed (e := ⟨index, owner, m.type⟩)
    ((hp.claimed index).mpr hclaimed)
  rw [checkMember_of_claim hkind hclaim p, checkIndexed, hrecord]
  refine ⟨?_, ?_, ?_, ?_⟩
  · rw [visitedBy_concat_of_not_descends hdescends]
    exact hp.visited
  · simp [MemberPass.report, Context.report, memberBlocks_concat, memberBlock, hdescends,
      ruleFindings_of_claim hkind hclaim, hclaimed, hp.findings]
  · intro i
    have hi : i = index → i ∈ g.claims owner ms := fun h => h ▸ hclaimed
    simp only [MemberPass.report, claims_concat, hclaim, hp.claimed, Option.toList_some,
      List.mem_append, List.mem_singleton]
    exact ⟨.inl, fun h => h.elim id hi⟩
  · simp [MemberPass.report, acceptedEntries_concat, entryLeft?, hclaim, hclaimed,
      hp.entries]

/-- Behind an accepted claim the accessors decide between a finding and a walk. -/
theorem checkClaimed_passedOver {p : MemberPass g.Handle} (hp : g.PassedOver c owner ms p)
    (hclaim : g.claim? owner m = some index) (hfree : index ∉ g.claims owner ms) :
    (g.checkClaimed c owner m index p.context).visited = g.visitedBy c owner (ms ++ [m]) ∧
      (g.checkClaimed c owner m index p.context).findings.toList =
        g.memberBlocks c owner (ms ++ [m]) := by
  have hdescends := descendsInto_of_claim hkind hclaim hfree
  rw [memberBlocks_concat, memberBlock, ruleFindings_of_claim hkind hclaim, if_neg hfree]
  cases haccess : g.accessFinding? owner m with
  | some d =>
    obtain ⟨hvisited, hfindings⟩ := checkClaimed_of_access haccess p.context
    rw [haccess, Option.isNone_some] at hdescends
    rw [hvisited, hfindings, hp.visited, hp.findings, visitedBy_concat_of_not_descends hdescends,
      hdescends]
    simp
  | none =>
    obtain ⟨hvisited, hfindings⟩ := checkClaimed_of_no_access haccess p.context
    rw [haccess, Option.isNone_none] at hdescends
    rw [hvisited, hfindings, hp.visited, hp.findings, visitedBy_concat_of_descends hdescends,
      hdescends]
    simp [nestedFindings]

theorem passedOver_of_accepted {p : MemberPass g.Handle} (hp : g.PassedOver c owner ms p)
    (hclaim : g.claim? owner m = some index) (hfree : index ∉ g.claims owner ms) :
    g.PassedOver c owner (ms ++ [m]) (g.checkMember c owner p m) := by
  obtain ⟨hvisited, hfindings⟩ := checkClaimed_passedOver hkind hp hclaim hfree
  have hrecord := IndexLedger.record_of_free (e := ⟨index, owner, m.type⟩)
    (fun h => hfree ((hp.claimed index).mp h))
  rw [checkMember_of_claim hkind hclaim p, checkIndexed, hrecord]
  refine ⟨hvisited, hfindings, ?_, ?_⟩
  · intro i
    simp only [claims_concat, hclaim, Option.toList_some, List.mem_append, List.mem_cons,
      List.not_mem_nil, or_false, hp.claimed]
    exact or_comm
  · simp [acceptedEntries_concat, entryLeft?, hclaim, hfree, hp.entries]

/-- One more member extends what a pass knows by what follows from that member. -/
theorem checkMember_passedOver {p : MemberPass g.Handle} (hp : g.PassedOver c owner ms p)
    (m : Member g.Handle) : g.PassedOver c owner (ms ++ [m]) (g.checkMember c owner p m) := by
  cases hclaim : g.claim? owner m with
  | none => exact passedOver_of_unclaimed hkind hp hclaim
  | some index =>
    by_cases hclaimed : index ∈ g.claims owner ms
    · exact passedOver_of_refused hkind hp hclaim hclaimed
    · exact passedOver_of_accepted hkind hp hclaim hclaimed

/-- The pass over any members, in one formula for each thing it knows. -/
theorem memberPass_passedOver (ms : List (Member g.Handle)) :
    g.PassedOver c owner ms (g.memberPass c owner ms) := by
  induction ms using List.reverseRecOn with
  | nil => exact ⟨by simp [memberPass, visitedBy, descended], rfl, fun _ => by rfl, rfl⟩
  | append_singleton ms m ih =>
    rw [memberPass_concat]
    exact checkMember_passedOver hkind ih m

end Step

theorem subject_of_mem_ruleFindings {d : Diagnostic}
    (h : d ∈ g.ruleFindings c owner earlier m) : d.rule.subject = .member := by
  unfold ruleFindings at h
  split at h
  · simp at h
  split at h
  · rw [List.mem_singleton.mp h]
    rfl
  split at h
  · rw [List.mem_singleton.mp h]
    rfl
  cases hindex : m.index with
  | missing | empty =>
    simp only [hindex, List.mem_singleton] at h
    rw [h]
    rfl
  | null => simp [hindex] at h
  | value index =>
    simp only [hindex] at h
    split at h
    · rw [List.mem_singleton.mp h]
      rfl
    · rcases List.mem_append.mp h with h | h
      · split at h
        · rw [List.mem_singleton.mp h]
          rfl
        · simp at h
      · split at h
        · rw [List.mem_singleton.mp h]
          rfl
        · simp at h

/-- No rule finds anything at a member that stays out of the layout, and otherwise nothing at one
whose form, index and accessors all pass. -/
theorem ruleFindings_eq_nil_iff :
    g.ruleFindings c owner earlier m = [] ↔
      (m.isInContract = true →
        ((g.typeAt owner).form = .structType ∨
          m.form.isProperty = true ∧ m.overridable = true) ∧
          (m.index = .null ∨
            ∃ index, m.index = .value index ∧ index ∉ g.claims owner earlier ∧
              index < c.warningThreshold ∧
                ((g.typeAt owner).form = .structType ∨ m.form.isReadableAndWritable = true))) := by
  unfold ruleFindings
  cases hcontract : m.isInContract with
  | false => simp
  | true =>
    by_cases hstruct : (g.typeAt owner).form = .structType
    · cases hindex : m.index with
      | value index =>
        by_cases hclaimed : index ∈ g.claims owner earlier <;> simp [hstruct, hclaimed]
      | _ => simp [hstruct]
    · cases hform : m.form with
      | field => simp [hstruct, MemberForm.isProperty]
      | property getter setter =>
        cases hvirtual : m.overridable with
        | false => simp [hstruct]
        | true =>
          cases hindex : m.index with
          | value index =>
            by_cases hclaimed : index ∈ g.claims owner earlier <;>
              simp [hstruct, hclaimed, MemberForm.isProperty]
          | _ => simp [hstruct, MemberForm.isProperty]

/-- A member leads first to what its type reaches and no type of a member before it does. -/
theorem mem_discovered_visitedBy_iff {i : g.Handle} :
    i ∈ g.discovered c (g.visitedBy c owner earlier) [m.type] ↔
      g.Reaches c [owner] m.type i ∧
        ∀ m' ∈ g.descended owner earlier, ¬ g.Reaches c [owner] m'.type i := by
  rw [visitedBy, mem_discovered_after_iff]
  simp

theorem arrivalFinding?_eq_some_iff {caller : Location} {i : g.Handle} {d : Diagnostic} :
    g.arrivalFinding? c caller i = some d ↔
      ∃ fault, g.Offends c i fault ∧ fault.finding caller (g.site i) = d := by
  simp [arrivalFinding?, offence?_eq_some_iff]

theorem mem_nestedFindings_iff {d : Diagnostic} :
    d ∈ g.nestedFindings c owner earlier m ↔
      ∃ i fault, g.Offends c i fault ∧ fault.finding m.location (g.site i) = d ∧
        g.Reaches c [owner] m.type i ∧
          ∀ m' ∈ g.descended owner earlier, ¬ g.Reaches c [owner] m'.type i := by
  simp only [nestedFindings, List.mem_filterMap, mem_discovered_visitedBy_iff,
    arrivalFinding?_eq_some_iff]
  constructor
  · rintro ⟨i, hreach, fault, hoffends, hd⟩
    exact ⟨i, fault, hoffends, hd, hreach⟩
  · rintro ⟨i, fault, hoffends, hd, hreach⟩
    exact ⟨i, hreach, fault, hoffends, hd⟩

/-- A type that offends is found at the first member that leads to it. -/
theorem exists_finding_of_reached (hm : m ∈ g.descended owner ms) {i : g.Handle}
    (hreach : g.Reaches c [owner] m.type i) {fault : TypeFault} (hoffends : g.Offends c i fault) :
    ∃ caller, fault.finding caller (g.site i) ∈ g.memberBlocks c owner ms := by
  obtain ⟨earlier, first, later, hms, hdescends, hfirst, hnone⟩ :=
    exists_first_descended (P := fun m => g.Reaches c [owner] m.type i) ⟨m, hm, hreach⟩
  refine ⟨first.location, List.mem_flatMap.mpr ⟨(earlier, first), ?_, ?_⟩⟩
  · exact mem_withEarlier_iff.mpr ⟨later, hms⟩
  · refine List.mem_append_right _ ?_
    rw [if_pos hdescends]
    exact mem_nestedFindings_iff.mpr ⟨i, fault, hoffends, rfl, hfirst, hnone⟩

/-- What is found about types are faults of types that some member leads to. -/
theorem reached_of_type_finding {x : Diagnostic} (hx : x ∈ g.memberBlocks c owner ms)
    (hsubject : x.rule.subject = .type) :
    ∃ m ∈ g.descended owner ms, ∃ i fault, g.Offends c i fault ∧
      g.Reaches c [owner] m.type i ∧ fault.finding m.location (g.site i) = x := by
  obtain ⟨⟨earlier, m⟩, hm, hblock⟩ := List.mem_flatMap.mp hx
  obtain ⟨later, hms⟩ := mem_withEarlier_iff.mp hm
  rcases List.mem_append.mp hblock with hrules | hnested
  · simp [subject_of_mem_ruleFindings hrules] at hsubject
  · split at hnested
    · rename_i hdescends
      obtain ⟨i, fault, hoffends, hfinding, hreach, _⟩ := mem_nestedFindings_iff.mp hnested
      exact ⟨m, mem_descended_iff.mpr ⟨earlier, later, hms, hdescends⟩, i, fault, hoffends,
        hreach, hfinding⟩
    · simp at hnested

/-- The findings about an enumerated root: its blocks, and behind them what the layout adds. -/
theorem analyze_eq_memberBlocks_append {root : g.Handle} (h : g.EnumeratesMembers c root) :
    g.analyze c root =
      g.memberBlocks c root (g.typeAt root).membersInCheckOrder ++
        if (g.typeAt root).form = .structType ∧
            g.memberBlocks c root (g.typeAt root).membersInCheckOrder = [] then
          (g.layoutFinding? (g.typeAt root).location root
            (g.memberPass c root (g.typeAt root).membersInCheckOrder).ledger).toList
        else [] := by
  have hpass := memberPass_passedOver (c := c) h.composite (g.typeAt root).membersInCheckOrder
  rw [analyze_of_enumerates h, checkLayout_findings h.composite, checkMembers_eq_memberPass,
    hpass.findings]

theorem subject_of_layoutFinding {caller : Location} {i : g.Handle}
    {ledger : IndexLedger g.Handle} {d : Diagnostic}
    (h : g.layoutFinding? caller i ledger = some d) :
    d.rule.subject = .layout ∧ d.primaryLocation? = some caller := by
  unfold layoutFinding? at h
  cases hverdict : g.layoutVerdict ledger i with
  | valid => simp [hverdict] at h
  | gap index =>
    simp only [hverdict, Option.some.injEq] at h
    subst h
    simp [Rule.subject]
  | noMatchingConstructor expected =>
    simp only [hverdict, Option.some.injEq] at h
    subst h
    simp [Rule.subject]

/-- The findings about a root are the blocks of its properties and then of its fields, each in
declaration order, with at most one finding about the layout behind them. Behind the offenders of
a block stands reachability: they are the ones that no earlier member leads to. -/
theorem findings_are_blocks_in_check_order {root : g.Handle} (h : g.EnumeratesMembers c root) :
    (∃ layout : List Diagnostic,
      g.analyze c root =
        ((withEarlier ((g.typeAt root).members.filter (·.form.isProperty) ++
          (g.typeAt root).members.filter (!·.form.isProperty))).flatMap
            fun x => g.memberBlock c root x.1 x.2) ++ layout ∧
      layout.length ≤ 1 ∧
      ∀ d ∈ layout,
        d.rule = .indicesMustBeSequential ∨ d.rule = .layoutNeedsMatchingConstructor) ∧
    ∀ earlier m d, d ∈ g.nestedFindings c root earlier m ↔
      ∃ i fault, g.Offends c i fault ∧ fault.finding m.location (g.site i) = d ∧
        g.Reaches c [root] m.type i ∧
          ∀ m' ∈ g.descended root earlier, ¬ g.Reaches c [root] m'.type i := by
  refine ⟨⟨_, analyze_eq_memberBlocks_append h, ?_, ?_⟩, fun _ _ _ => mem_nestedFindings_iff⟩
  · split
    · cases g.layoutFinding? _ root _ <;> simp
    · simp
  · intro d hd
    split at hd
    · have hlayout := subject_of_layoutFinding (Option.mem_toList.mp hd)
      exact (Rule.subject_eq_layout_iff _).mp hlayout.1
    · simp at hd

/-- A shelf with two catalogues, each of which lists itself and books, beside two structs that
differ in the parameters of their constructors. -/
def library : GraphDescription where
  types := [
    TypeDescription.ofKind .structType "Shelf"
      |>.asFormattable
      |>.withMember (((MemberDescription.field "Upper" "Catalogue").indexed 2).declaredAt
        { line := 2 })
      |>.withMember (((MemberDescription.property "Label" "string").indexed 0).declaredAt
        { line := 3 })
      |>.withMember (((MemberDescription.property "Lower" "Catalogue").indexed 1).declaredAt
        { line := 4 }),
    .generic "Catalogue" .interfaceType "System.Collections.Generic.IDictionary<,>"
      ["Catalogue", "Book[]"],
    .array "Book[]" "Book",
    .ofKind .classType "Book",
    TypeDescription.ofKind .structType "Ticket"
      |>.asFormattable
      |>.withConstructor ["string", "int"]
      |>.withMember ((MemberDescription.field "Seat" "int").indexed 1)
      |>.withMember ((MemberDescription.property "Hall" "string").indexed 0),
    TypeDescription.ofKind .structType "Voucher"
      |>.asFormattable
      |>.withConstructor ["int", "string"]
      |>.withMember ((MemberDescription.field "Amount" "int").indexed 1)
      |>.withMember ((MemberDescription.property "Holder" "string").indexed 0)]

def libraryGraph : TypeGraph := (build library []).toOption.get (by decide +kernel)

def shelf : libraryGraph.Handle := (libraryGraph.lookup "Shelf").get (by decide +kernel)

theorem enumeratesMembers_shelf : libraryGraph.EnumeratesMembers {} shelf where
  nonterminal := by decide +kernel
  composite := by decide +kernel
  annotated := by decide +kernel
  constructible := by decide +kernel

theorem shelf_findings_are_blocks :
    libraryGraph.EnumeratesMembers {} shelf ∧
      (∃ layout : List Diagnostic,
        libraryGraph.analyze {} shelf =
          ((withEarlier ((libraryGraph.typeAt shelf).members.filter (·.form.isProperty) ++
            (libraryGraph.typeAt shelf).members.filter (!·.form.isProperty))).flatMap
              fun x => libraryGraph.memberBlock {} shelf x.1 x.2) ++ layout ∧
        layout.length ≤ 1 ∧
        ∀ d ∈ layout,
          d.rule = .indicesMustBeSequential ∨ d.rule = .layoutNeedsMatchingConstructor) ∧
      ∀ earlier m d, d ∈ libraryGraph.nestedFindings {} shelf earlier m ↔
        ∃ i fault, libraryGraph.Offends {} i fault ∧
          fault.finding m.location (libraryGraph.site i) = d ∧
          libraryGraph.Reaches {} [shelf] m.type i ∧
            ∀ m' ∈ libraryGraph.descended shelf earlier,
              ¬ libraryGraph.Reaches {} [shelf] m'.type i :=
  ⟨enumeratesMembers_shelf, findings_are_blocks_in_check_order enumeratesMembers_shelf⟩

end TypeGraph
end LayoutContract
