import LayoutContract.Proofs.EditedGraphs
import LayoutContract.Proofs.LayoutFindings

/-!
A root whose members are listed in another order. As long as no index is claimed twice, what the
rules find at a member does not depend on the members before it, the types that are reached from
all members together are the same, and so are the places in the layout. The order only decides
which member leads to a type first, and so where a finding about that type is shown.
-/
namespace LayoutContract

/-- A finding without the places that it is shown at. -/
def Diagnostic.unlabelled (d : Diagnostic) : Diagnostic := { d with labels := [] }

theorem Diagnostic.unlabelled_aboutType (rule : Rule) (caller caller' : Location) (t : TypeSite)
    (message : String) :
    (aboutType rule caller t message).unlabelled =
      (aboutType rule caller' t message).unlabelled := by
  unfold aboutType
  split <;> split <;> rfl

/-- A fault is the same wherever it is shown. -/
theorem TypeFault.unlabelled_finding (fault : TypeFault) (caller caller' : Location)
    (t : TypeSite) :
    (fault.finding caller t).unlabelled = (fault.finding caller' t).unlabelled := by
  cases fault <;> exact Diagnostic.unlabelled_aboutType _ _ _ _ _

/-- Two lists of findings that agree about members and layouts, and about types but for the places
that these findings are shown at. -/
structure FoundAlike (found found' : List Diagnostic) : Prop where
  members : (found'.filter (·.rule.subject = .member)).Perm
    (found.filter (·.rule.subject = .member))
  types : ((found'.filter (·.rule.subject = .type)).map (·.unlabelled)).Perm
    ((found.filter (·.rule.subject = .type)).map (·.unlabelled))
  layout : found'.filter (·.rule.subject = .layout) = found.filter (·.rule.subject = .layout)

namespace FoundAlike

theorem refl (found : List Diagnostic) : FoundAlike found found := ⟨.refl _, .refl _, rfl⟩

/-- Rules for members are broken on both sides or on neither. -/
theorem rule_ne {found found' : List Diagnostic} (h : FoundAlike found found') {rule : Rule}
    (hrule : rule.subject = .member) (hnone : ∀ x ∈ found, x.rule ≠ rule) :
    ∀ x ∈ found', x.rule ≠ rule := by
  rintro x hx rfl
  have hmem : x ∈ found'.filter (·.rule.subject = .member) :=
    List.mem_filter.mpr ⟨hx, decide_eq_true hrule⟩
  exact hnone x (List.mem_filter.mp (h.members.mem_iff.mp hmem)).1 rfl

end FoundAlike

/-- The members of the type of the given name are listed as given. -/
def TypeDescription.relisted (name : String) (members : List MemberDescription)
    (t : TypeDescription) : TypeDescription :=
  if t.name = name then { t with members } else t

def GraphDescription.relisted (d : GraphDescription) (name : String)
    (members : List MemberDescription) : GraphDescription :=
  { types := d.types.map (·.relisted name members) }

section Relisted

variable {name : String} {members : List MemberDescription}

theorem TypeDescription.name_relisted (t : TypeDescription) :
    (t.relisted name members).name = t.name := by
  unfold relisted
  split <;> rfl

theorem TypeDescription.normalized_relisted (h : members.map (·.normalized) = members)
    (t : TypeDescription) :
    (t.relisted name members).normalized = t.normalized.relisted name members := by
  unfold relisted
  rw [name_normalized]
  split
  · simp only [normalized, h]
  · rfl

end Relisted

namespace TypeGraph

section Order

variable (g : TypeGraph) (c : Config) (owner : g.Handle)

/-- What is reported about a type, wherever it is shown. -/
def blame? (i : g.Handle) : Option Diagnostic :=
  (g.offence? c i).map fun fault => (fault.finding {} (g.site i)).unlabelled

/-- What is found about the layout when members are checked in the given order. -/
def layoutFindings (ms : List (Member g.Handle)) : List Diagnostic :=
  if (g.typeAt owner).form = .structType ∧ g.memberBlocks c owner ms = [] then
    (g.layoutFinding? (g.typeAt owner).location owner (g.memberPass c owner ms).ledger).toList
  else []

variable {g c owner} {ms ms' earlier : List (Member g.Handle)} {m : Member g.Handle}

theorem map_unlabelled_arrivalFinding? (caller : Location) (i : g.Handle) :
    (g.arrivalFinding? c caller i).map (·.unlabelled) = g.blame? c i := by
  unfold arrivalFinding? blame?
  rw [Option.map_map]
  congr 1
  exact funext fun fault => fault.unlabelled_finding _ _ _

theorem subject_of_mem_nestedFindings {d : Diagnostic}
    (h : d ∈ g.nestedFindings c owner earlier m) : d.rule.subject = .type := by
  obtain ⟨i, fault, _, rfl, _⟩ := mem_nestedFindings_iff.mp h
  simp

theorem subject_of_mem_layoutFindings {d : Diagnostic} (h : d ∈ g.layoutFindings c owner ms) :
    d.rule.subject = .layout := by
  unfold layoutFindings at h
  split at h
  · exact (subject_of_layoutFinding (Option.mem_toList.mp h)).1
  · simp at h

theorem filter_subject_layoutFindings {subject : RuleSubject} (hne : subject ≠ .layout) :
    (g.layoutFindings c owner ms).filter (·.rule.subject = subject) = [] :=
  List.filter_eq_nil_iff.mpr fun d hd => by simp [subject_of_mem_layoutFindings hd, hne.symm]

/-- Where its index is free, a member is judged by itself alone. -/
theorem ruleFindings_of_free
    (h : ∀ index, g.claim? owner m = some index → index ∉ g.claims owner earlier) :
    g.ruleFindings c owner earlier m = g.ruleFindings c owner [] m := by
  unfold ruleFindings
  split
  · rfl
  split
  · rfl
  split
  · rfl
  rename_i hcontract hfield hvirtual
  -- The members before this one are only asked about an index that it claims.
  cases hindex : m.index with
  | value index =>
    have hform : (g.typeAt owner).form = .structType ∨
        m.form.isProperty = true ∧ m.overridable = true := by
      by_cases hstruct : (g.typeAt owner).form = .structType
      · exact .inl hstruct
      · cases hform : m.form <;> simp_all [MemberForm.isProperty]
    have hclaim : g.claim? owner m = some index :=
      claim?_eq_some_iff.mpr ⟨by simpa using hcontract, hform, hindex⟩
    dsimp only
    rw [if_neg (h index hclaim), if_neg (show index ∉ g.claims owner [] from List.not_mem_nil)]
  | _ => rfl

theorem filter_subject_memberBlock (subject : RuleSubject) (earlier : List (Member g.Handle))
    (m : Member g.Handle) :
    (g.memberBlock c owner earlier m).filter (·.rule.subject = subject) =
      match subject with
      | .member => g.ruleFindings c owner earlier m
      | .type =>
        if g.descendsInto owner earlier m then g.nestedFindings c owner earlier m else []
      | .layout => [] := by
  have hrules : ∀ d ∈ g.ruleFindings c owner earlier m, d.rule.subject = .member :=
    fun _ => subject_of_mem_ruleFindings
  have hnested : ∀ d ∈ (if g.descendsInto owner earlier m then
      g.nestedFindings c owner earlier m else []), d.rule.subject = .type := by
    intro d hd
    split at hd
    · exact subject_of_mem_nestedFindings hd
    · simp at hd
  rw [memberBlock, List.filter_append]
  cases subject with
  | member =>
    rw [List.filter_eq_self.mpr fun d hd => decide_eq_true (hrules d hd),
      List.filter_eq_nil_iff.mpr fun d hd => by simp [hnested d hd], List.append_nil]
  | type =>
    rw [List.filter_eq_nil_iff.mpr fun d hd => by simp [hrules d hd],
      List.filter_eq_self.mpr fun d hd => decide_eq_true (hnested d hd), List.nil_append]
  | layout =>
    rw [List.filter_eq_nil_iff.mpr fun d hd => by simp [hrules d hd],
      List.filter_eq_nil_iff.mpr fun d hd => by simp [hnested d hd], List.append_nil]

/-- The types that all members lead to, each blamed once. -/
theorem map_unlabelled_memberBlocks (ms : List (Member g.Handle)) :
    ((g.memberBlocks c owner ms).filter (·.rule.subject = .type)).map (·.unlabelled) =
      (g.discovered c [owner] ((g.descended owner ms).map (·.type))).filterMap (g.blame? c) := by
  induction ms using List.reverseRecOn with
  | nil => simp [memberBlocks, descended]
  | append_singleton ms m ih =>
    rw [memberBlocks_concat, List.filter_append, List.map_append, ih, filter_subject_memberBlock,
      descended_concat, List.map_append, discovered_append, List.filterMap_append]
    congr 1
    cases g.descendsInto owner ms m with
    | false => simp
    | true =>
      rw [if_pos rfl, if_pos rfl, nestedFindings, List.map_filterMap]
      simp only [map_unlabelled_arrivalFinding?]
      rfl

theorem memberBlocks_eq_nil_iff_filter :
    g.memberBlocks c owner ms = [] ↔
      (g.memberBlocks c owner ms).filter (·.rule.subject = .member) = [] ∧
        (g.memberBlocks c owner ms).filter (·.rule.subject = .type) = [] := by
  constructor
  · intro h
    simp [h]
  · rintro ⟨hmember, htype⟩
    rw [List.eq_nil_iff_forall_not_mem]
    intro d hd
    obtain ⟨⟨earlier, m⟩, _, hblock⟩ := List.mem_flatMap.mp hd
    rw [List.filter_eq_nil_iff] at hmember htype
    have hlayout := subject_of_mem_memberBlock hblock
    cases hsubject : d.rule.subject with
    | member => exact hmember d hd (decide_eq_true hsubject)
    | type => exact htype d hd (decide_eq_true hsubject)
    | layout => exact hlayout hsubject

section Distinct

variable (hclaims : (g.claims owner ms).Nodup)
include hclaims

/-- Without repeated claims each member is judged by itself alone. -/
theorem filter_memberBlocks_member :
    (g.memberBlocks c owner ms).filter (·.rule.subject = .member) =
      ms.flatMap (g.ruleFindings c owner []) := by
  have hfree := (claims_nodup_iff ms).mp hclaims
  conv_rhs => rw [← map_snd_withEarlier ms]
  rw [memberBlocks, List.filter_flatMap, List.flatMap_map]
  apply List.flatMap_congr
  rintro ⟨earlier, m⟩ hm
  obtain ⟨later, hms⟩ := mem_withEarlier_iff.mp hm
  rw [filter_subject_memberBlock]
  exact ruleFindings_of_free fun index => hfree earlier m later index hms

/-- Without repeated claims each member is descended into or not by itself alone. -/
theorem mem_descended_iff_of_nodup :
    m ∈ g.descended owner ms ↔ m ∈ ms ∧ g.descendsInto owner [] m = true := by
  rw [mem_descended_iff]
  constructor
  · rintro ⟨earlier, later, rfl, hdescends⟩
    obtain ⟨index, hclaim, _, haccess⟩ := descendsInto_iff.mp hdescends
    exact ⟨by simp, descendsInto_iff.mpr ⟨index, hclaim, List.not_mem_nil, haccess⟩⟩
  · rintro ⟨hm, hdescends⟩
    obtain ⟨earlier, later, hms⟩ := List.append_of_mem hm
    obtain ⟨index, hclaim, _, haccess⟩ := descendsInto_iff.mp hdescends
    have hfree := (claims_nodup_iff ms).mp hclaims earlier m later index hms hclaim
    exact ⟨earlier, later, hms, descendsInto_iff.mpr ⟨index, hclaim, hfree, haccess⟩⟩

end Distinct

theorem claims_nodup_of_rules (hkind : (g.typeAt owner).form.kind.isComposite = true)
    (h : ∀ d ∈ g.memberBlocks c owner ms, d.rule ≠ .duplicateIndex) :
    (g.claims owner ms).Nodup := by
  rw [claims_nodup_iff]
  intro earlier m later index hms hclaim hclaimed
  have hfinding : .duplicateIndex (g.memberSite owner m) index ∈ g.memberBlocks c owner ms := by
    apply List.mem_flatMap.mpr
    refine ⟨(earlier, m), mem_withEarlier_iff.mpr ⟨later, hms⟩, List.mem_append_left _ ?_⟩
    rw [ruleFindings_of_claim hkind hclaim, if_pos hclaimed]
    exact List.mem_singleton_self _
  exact h _ hfinding rfl

section Perm

variable (hclaims : (g.claims owner ms).Nodup) (hms : ms'.Perm ms)
include hclaims hms

theorem claims_nodup_of_perm : (g.claims owner ms').Nodup :=
  ((hms.filterMap (g.claim? owner)).nodup_iff).mpr hclaims

theorem member_findings_perm :
    ((g.memberBlocks c owner ms').filter (·.rule.subject = .member)).Perm
      ((g.memberBlocks c owner ms).filter (·.rule.subject = .member)) := by
  rw [filter_memberBlocks_member hclaims,
    filter_memberBlocks_member (claims_nodup_of_perm hclaims hms)]
  exact hms.flatMap_right _

/-- The members lead to the same types in either order. -/
theorem type_findings_perm :
    (((g.memberBlocks c owner ms').filter (·.rule.subject = .type)).map (·.unlabelled)).Perm
      (((g.memberBlocks c owner ms).filter (·.rule.subject = .type)).map (·.unlabelled)) := by
  rw [map_unlabelled_memberBlocks, map_unlabelled_memberBlocks]
  apply List.Perm.filterMap
  -- No type is discovered twice, so it is enough that the same types are reached at all.
  apply (List.perm_ext_iff_of_nodup (discovered_nodup _ _) (discovered_nodup _ _)).mpr
  intro i
  simp only [mem_discovered_iff, List.mem_map, mem_descended_iff_of_nodup hclaims,
    mem_descended_iff_of_nodup (claims_nodup_of_perm hclaims hms), hms.mem_iff]

theorem memberBlocks_eq_nil_iff_of_perm :
    g.memberBlocks c owner ms' = [] ↔ g.memberBlocks c owner ms = [] := by
  have hmember := (member_findings_perm (c := c) hclaims hms).length_eq
  have htype := (type_findings_perm (c := c) hclaims hms).length_eq
  rw [List.length_map, List.length_map] at htype
  rw [memberBlocks_eq_nil_iff_filter, memberBlocks_eq_nil_iff_filter]
  simp only [← List.length_eq_zero_iff, hmember, htype]

/-- Clean members make up the same layout in either order. -/
theorem layoutFinding?_of_perm (hkind : (g.typeAt owner).form.kind.isComposite = true)
    (hclean : g.memberBlocks c owner ms = []) (caller : Location) :
    g.layoutFinding? caller owner (g.memberPass c owner ms').ledger =
      g.layoutFinding? caller owner (g.memberPass c owner ms).ledger := by
  have hclean' := (memberBlocks_eq_nil_iff_of_perm hclaims hms).mpr hclean
  have hplaces : (g.memberPass c owner ms').ledger.places =
      (g.memberPass c owner ms).ledger.places := by
    apply eq_of_perm_of_ascending
    · exact (places_perm_of_clean hkind hclean').trans
        ((hms.filterMap _).trans (places_perm_of_clean hkind hclean).symm)
    · exact places_pairwise_lt_of_clean hkind hclean'
    · exact places_pairwise_lt_of_clean hkind hclean
  unfold layoutFinding? layoutVerdict
  rw [IndexLedger.verdict_congr _ _ hplaces]

theorem layoutFindings_of_perm (hkind : (g.typeAt owner).form.kind.isComposite = true) :
    g.layoutFindings c owner ms' = g.layoutFindings c owner ms := by
  unfold layoutFindings
  simp only [memberBlocks_eq_nil_iff_of_perm hclaims hms]
  split
  · rename_i hclean
    rw [layoutFinding?_of_perm hclaims hms hkind hclean.2]
  · rfl

theorem foundAlike_of_perm (hkind : (g.typeAt owner).form.kind.isComposite = true) :
    FoundAlike (g.memberBlocks c owner ms ++ g.layoutFindings c owner ms)
      (g.memberBlocks c owner ms' ++ g.layoutFindings c owner ms') := by
  have hnone (ms : List (Member g.Handle)) :
      (g.memberBlocks c owner ms).filter (·.rule.subject = .layout) = [] := by
    rw [memberBlocks, List.filter_flatMap, List.flatMap_eq_nil_iff]
    exact fun x _ => filter_subject_memberBlock .layout x.1 x.2
  rw [layoutFindings_of_perm hclaims hms hkind]
  refine ⟨?_, ?_, ?_⟩
  · rw [List.filter_append, List.filter_append, filter_subject_layoutFindings (by simp),
      List.append_nil, List.append_nil]
    exact member_findings_perm hclaims hms
  · rw [List.filter_append, List.filter_append, filter_subject_layoutFindings (by simp),
      List.append_nil, List.append_nil]
    exact type_findings_perm hclaims hms
  · rw [List.filter_append, List.filter_append, hnone, hnone]

end Perm

end Order

/-- The graph in which the members of `root` are listed as given. -/
abbrev withMembers (g : TypeGraph) (root : g.Handle) (ms : List (Member g.Handle)) : TypeGraph :=
  { g with
    types := .ofFn fun i =>
      if i = root then { g.typeAt root with members := ms } else g.typeAt i }

section WithMembers

variable {g : TypeGraph} {c : Config} {root : g.Handle} {ms : List (Member g.Handle)}

theorem typeAt_withMembers (i : g.Handle) :
    (g.withMembers root ms).typeAt i =
      if i = root then { g.typeAt root with members := ms } else g.typeAt i :=
  Vector.getElem_ofFn i.isLt

theorem typeAt_withMembers_self (root : g.Handle) (ms : List (Member g.Handle)) :
    (g.withMembers root ms).typeAt root = { g.typeAt root with members := ms } :=
  (typeAt_withMembers root).trans (if_pos rfl)

theorem typeAt_withMembers_of_ne {i : g.Handle} (h : i ≠ root) :
    (g.withMembers root ms).typeAt i = g.typeAt i :=
  (typeAt_withMembers i).trans (if_neg h)

/-- A walk never looks at members. -/
theorem keepsWalks_withMembers (root : g.Handle) (ms : List (Member g.Handle)) :
    g.KeepsWalks fun i =>
      if i = root then { g.typeAt root with members := ms } else g.typeAt i where
  outline i := by
    split
    · rename_i h
      rw [h]
    · rfl
  constructors i _ := by
    split
    · rename_i h
      rw [h]
    · rfl

theorem enumeratesMembers_withMembers (h : g.EnumeratesMembers c root)
    (ms : List (Member g.Handle)) : (g.withMembers root ms).EnumeratesMembers c root := by
  constructor
  all_goals rw [typeAt_withMembers_self]
  · exact h.nonterminal
  · exact h.composite
  · exact h.annotated
  · exact h.constructible

/-- With other members, a root is found to be what a check of these members finds. -/
theorem analyze_withMembers (h : g.EnumeratesMembers c root) (ms : List (Member g.Handle)) :
    (g.withMembers root ms).analyze c root =
      g.memberBlocks c root { g.typeAt root with members := ms }.membersInCheckOrder ++
        g.layoutFindings c root { g.typeAt root with members := ms }.membersInCheckOrder := by
  have hkeeps := keepsWalks_withMembers root ms
  have hconstructors :
      (if root = root then { g.typeAt root with members := ms } else g.typeAt root).constructors =
        (g.typeAt root).constructors := by
    rw [if_pos rfl]
  rw [analyze_eq_memberBlocks_append (enumeratesMembers_withMembers h ms),
    typeAt_withMembers_self, hkeeps.memberBlocks c h.composite, hkeeps.memberPass c root,
    hkeeps.layoutFinding? hconstructors]
  rfl

theorem foundAlike_withMembers (hkind : (g.typeAt root).form.kind.isComposite = true)
    (hunique : ∀ x ∈ g.analyze c root, x.rule ≠ .duplicateIndex)
    (hms : ms.Perm (g.typeAt root).members) :
    FoundAlike (g.analyze c root) ((g.withMembers root ms).analyze c root) := by
  have hname' : c.isTerminal ((g.withMembers root ms).typeAt root).name =
      c.isTerminal (g.typeAt root).name := by
    rw [typeAt_withMembers_self]
  rcases root_cases (c := c) hkind with hname | ⟨hname, fault, hfault⟩ | henumerates
  · rw [analyze_of_terminal hname, analyze_of_terminal (hname'.trans hname)]
    exact .refl []
  · have hkind' : ((g.withMembers root ms).typeAt root).form.kind.isComposite = true := by
      rwa [typeAt_withMembers_self]
    have hfault' : ((g.withMembers root ms).typeAt root).fault? = some fault := by
      rw [typeAt_withMembers_self]
      exact hfault
    rw [analyze_of_fault hname hkind hfault,
      analyze_of_fault (hname'.trans hname) hkind' hfault', typeAt_withMembers_self,
      (keepsWalks_withMembers root ms).site root]
    exact .refl _
  · have hanalyze : g.analyze c root =
        g.memberBlocks c root (g.typeAt root).membersInCheckOrder ++
          g.layoutFindings c root (g.typeAt root).membersInCheckOrder :=
      analyze_eq_memberBlocks_append henumerates
    have hclaims : (g.claims root (g.typeAt root).membersInCheckOrder).Nodup :=
      claims_nodup_of_rules hkind fun x hx => hunique x (hanalyze ▸ List.mem_append_left _ hx)
    have horder : ({ g.typeAt root with members := ms }.membersInCheckOrder).Perm
        (g.typeAt root).membersInCheckOrder :=
      (membersInCheckOrder_perm _).trans (hms.trans (membersInCheckOrder_perm _).symm)
    rw [hanalyze, analyze_withMembers henumerates]
    exact foundAlike_of_perm hclaims horder hkind

end WithMembers

section Built

variable {g : TypeGraph} {d : GraphDescription} {implicit : List String} {root : g.Handle}
  {ms : List (Member g.Handle)}

/-- How members are described. -/
def describeMembers (g : TypeGraph) (ms : List (Member g.Handle)) : List MemberDescription :=
  ms.map fun m => (m.map g.nameOf).describe

theorem describe_withMembers (hnames : Function.Injective g.nameOf) (i : g.Handle) :
    (g.withMembers root ms).describe i =
      (g.describe i).relisted (g.nameOf root) (g.describeMembers ms) := by
  have hnameOf : (g.withMembers root ms).nameOf = g.nameOf :=
    (keepsWalks_withMembers root ms).nameOf
  have hname : (g.describe i).name = g.nameOf i := rfl
  rw [TypeDescription.relisted, hname, describe, hnameOf]
  by_cases hi : i = root
  · subst hi
    rw [typeAt_withMembers_self, if_pos rfl]
    simp [describe, TypeDef.describe, TypeDef.map, describeMembers, nameOf]
  · rw [typeAt_withMembers_of_ne hi, if_neg fun hsame => hi (hnames hsame)]
    rfl

/-- A name that nobody declares has no members that could be listed otherwise. -/
theorem relisted_implicit (hg : build d implicit = .ok g)
    (hms : ms.Perm (g.typeAt root).members) {name : String}
    (hname : .implicit name ∈ d.entries implicit) :
    (TypeDescription.implicit name).relisted (g.nameOf root) (g.describeMembers ms) =
      .implicit name := by
  unfold TypeDescription.relisted
  split
  · rename_i hroot
    have hdescribe := congrArg (·.members) (describe_of_mem_entries hg hname hroot)
    have hnone : (g.typeAt root).members = [] := by
      simpa [describe, TypeDef.describe, TypeDef.map, TypeDescription.normalized,
        TypeDescription.implicit, TypeDescription.ofKind] using hdescribe
    rw [hnone, List.perm_nil] at hms
    rw [hms]
    rfl
  · rfl

/-- To list the members otherwise in the description comes to the same. -/
theorem build_relisted (hg : build d implicit = .ok g) (hms : ms.Perm (g.typeAt root).members) :
    build (d.relisted (g.nameOf root) (g.describeMembers ms)) implicit =
      .ok (g.withMembers root ms) := by
  have hmembers : (g.describeMembers ms).map (·.normalized) = g.describeMembers ms := by
    simp [describeMembers, Member.normalized_describe]
  refine build_edited hg TypeDescription.name_relisted
    (TypeDescription.normalized_relisted hmembers) ?_
    (describe_withMembers (nameOf_injective hg))
  intro name hnew
  exact relisted_implicit hg hms (List.mem_append_right _ (List.mem_map_of_mem hnew))

end Built

/-- The members of a root can be listed in another order. Unless an index is claimed twice, the
same is found at the members and about the layout, and the same types are found, perhaps at other
members. -/
theorem member_order_changes_places_only {d : GraphDescription} {implicit : List String}
    {g : TypeGraph} (hg : build d implicit = .ok g) (c : Config) {root : g.Handle}
    (hkind : (g.typeAt root).form.kind.isComposite = true)
    (hunique : ∀ x ∈ g.analyze c root, x.rule ≠ .duplicateIndex) {ms : List (Member g.Handle)}
    (hms : ms.Perm (g.typeAt root).members) :
    build (d.relisted (g.nameOf root) (g.describeMembers ms)) implicit =
        .ok (g.withMembers root ms) ∧
      (∀ x ∈ (g.withMembers root ms).analyze c root, x.rule ≠ .duplicateIndex) ∧
      FoundAlike (g.analyze c root) ((g.withMembers root ms).analyze c root) := by
  have hfound := foundAlike_withMembers hkind hunique hms
  exact ⟨build_relisted hg hms, hfound.rule_ne rfl hunique, hfound⟩

/-- A desk with two drawers of a type that is not annotated. -/
def office : GraphDescription where
  types := [
    TypeDescription.ofKind .structType "Desk"
      |>.asFormattable
      |>.withMember (((MemberDescription.field "Left" "Drawer").indexed 1).declaredAt
        { line := 2 })
      |>.withMember (((MemberDescription.field "Right" "Drawer").indexed 0).declaredAt
        { line := 3 }),
    .ofKind .classType "Drawer"]

def officeGraph : TypeGraph := (build office []).toOption.get (by decide +kernel)

def desk : officeGraph.Handle := (officeGraph.lookup "Desk").get (by decide +kernel)

/-- The drawer is found at the member that is listed first. -/
theorem drawer_found_at_other_member :
    build office [] = .ok officeGraph ∧
      (officeGraph.typeAt desk).form.kind.isComposite = true ∧
      (∀ x ∈ officeGraph.analyze {} desk, x.rule ≠ .duplicateIndex) ∧
      (officeGraph.typeAt desk).members.reverse.Perm (officeGraph.typeAt desk).members ∧
      officeGraph.analyze {} desk = [.typeMustBeAnnotated { line := 2 } ⟨"Drawer", {}⟩] ∧
      (officeGraph.withMembers desk (officeGraph.typeAt desk).members.reverse).analyze {} desk =
        [.typeMustBeAnnotated { line := 3 } ⟨"Drawer", {}⟩] ∧
      FoundAlike (officeGraph.analyze {} desk)
        ((officeGraph.withMembers desk (officeGraph.typeAt desk).members.reverse).analyze {}
          desk) := by
  have hg : build office [] = .ok officeGraph := rfl
  have hkind : (officeGraph.typeAt desk).form.kind.isComposite = true := by decide +kernel
  have hunique : ∀ x ∈ officeGraph.analyze {} desk, x.rule ≠ .duplicateIndex := by decide +kernel
  have hms := List.reverse_perm (officeGraph.typeAt desk).members
  obtain ⟨-, -, hfound⟩ := member_order_changes_places_only hg {} hkind hunique hms
  exact ⟨hg, hkind, hunique, hms, by decide +kernel, by decide +kernel, hfound⟩

end TypeGraph
end LayoutContract
