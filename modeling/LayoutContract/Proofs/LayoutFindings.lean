import LayoutContract.Proofs.MemberBlocks

/-!
The findings about the layout of a root. Such a finding stands alone and only structs have one.
Where the members of a struct are clean, the ledger holds every place that they ask for, and what
is found about the layout follows from these places, in whatever order they were declared.
-/
namespace LayoutContract.TypeGraph

/-- The places that the members of `root` ask for, in ascending order, decide what is found: the
first gap, else a constructor that is missing, else nothing. -/
structure DecidedByPlaces (g : TypeGraph) (c : Config) (root : g.Handle)
    (places : List (Int × g.Handle)) : Prop where
  complete : places.Perm (indexedTypes (g.typeAt root).members)
  ascending : (places.map (·.1)).Pairwise (· < ·)
  gap : ¬ IsInitialSegment ((indexedTypes (g.typeAt root).members).map (·.1)) →
    ∃ (before : List Int) (index : Int) (after : List Int),
      places.map (·.1) = before ++ index :: after ∧
      before = firstIndices before.length ∧ index ≠ before.length ∧
      g.analyze c root =
        [.indicesMustBeSequential (g.typeAt root).location (g.site root) index]
  rejected : IsInitialSegment ((indexedTypes (g.typeAt root).members).map (·.1)) →
    places ≠ [] →
    (∀ parameters ∈ (g.typeAt root).constructors,
      parameters.map (fun j => (g.typeAt j).qualifiedName) ≠
        places.map fun p => (g.typeAt p.2).qualifiedName) →
    g.analyze c root =
      [.layoutNeedsMatchingConstructor (g.typeAt root).location (g.site root)
        (places.map fun p => (g.typeAt p.2).name)]
  accepted : IsInitialSegment ((indexedTypes (g.typeAt root).members).map (·.1)) →
    (places = [] ∨ ∃ parameters ∈ (g.typeAt root).constructors,
      parameters.map (fun j => (g.typeAt j).qualifiedName) =
        places.map fun p => (g.typeAt p.2).qualifiedName) →
    g.analyze c root = []

/-- Nothing is wrong with the given places, in their order, as the layout of a type. -/
structure AcceptsPlaces (g : TypeGraph) (i : g.Handle) (places : List (Int × g.Handle)) :
    Prop where
  sequential : IndexLedger.firstGap (places.map (·.1)) = none
  constructed : places = [] ∨ ∃ parameters ∈ (g.typeAt i).constructors,
    parameters.map (fun j => (g.typeAt j).qualifiedName) =
      places.map fun p => (g.typeAt p.2).qualifiedName

variable {g : TypeGraph} {c : Config} {owner root : g.Handle}
  {ms earlier : List (Member g.Handle)} {m : Member g.Handle}

theorem subject_of_mem_memberBlock {d : Diagnostic}
    (h : d ∈ g.memberBlock c owner earlier m) : d.rule.subject ≠ .layout := by
  rcases List.mem_append.mp h with hrules | hnested
  · simp [subject_of_mem_ruleFindings hrules]
  · split at hnested
    · obtain ⟨i, fault, _, rfl, _⟩ := mem_nestedFindings_iff.mp hnested
      simp
    · simp at hnested

theorem not_layout_of_mem_memberBlocks {x : Diagnostic} (h : x ∈ g.memberBlocks c owner ms) :
    x.rule.subject ≠ .layout := by
  obtain ⟨_, _, hblock⟩ := List.mem_flatMap.mp h
  exact subject_of_mem_memberBlock hblock

theorem memberBlocks_eq_nil_iff :
    g.memberBlocks c owner ms = [] ↔
      ∀ earlier m later, ms = earlier ++ m :: later → g.memberBlock c owner earlier m = [] := by
  simp only [memberBlocks, List.flatMap_eq_nil_iff, Prod.forall, mem_withEarlier_iff]
  constructor
  · intro h earlier m later hms
    exact h earlier m ⟨later, hms⟩
  · rintro h earlier m ⟨later, hms⟩
    exact h earlier m later hms

/-- Where nothing is found at the members, nothing about their form keeps them from claiming. -/
theorem claim?_of_clean (h : g.memberBlock c owner earlier m = []) :
    g.claim? owner m = m.indexedType?.map (·.1) := by
  have hrules := ruleFindings_eq_nil_iff.mp (List.append_eq_nil_iff.mp h).1
  exact claim?_eq_indexedType? fun hcontract => (hrules hcontract).1

theorem claims_nodup_of_clean (h : g.memberBlocks c owner ms = []) :
    (g.claims owner ms).Nodup := by
  rw [claims_nodup_iff]
  intro earlier m later index hms hclaim
  have hblock := memberBlocks_eq_nil_iff.mp h earlier m later hms
  have hrules := ruleFindings_eq_nil_iff.mp (List.append_eq_nil_iff.mp hblock).1
  obtain ⟨hcontract, _, hindex⟩ := claim?_eq_some_iff.mp hclaim
  rcases (hrules hcontract).2 with hnull | ⟨index', hindex', hfree, _⟩
  · simp [hindex] at hnull
  · rw [hindex, IndexMark.value.injEq] at hindex'
    exact hindex' ▸ hfree

/-- The ledger of a clean pass holds the places that the members ask for, one entry for each. -/
theorem acceptedEntries_of_clean (h : g.memberBlocks c owner ms = []) :
    g.acceptedEntries owner ms =
      (indexedTypes ms).map fun p => ⟨p.1, owner, p.2⟩ := by
  rw [acceptedEntries_of_nodup (claims_nodup_of_clean h), indexedTypes, List.map_filterMap]
  apply List.filterMap_congr
  intro m hm
  obtain ⟨earlier, later, hms⟩ := List.append_of_mem hm
  rw [claim?_of_clean (memberBlocks_eq_nil_iff.mp h earlier m later hms), Option.map_map]
  cases hplace : m.indexedType? with
  | none => rfl
  | some p =>
    have htype : m.type = p.2 := (Member.indexedType?_eq_some_iff.mp hplace).2.2
    simp [htype]

section Finding

variable {caller : Location} {i : g.Handle} {ledger : IndexLedger g.Handle}

theorem layoutFinding?_of_gap {index : Int}
    (h : IndexLedger.firstGap (ledger.places.map (·.1)) = some index) :
    g.layoutFinding? caller i ledger =
      some (.indicesMustBeSequential caller (g.site i) index) := by
  simp only [layoutFinding?, layoutVerdict, IndexLedger.verdict_of_gap _ _ h]

theorem layoutFinding?_of_accepted (h : g.AcceptsPlaces i ledger.places) :
    g.layoutFinding? caller i ledger = none := by
  simp only [layoutFinding?, layoutVerdict,
    IndexLedger.verdict_of_accepted _ _ h.sequential h.constructed]

theorem layoutFinding?_of_rejected
    (h : IndexLedger.firstGap (ledger.places.map (·.1)) = none) (hplaces : ledger.places ≠ [])
    (hrejected : ∀ parameters ∈ (g.typeAt i).constructors,
      parameters.map (fun j => (g.typeAt j).qualifiedName) ≠
        ledger.places.map fun p => (g.typeAt p.2).qualifiedName) :
    g.layoutFinding? caller i ledger =
      some (.layoutNeedsMatchingConstructor caller (g.site i)
        (ledger.places.map fun p => (g.typeAt p.2).name)) := by
  simp only [layoutFinding?, layoutVerdict,
    IndexLedger.verdict_of_rejected _ _ h hplaces hrejected, List.map_map, Function.comp_def]

theorem layoutFinding?_eq_none_iff :
    g.layoutFinding? caller i ledger = none ↔ g.AcceptsPlaces i ledger.places := by
  constructor
  · intro hnone
    cases hgap : IndexLedger.firstGap (ledger.places.map (·.1)) with
    | some index => simp [layoutFinding?_of_gap hgap] at hnone
    | none =>
      refine ⟨hgap, ?_⟩
      by_contra hrejected
      obtain ⟨hplaces, hnot⟩ := not_or.mp hrejected
      rw [layoutFinding?_of_rejected hgap hplaces fun parameters hmem heq =>
        hnot ⟨parameters, hmem, heq⟩] at hnone
      simp at hnone
  · exact layoutFinding?_of_accepted

end Finding

/-- What is found about a struct whose members are clean is what is found about its layout. -/
theorem analyze_of_clean_struct (h : g.EnumeratesMembers c root)
    (hstruct : (g.typeAt root).form = .structType)
    (hclean : g.memberBlocks c root (g.typeAt root).membersInCheckOrder = []) :
    g.analyze c root =
      (g.layoutFinding? (g.typeAt root).location root
        (g.memberPass c root (g.typeAt root).membersInCheckOrder).ledger).toList := by
  rw [analyze_eq_memberBlocks_append h, if_pos ⟨hstruct, hclean⟩, hclean, List.nil_append]

/-- The entries that a clean pass over the members of a root leaves behind. -/
theorem entries_of_clean (hkind : (g.typeAt root).form.kind.isComposite = true)
    (hclean : g.memberBlocks c root ms = []) :
    (g.memberPass c root ms).ledger.entries =
      (indexedTypes ms).map fun p => ⟨p.1, root, p.2⟩ :=
  (memberPass_passedOver hkind ms).entries.trans (acceptedEntries_of_clean hclean)

/-- The ledger puts the places that the members ask for in order. -/
theorem places_perm_of_clean (hkind : (g.typeAt root).form.kind.isComposite = true)
    (hclean : g.memberBlocks c root ms = []) :
    (g.memberPass c root ms).ledger.places.Perm (indexedTypes ms) := by
  have hperm := IndexLedger.places_perm (g.memberPass c root ms).ledger
  rw [entries_of_clean hkind hclean, List.map_map] at hperm
  have hpairs : ((fun e : IndexEntry g.Handle => (e.index, e.memberType)) ∘
      fun p : Int × g.Handle => ⟨p.1, root, p.2⟩) = id := rfl
  rwa [hpairs, List.map_id] at hperm

theorem places_of_clean (hkind : (g.typeAt root).form.kind.isComposite = true)
    (hclean : g.memberBlocks c root (g.typeAt root).membersInCheckOrder = []) :
    (g.memberPass c root (g.typeAt root).membersInCheckOrder).ledger.places.Perm
      (indexedTypes (g.typeAt root).members) :=
  (places_perm_of_clean hkind hclean).trans (indexedTypes_perm (g.typeAt root))

theorem indices_nodup_of_clean (hclean : g.memberBlocks c root ms = []) :
    ((indexedTypes ms).map (·.1)).Nodup := by
  have hclaims : g.claims root ms = (indexedTypes ms).map (·.1) := by
    apply claims_eq_map_indexedTypes
    intro m hm
    obtain ⟨earlier, later, hms⟩ := List.append_of_mem hm
    exact claim?_of_clean (memberBlocks_eq_nil_iff.mp hclean earlier m later hms)
  exact hclaims ▸ claims_nodup_of_clean hclean

theorem places_pairwise_lt_of_clean (hkind : (g.typeAt root).form.kind.isComposite = true)
    (hclean : g.memberBlocks c root ms = []) :
    ((g.memberPass c root ms).ledger.places.map (·.1)).Pairwise (· < ·) := by
  have hindices : (g.memberPass c root ms).ledger.entries.map (·.index) =
      (indexedTypes ms).map (·.1) := by
    rw [entries_of_clean hkind hclean, List.map_map]
    rfl
  rw [IndexLedger.map_fst_places]
  exact IndexLedger.sorted_pairwise_lt (hindices ▸ indices_nodup_of_clean hclean)

/-- There is no gap when the members ask for the first places, in whatever order. -/
theorem firstGap_eq_none_iff_of_clean (hkind : (g.typeAt root).form.kind.isComposite = true)
    (hclean : g.memberBlocks c root (g.typeAt root).membersInCheckOrder = []) :
    IndexLedger.firstGap
        ((g.memberPass c root (g.typeAt root).membersInCheckOrder).ledger.places.map (·.1)) =
        none ↔
      IsInitialSegment ((indexedTypes (g.typeAt root).members).map (·.1)) := by
  rw [← isInitialSegment_congr ((places_of_clean hkind hclean).map (·.1)),
    IndexLedger.firstGap_eq_none_iff_isInitialSegment]
  exact (places_pairwise_lt_of_clean hkind hclean).imp le_of_lt

theorem decidedByPlaces_of_clean (h : g.EnumeratesMembers c root)
    (hstruct : (g.typeAt root).form = .structType)
    (hclean : g.memberBlocks c root (g.typeAt root).membersInCheckOrder = []) :
    g.DecidedByPlaces c root
      (g.memberPass c root (g.typeAt root).membersInCheckOrder).ledger.places := by
  have hsegment := firstGap_eq_none_iff_of_clean h.composite hclean
  have hanalyze := analyze_of_clean_struct h hstruct hclean
  refine ⟨places_of_clean h.composite hclean, places_pairwise_lt_of_clean h.composite hclean,
    ?_, ?_, ?_⟩
  · intro hgap
    obtain ⟨index, hindex⟩ := Option.ne_none_iff_exists'.mp fun h => hgap (hsegment.mp h)
    obtain ⟨before, after, hsplit, hbefore, hne⟩ :=
      (IndexLedger.firstGap_eq_some_iff _ _).mp hindex
    refine ⟨before, index, after, hsplit, hbefore, hne, ?_⟩
    rw [hanalyze, layoutFinding?_of_gap hindex]
    rfl
  · intro hinitial hplaces hrejected
    rw [hanalyze, layoutFinding?_of_rejected (hsegment.mpr hinitial) hplaces hrejected]
    rfl
  · intro hinitial haccepted
    rw [hanalyze, layoutFinding?_of_accepted ⟨hsegment.mpr hinitial, haccepted⟩]
    rfl

def voucher : libraryGraph.Handle := (libraryGraph.lookup "Voucher").get (by decide +kernel)

end LayoutContract.TypeGraph
