import LayoutContract.Proofs.LayoutFindings

/-!
The contract that a root has to keep, in one declarative piece, and the theorem that a root is
reported clean exactly when it keeps the contract. The members enter as they are declared: neither
the order of the check nor what it remembers shows in the contract.
-/
namespace LayoutContract.TypeGraph

variable (g : TypeGraph) (c : Config)

/-- The parameters are the types of the places, each at the position that its index names. Types
are compared by their qualified names. -/
def TakesPlaces (parameters : List g.Handle) (places : List (Int × g.Handle)) : Prop :=
  parameters.length = places.length ∧
    ∀ p ∈ places, ∃ j, parameters[p.1.toNat]? = some j ∧
      (g.typeAt j).qualifiedName = (g.typeAt p.2).qualifiedName

/-- The members of a struct ask for the first places, and some constructor takes these. -/
structure HasLayout (root : g.Handle) : Prop where
  sequential : IsInitialSegment ((indexedTypes (g.typeAt root).members).map (·.1))
  constructed : indexedTypes (g.typeAt root).members = [] ∨
    ∃ parameters ∈ (g.typeAt root).constructors,
      g.TakesPlaces parameters (indexedTypes (g.typeAt root).members)

/-- What a class, interface or struct owes to the layout contract. -/
structure KeepsContract (root : g.Handle) : Prop where
  annotated : (g.typeAt root).formattable = true
  constructible : (g.typeAt root).form = .structType ∨ [] ∈ (g.typeAt root).constructors
  noFields : (g.typeAt root).form ≠ .structType →
    ∀ m ∈ (g.typeAt root).members, m.isInContract = true → m.form ≠ .field
  overridable : (g.typeAt root).form ≠ .structType →
    ∀ m ∈ (g.typeAt root).members, m.isInContract = true → m.overridable = true
  marked : ∀ m ∈ (g.typeAt root).members, m.isInContract = true →
    m.index = .null ∨ ∃ index, m.index = .value index
  distinct : ((indexedTypes (g.typeAt root).members).map (·.1)).Nodup
  small : ∀ m ∈ (g.typeAt root).members, m.isInContract = true →
    ∀ index, m.index = .value index → index < c.warningThreshold
  accessible : (g.typeAt root).form ≠ .structType →
    ∀ m ∈ (g.typeAt root).members, m.isInContract = true →
      ∀ index, m.index = .value index →
        ∃ getter setter, m.form = .property (some getter) (some setter) ∧
          getter ≠ .privateAccess ∧ setter ≠ .privateAccess
  noOffender : ∀ m ∈ (g.typeAt root).members, m.isInContract = true →
    ∀ index, m.index = .value index →
      ∀ i fault, g.Reaches c [root] m.type i → ¬ g.Offends c i fault
  layout : (g.typeAt root).form = .structType → g.HasLayout root

variable {g c} {root : g.Handle}

theorem takesPlaces_congr {parameters : List g.Handle} {places places' : List (Int × g.Handle)}
    (h : places.Perm places') :
    g.TakesPlaces parameters places ↔ g.TakesPlaces parameters places' := by
  simp only [TakesPlaces, h.length_eq, h.mem_iff]

/-- Where the places are in order and without a gap, taking them is a comparison of lists. -/
theorem takesPlaces_iff {parameters : List g.Handle} {places : List (Int × g.Handle)}
    (h : places.map (·.1) = firstIndices places.length) :
    g.TakesPlaces parameters places ↔
      parameters.map (fun j => (g.typeAt j).qualifiedName) =
        places.map fun p => (g.typeAt p.2).qualifiedName := by
  have hindex (k : Nat) (hk : k < places.length) : (places[k]).1.toNat = k := by
    have hget := List.getElem_of_eq h (by simpa using hk)
    simp only [List.getElem_map, firstIndices, List.getElem_range] at hget
    omega
  constructor
  · rintro ⟨hlength, htakes⟩
    apply List.ext_getElem
    · simpa using hlength
    · intro k hk hk'
      have hplace : k < places.length := by simpa using hk'
      obtain ⟨j, hj, hname⟩ := htakes places[k] (List.getElem_mem hplace)
      rw [hindex k hplace] at hj
      obtain ⟨_, hget⟩ := List.getElem?_eq_some_iff.mp hj
      rw [List.getElem_map, List.getElem_map, hget, hname]
  · intro heq
    have hlength : parameters.length = places.length := by simpa using congrArg List.length heq
    refine ⟨hlength, fun p hp => ?_⟩
    obtain ⟨k, hk, rfl⟩ := List.mem_iff_getElem.mp hp
    have hparameter : k < parameters.length := hlength ▸ hk
    refine ⟨parameters[k], ?_, ?_⟩
    · rw [hindex k hk, List.getElem?_eq_getElem hparameter]
    · have hget := List.getElem_of_eq heq (by simpa using hparameter)
      rwa [List.getElem_map, List.getElem_map] at hget

theorem isReadableAndWritable_iff {f : MemberForm} :
    f.isReadableAndWritable = true ↔
      ∃ getter setter, f = .property (some getter) (some setter) ∧
        getter ≠ .privateAccess ∧ setter ≠ .privateAccess := by
  cases f with
  | field => simp [MemberForm.isReadableAndWritable, MemberForm.isUsable, MemberForm.getter?]
  | property getter setter =>
    cases getter <;> cases setter <;>
      simp [MemberForm.isReadableAndWritable, MemberForm.isUsable, MemberForm.getter?,
        MemberForm.setter?]

/-- Where no finding stands at a member, no type that is reached from it is at fault. -/
theorem not_offends_of_clean {owner : g.Handle} {ms : List (Member g.Handle)}
    (h : g.memberBlocks c owner ms = []) {m : Member g.Handle} (hm : m ∈ g.descended owner ms)
    {i : g.Handle} (hreach : g.Reaches c [owner] m.type i) (fault : TypeFault) :
    ¬ g.Offends c i fault := by
  intro hoffends
  obtain ⟨_, hfinding⟩ := exists_finding_of_reached hm hreach hoffends
  rw [h] at hfinding
  exact absurd hfinding List.not_mem_nil

/-- What the rules find at the members of a root that is clean. -/
theorem rules_of_clean
    (hclean : g.memberBlocks c root (g.typeAt root).membersInCheckOrder = [])
    {m : Member g.Handle} (hm : m ∈ (g.typeAt root).members) (hcontract : m.isInContract = true) :
    ((g.typeAt root).form = .structType ∨ m.form.isProperty = true ∧ m.overridable = true) ∧
      (m.index = .null ∨
        ∃ index, m.index = .value index ∧ index < c.warningThreshold ∧
          ((g.typeAt root).form = .structType ∨ m.form.isReadableAndWritable = true) ∧
          m ∈ g.descended root (g.typeAt root).membersInCheckOrder) := by
  obtain ⟨earlier, later, hms⟩ := List.append_of_mem
    ((membersInCheckOrder_perm (g.typeAt root)).mem_iff.mpr hm)
  have hblock := memberBlocks_eq_nil_iff.mp hclean earlier m later hms
  obtain ⟨hform, hindex⟩ :=
    ruleFindings_eq_nil_iff.mp (List.append_eq_nil_iff.mp hblock).1 hcontract
  refine ⟨hform, hindex.imp id ?_⟩
  rintro ⟨index, hindex, hfree, hsmall, haccess⟩
  have hclaim : g.claim? root m = some index := by
    rw [claim?_of_clean hblock, Member.indexedType?_eq_some_iff.mpr ⟨hcontract, hindex, rfl⟩]
    rfl
  exact ⟨index, hindex, hsmall, haccess, mem_descended_iff.mpr
    ⟨earlier, later, hms, descendsInto_iff.mpr ⟨index, hclaim, hfree, haccess⟩⟩⟩

/-- Where the members are clean, the declared places and those of the ledger agree on whether
there is a layout. -/
theorem hasLayout_iff_of_clean (hkind : (g.typeAt root).form.kind.isComposite = true)
    (hclean : g.memberBlocks c root (g.typeAt root).membersInCheckOrder = []) :
    g.HasLayout root ↔
      g.AcceptsPlaces root
        (g.memberPass c root (g.typeAt root).membersInCheckOrder).ledger.places := by
  have hperm := places_of_clean hkind hclean
  have hempty : indexedTypes (g.typeAt root).members = [] ↔
      (g.memberPass c root (g.typeAt root).membersInCheckOrder).ledger.places = [] := by
    rw [← List.length_eq_zero_iff, ← hperm.length_eq, List.length_eq_zero_iff]
  have hsegment := firstGap_eq_none_iff_of_clean hkind hclean
  constructor
  · rintro ⟨hinitial, hconstructed⟩
    have hgap := hsegment.mpr hinitial
    have horder := (IndexLedger.firstGap_eq_none_iff _).mp hgap
    rw [List.length_map] at horder
    refine ⟨hgap, hconstructed.imp hempty.mp ?_⟩
    rintro ⟨parameters, hmem, htakes⟩
    exact ⟨parameters, hmem, (takesPlaces_iff horder).mp ((takesPlaces_congr hperm).mpr htakes)⟩
  · rintro ⟨hgap, haccepted⟩
    have horder := (IndexLedger.firstGap_eq_none_iff _).mp hgap
    rw [List.length_map] at horder
    refine ⟨hsegment.mp hgap, haccepted.imp hempty.mpr ?_⟩
    rintro ⟨parameters, hmem, heq⟩
    exact ⟨parameters, hmem, (takesPlaces_congr hperm).mp ((takesPlaces_iff horder).mpr heq)⟩

/-- A struct whose members are clean is clean itself when it has a layout. -/
theorem analyze_eq_nil_iff_of_clean_struct (h : g.EnumeratesMembers c root)
    (hstruct : (g.typeAt root).form = .structType)
    (hclean : g.memberBlocks c root (g.typeAt root).membersInCheckOrder = []) :
    g.analyze c root = [] ↔ g.HasLayout root := by
  rw [analyze_of_clean_struct h hstruct hclean, Option.toList_eq_nil_iff,
    layoutFinding?_eq_none_iff, hasLayout_iff_of_clean h.composite hclean]

theorem analyze_eq_nil_iff_of_enumerates (h : g.EnumeratesMembers c root) :
    g.analyze c root = [] ↔
      g.memberBlocks c root (g.typeAt root).membersInCheckOrder = [] ∧
        ((g.typeAt root).form = .structType → g.HasLayout root) := by
  constructor
  · intro hanalyze
    have hclean : g.memberBlocks c root (g.typeAt root).membersInCheckOrder = [] := by
      rw [analyze_eq_memberBlocks_append h] at hanalyze
      exact (List.append_eq_nil_iff.mp hanalyze).1
    exact ⟨hclean, fun hstruct =>
      (analyze_eq_nil_iff_of_clean_struct h hstruct hclean).mp hanalyze⟩
  · rintro ⟨hclean, hlayout⟩
    by_cases hstruct : (g.typeAt root).form = .structType
    · exact (analyze_eq_nil_iff_of_clean_struct h hstruct hclean).mpr (hlayout hstruct)
    · rw [analyze_eq_memberBlocks_append h, hclean, if_neg fun h => hstruct h.1]
      rfl

/-- The form of the members of a root that keeps the contract. -/
theorem KeepsContract.form_of_mem (h : g.KeepsContract c root) {m : Member g.Handle}
    (hm : m ∈ (g.typeAt root).members) (hcontract : m.isInContract = true) :
    (g.typeAt root).form = .structType ∨ m.form.isProperty = true ∧ m.overridable = true := by
  by_cases hstruct : (g.typeAt root).form = .structType
  · exact .inl hstruct
  · refine .inr ⟨?_, h.overridable hstruct m hm hcontract⟩
    cases hfield : m.form with
    | field => exact absurd hfield (h.noFields hstruct m hm hcontract)
    | property => rfl

theorem KeepsContract.claims_nodup (h : g.KeepsContract c root) :
    (g.claims root (g.typeAt root).membersInCheckOrder).Nodup := by
  have hclaims : g.claims root (g.typeAt root).membersInCheckOrder =
      (indexedTypes (g.typeAt root).membersInCheckOrder).map (·.1) := by
    apply claims_eq_map_indexedTypes
    intro m hm
    exact claim?_eq_indexedType?
      (h.form_of_mem ((membersInCheckOrder_perm (g.typeAt root)).mem_iff.mp hm))
  rw [hclaims, ((indexedTypes_perm (g.typeAt root)).map _).nodup_iff]
  exact h.distinct

/-- Members that keep the contract leave nothing to find at any of them. -/
theorem KeepsContract.memberBlocks_eq_nil (h : g.KeepsContract c root) :
    g.memberBlocks c root (g.typeAt root).membersInCheckOrder = [] := by
  rw [memberBlocks_eq_nil_iff]
  intro earlier m later hms
  have hm : m ∈ (g.typeAt root).members := by
    rw [← (membersInCheckOrder_perm (g.typeAt root)).mem_iff, hms]
    simp
  rw [memberBlock, List.append_eq_nil_iff]
  constructor
  · rw [ruleFindings_eq_nil_iff]
    intro hcontract
    have hform := h.form_of_mem hm hcontract
    refine ⟨hform, (h.marked m hm hcontract).imp id ?_⟩
    rintro ⟨index, hindex⟩
    have hclaim : g.claim? root m = some index :=
      claim?_eq_some_iff.mpr ⟨hcontract, hform, hindex⟩
    have hfree := (claims_nodup_iff _).mp h.claims_nodup earlier m later index hms hclaim
    refine ⟨index, hindex, hfree, h.small m hm hcontract index hindex, ?_⟩
    by_cases hstruct : (g.typeAt root).form = .structType
    · exact .inl hstruct
    · exact .inr (isReadableAndWritable_iff.mpr
        (h.accessible hstruct m hm hcontract index hindex))
  · split
    · rename_i hdescends
      obtain ⟨index, hclaim, _⟩ := descendsInto_iff.mp hdescends
      obtain ⟨hcontract, _, hindex⟩ := claim?_eq_some_iff.mp hclaim
      rw [List.eq_nil_iff_forall_not_mem]
      intro d hd
      obtain ⟨i, fault, hoffends, _, hreach, _⟩ := mem_nestedFindings_iff.mp hd
      exact h.noOffender m hm hcontract index hindex i fault hreach hoffends
    · rfl

/-- What is declared about a member that is clean and has an index. -/
theorem place_of_clean
    (hclean : g.memberBlocks c root (g.typeAt root).membersInCheckOrder = [])
    {m : Member g.Handle} (hm : m ∈ (g.typeAt root).members) (hcontract : m.isInContract = true)
    {index : Int} (hindex : m.index = .value index) :
    index < c.warningThreshold ∧
      ((g.typeAt root).form = .structType ∨ m.form.isReadableAndWritable = true) ∧
      m ∈ g.descended root (g.typeAt root).membersInCheckOrder := by
  rcases (rules_of_clean hclean hm hcontract).2 with hnull | ⟨index', hindex', hplace⟩
  · simp [hindex] at hnull
  · rw [hindex, IndexMark.value.injEq] at hindex'
    exact hindex' ▸ hplace

theorem keepsContract_of_clean (h : g.EnumeratesMembers c root)
    (hclean : g.memberBlocks c root (g.typeAt root).membersInCheckOrder = [])
    (hlayout : (g.typeAt root).form = .structType → g.HasLayout root) :
    g.KeepsContract c root where
  annotated := h.annotated
  constructible := h.constructible
  noFields hstruct m hm hcontract hfield := by
    have hform := (rules_of_clean hclean hm hcontract).1.resolve_left hstruct
    simp [hfield, MemberForm.isProperty] at hform
  overridable hstruct m hm hcontract :=
    ((rules_of_clean hclean hm hcontract).1.resolve_left hstruct).2
  marked m hm hcontract :=
    (rules_of_clean hclean hm hcontract).2.imp id fun ⟨index, hindex, _⟩ => ⟨index, hindex⟩
  distinct := by
    rw [← ((indexedTypes_perm (g.typeAt root)).map (·.1)).nodup_iff]
    exact indices_nodup_of_clean hclean
  small m hm hcontract index hindex := (place_of_clean hclean hm hcontract hindex).1
  accessible hstruct m hm hcontract index hindex :=
    isReadableAndWritable_iff.mp
      ((place_of_clean hclean hm hcontract hindex).2.1.resolve_left hstruct)
  noOffender m hm hcontract index hindex i fault hreach :=
    not_offends_of_clean hclean (place_of_clean hclean hm hcontract hindex).2.2 hreach fault
  layout := hlayout

/-- A class, interface or struct whose name is not terminal is reported clean exactly when it
keeps the contract. -/
theorem analyze_eq_nil_iff_keepsContract
    (hname : c.isTerminal (g.typeAt root).name = false)
    (hkind : (g.typeAt root).form.kind.isComposite = true) :
    g.analyze c root = [] ↔ g.KeepsContract c root := by
  constructor
  · intro hanalyze
    rcases root_cases (c := c) hkind with hterminal | ⟨_, fault, hfault⟩ | henumerates
    · simp [hname] at hterminal
    · simp [analyze_of_fault hname hkind hfault] at hanalyze
    · obtain ⟨hclean, hlayout⟩ := (analyze_eq_nil_iff_of_enumerates henumerates).mp hanalyze
      exact keepsContract_of_clean henumerates hclean hlayout
  · intro h
    have henumerates : g.EnumeratesMembers c root := ⟨hname, hkind, h.annotated, h.constructible⟩
    exact (analyze_eq_nil_iff_of_enumerates henumerates).mpr
      ⟨h.memberBlocks_eq_nil, h.layout⟩

def ticket : libraryGraph.Handle := (libraryGraph.lookup "Ticket").get (by decide +kernel)

theorem ticket_keepsContract :
    ({} : Config).isTerminal (libraryGraph.typeAt ticket).name = false ∧
      (libraryGraph.typeAt ticket).form.kind.isComposite = true ∧
      libraryGraph.analyze {} ticket = [] ∧ libraryGraph.KeepsContract {} ticket := by
  have hname : ({} : Config).isTerminal (libraryGraph.typeAt ticket).name = false := by
    decide +kernel
  have hkind : (libraryGraph.typeAt ticket).form.kind.isComposite = true := by decide +kernel
  have hclean : libraryGraph.analyze {} ticket = [] := by decide +kernel
  exact ⟨hname, hkind, hclean, (analyze_eq_nil_iff_keepsContract hname hkind).mp hclean⟩

end LayoutContract.TypeGraph
