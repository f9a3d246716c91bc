import LayoutContract.Check.Report
import LayoutContract.Proofs.HandleMaps
import LayoutContract.Proofs.MemberBlocks
import Mathlib.Data.List.Basic

/-!
Graphs in which checks go alike. The types of one graph are mapped to those of another so that no
two fall together and a walk is told the same about a type and its image. Then each step of a
check in one graph is a step in the other: visited types, ledgers and verdicts are carried over by
the map, and the findings stay as they are.
-/
namespace LayoutContract

section Map

variable {ι κ : Type}

def Role.map (f : ι → κ) : Role ι → Role κ
  | exempt => .exempt
  | array element => .array (f element)
  | wrapper arguments => .wrapper (arguments.map f)
  | contract => .contract

/-- Findings mention no handles. -/
def Context.map (f : ι → κ) (context : Context ι) : Context κ :=
  { context with visited := context.visited.map f }

def IndexEntry.map (f : ι → κ) (e : IndexEntry ι) : IndexEntry κ :=
  ⟨e.index, f e.owner, f e.memberType⟩

def LayoutVerdict.map (f : ι → κ) : LayoutVerdict ι → LayoutVerdict κ
  | valid => .valid
  | gap index => .gap index
  | noMatchingConstructor expected => .noMatchingConstructor (expected.map f)

namespace IndexLedger

def map (f : ι → κ) (l : IndexLedger ι) : IndexLedger κ :=
  { l with entries := l.entries.map (·.map f) }

theorem record_map (f : ι → κ) (l : IndexLedger ι) (e : IndexEntry ι) :
    (l.map f).record (e.map f) = ((l.record e).1, (l.record e).2.map f) := by
  by_cases h : e.index ∈ l.claimed <;> simp [record, map, IndexEntry.map, h]

theorem insertEntry_map (f : ι → κ) (e : IndexEntry ι) (entries : List (IndexEntry ι)) :
    insertEntry (e.map f) (entries.map (·.map f)) = (insertEntry e entries).map (·.map f) := by
  induction entries with
  | nil => rfl
  | cons first rest ih =>
    have hindex (e : IndexEntry ι) : (e.map f).index = e.index := rfl
    simp only [List.map_cons, insertEntry, hindex]
    split
    · rfl
    · rw [ih, List.map_cons]

theorem sorted_map (f : ι → κ) (l : IndexLedger ι) :
    (l.map f).sorted = l.sorted.map (·.map f) := by
  unfold sorted map
  induction l.entries with
  | nil => rfl
  | cons first rest ih => simp only [List.map_cons, List.foldr_cons, ih, insertEntry_map]

/-- The indices stay where they are. -/
theorem indices_map (f : ι → κ) (l : IndexLedger ι) :
    (l.map f).sorted.map (·.index) = l.sorted.map (·.index) := by
  simp [sorted_map, IndexEntry.map, Function.comp_def]

theorem memberTypes_map (f : ι → κ) (l : IndexLedger ι) :
    (l.map f).sorted.map (·.memberType) = (l.sorted.map (·.memberType)).map f := by
  simp [sorted_map, IndexEntry.map, Function.comp_def]

/-- Verdicts agree when the constructors accept the same types. -/
theorem verdict_map {f : ι → κ} {l : IndexLedger ι} {qualified : ι → String}
    {qualified' : κ → String} {constructors : List (List ι)} {constructors' : List (List κ)}
    (h : ∀ expected : List ι, constructors'.any (accepts qualified' (expected.map f)) =
      constructors.any (accepts qualified expected)) :
    (l.map f).verdict qualified' constructors' = (l.verdict qualified constructors).map f := by
  unfold verdict
  rw [indices_map, memberTypes_map]
  cases firstGap (l.sorted.map (·.index)) with
  | some index => rfl
  | none =>
    simp only [h, List.isEmpty_map]
    split <;> rfl

end IndexLedger

def MemberPass.map (f : ι → κ) (p : MemberPass ι) : MemberPass κ :=
  ⟨p.context.map f, p.ledger.map f⟩

/-- The same claims are free after two passes that go alike. -/
theorem MemberPass.record_map (f : ι → κ) (p : MemberPass ι) (owner : ι) (m : Member ι)
    (index : Int) :
    (p.map f).ledger.record ⟨index, f owner, (m.map f).type⟩ =
      ((p.ledger.record ⟨index, owner, m.type⟩).1,
        (p.ledger.record ⟨index, owner, m.type⟩).2.map f) :=
  IndexLedger.record_map f p.ledger ⟨index, owner, m.type⟩

/-- The members that a check has something to say about, in its order. -/
def TypeDef.contractMembers (t : TypeDef ι) : List (Member ι) :=
  t.membersInCheckOrder.filter (·.isInContract)

theorem membersInCheckOrder_map (f : ι → κ) (t : TypeDef ι) :
    (t.map f).membersInCheckOrder = t.membersInCheckOrder.map (·.map f) := by
  simp only [TypeDef.membersInCheckOrder, TypeDef.map, List.filter_map, List.map_append]
  rfl

theorem contractMembers_map (f : ι → κ) (t : TypeDef ι) :
    (t.map f).contractMembers = t.contractMembers.map (·.map f) := by
  rw [TypeDef.contractMembers, membersInCheckOrder_map, List.filter_map]
  rfl

theorem TypeDef.fault?_map (f : ι → κ) (t : TypeDef ι) : (t.map f).fault? = t.fault? := by
  have hconstructors :
      (t.map f).hasParameterlessConstructor = t.hasParameterlessConstructor := by
    simp [hasParameterlessConstructor, map, Function.comp_def]
  have hformattable : (t.map f).formattable = t.formattable := rfl
  rw [fault?, isValue_map, hconstructors, hformattable, fault?]

end Map

namespace TypeGraph

variable {g g' : TypeGraph} {c c' : Config} {φ : g.Handle → g'.Handle}

/-- A walk is told the same about each type of `g` and its image in `g'`. -/
structure WalksAlike (g : TypeGraph) (c : Config) (g' : TypeGraph) (c' : Config)
    (φ : g.Handle → g'.Handle) : Prop where
  injective : Function.Injective φ
  site : ∀ i, g'.site (φ i) = g.site i
  role : ∀ i, g'.role c' (φ i) = (g.role c i).map φ
  offence : ∀ i, g'.offence? c' (φ i) = g.offence? c i

/-- The constructors of a type and of its image take the same types. -/
def ConstructorsAlike (g g' : TypeGraph) (φ : g.Handle → g'.Handle) (i : g.Handle) : Prop :=
  ∀ expected : List g.Handle,
    (g'.typeAt (φ i)).constructors.any
        (IndexLedger.accepts (fun j => (g'.typeAt j).qualifiedName) (expected.map φ)) =
      (g.typeAt i).constructors.any
        (IndexLedger.accepts (fun j => (g.typeAt j).qualifiedName) expected)

/-- The check of a member is told the same about the type that has it. -/
structure JudgesAlike (g : TypeGraph) (c : Config) (g' : TypeGraph) (c' : Config)
    (φ : g.Handle → g'.Handle) (i : g.Handle) : Prop where
  threshold : c'.warningThreshold = c.warningThreshold
  isValue : (g'.typeAt (φ i)).isValue = (g.typeAt i).isValue

/-- The check of a type is told the same about the type as a whole. -/
structure ChecksAlike (g : TypeGraph) (c : Config) (g' : TypeGraph) (c' : Config)
    (φ : g.Handle → g'.Handle) (i : g.Handle) : Prop extends JudgesAlike g c g' c' φ i where
  fault : (g'.typeAt (φ i)).fault? = (g.typeAt i).fault?
  members : (g'.typeAt (φ i)).contractMembers = (g.typeAt i).contractMembers.map (·.map φ)
  constructors : g.ConstructorsAlike g' φ i

/-- Members outside the contract leave no trace in a pass. -/
theorem foldl_checkMember_filter (owner : g.Handle) (p : MemberPass g.Handle)
    (ms : List (Member g.Handle)) :
    (ms.filter (·.isInContract)).foldl (g.checkMember c owner) p =
      ms.foldl (g.checkMember c owner) p := by
  induction ms generalizing p with
  | nil => rfl
  | cons m ms ih =>
    cases hcontract : m.isInContract with
    | true => rw [List.filter_cons_of_pos hcontract, List.foldl_cons, List.foldl_cons, ih]
    | false =>
      have hskip : g.checkMember c owner p m = p := by simp [checkMember, hcontract]
      rw [List.filter_cons_of_neg (by simp [hcontract]), List.foldl_cons, hskip, ih]

theorem checkMembers_eq_foldl_contractMembers (owner : g.Handle) (context : Context g.Handle) :
    g.checkMembers c owner context =
      (g.typeAt owner).contractMembers.foldl (g.checkMember c owner) ⟨context, .empty⟩ :=
  (foldl_checkMember_filter owner _ _).symm

namespace WalksAlike

variable (h : g.WalksAlike c g' c' φ)
include h

theorem name (i : g.Handle) : (g'.typeAt (φ i)).name = (g.typeAt i).name :=
  congrArg (·.name) (h.site i)

theorem location (i : g.Handle) : (g'.typeAt (φ i)).location = (g.typeAt i).location :=
  congrArg (·.declaredAt) (h.site i)

theorem mem_map_iff {i : g.Handle} {is : List g.Handle} : φ i ∈ is.map φ ↔ i ∈ is :=
  List.mem_map_of_injective h.injective

theorem mem_visited_iff {i : g.Handle} {context : Context g.Handle} :
    φ i ∈ (context.map φ).visited ↔ i ∈ context.visited :=
  h.mem_map_iff

theorem parts_map (i : g.Handle) : g'.parts c' (φ i) = (g.parts c i).map φ := by
  unfold parts
  rw [h.role i]
  cases g.role c i <;> rfl

theorem enter_map (caller : Location) (i : g.Handle) (context : Context g.Handle) :
    g'.enter c' caller (φ i) (context.map φ) = (g.enter c caller i context).map φ := by
  unfold enter
  rw [h.offence i, h.site i]
  cases g.offence? c i <;> rfl

theorem walk_map (caller : Location) (context : Context g.Handle) (pending : List g.Handle) :
    g'.walk c' caller (context.map φ) (pending.map φ) =
      (g.walk c caller context pending).map φ := by
  fun_induction walk g c caller context pending with
  | case1 context => rw [List.map_nil, walk]
  | case2 context i pending hvisited ih =>
    rw [List.map_cons, walk, if_pos (h.mem_visited_iff.mpr hvisited), ih]
  | case3 context i pending hnew ih =>
    rw [List.map_cons, walk, if_neg fun hmem => hnew (h.mem_visited_iff.mp hmem), h.enter_map,
      h.parts_map, ← List.map_append, ih]

/-- Both roots stand for the same type. -/
theorem subject_map (i : g.Handle) (visited : List g.Handle) :
    g'.subject c' (φ i) (visited.map φ) =
      ((g.subject c i visited).1.map φ, (g.subject c i visited).2.map φ) := by
  fun_induction subject g c i visited with
  | case1 i visited hvisited => rw [subject, dif_pos (h.mem_map_iff.mpr hvisited)]; rfl
  | case2 i visited hnew hrole =>
    rw [subject, dif_neg fun hmem => hnew (h.mem_map_iff.mp hmem), h.role i, hrole]
    rfl
  | case3 i visited hnew element hrole ih =>
    rw [subject, dif_neg fun hmem => hnew (h.mem_map_iff.mp hmem), h.role i, hrole]
    exact ih
  | case4 i visited hnew arguments hrole =>
    rw [subject, dif_neg fun hmem => hnew (h.mem_map_iff.mp hmem), h.role i, hrole]
    rfl
  | case5 i visited hnew hrole =>
    rw [subject, dif_neg fun hmem => hnew (h.mem_map_iff.mp hmem), h.role i, hrole]
    rfl

theorem memberSite_map (owner : g.Handle) (m : Member g.Handle) :
    g'.memberSite (φ owner) (m.map φ) = g.memberSite owner m := by
  unfold memberSite
  rw [h.name owner]
  rfl

section Judges

variable {owner : g.Handle} (howner : g.JudgesAlike c g' c' φ owner)
include howner

theorem checkClaimed_map (m : Member g.Handle) (index : Int) (context : Context g.Handle) :
    g'.checkClaimed c' (φ owner) (m.map φ) index (context.map φ) =
      (g.checkClaimed c owner m index context).map φ := by
  have hthreshold : g'.thresholdFinding? c' (φ owner) (m.map φ) index =
      g.thresholdFinding? c owner m index := by
    unfold thresholdFinding?
    rw [howner.threshold, h.memberSite_map]
  have haccess : g'.accessFinding? (φ owner) (m.map φ) = g.accessFinding? owner m := by
    unfold accessFinding?
    rw [howner.isValue, h.memberSite_map]
    rfl
  unfold checkClaimed
  rw [hthreshold, haccess]
  cases g.accessFinding? owner m with
  | some d => cases g.thresholdFinding? c owner m index <;> rfl
  | none =>
    cases g.thresholdFinding? c owner m index with
    | some d => exact h.walk_map m.location (context.report d) [m.type]
    | none => exact h.walk_map m.location context [m.type]

theorem checkIndexed_map (m : Member g.Handle) (index : Int) (p : MemberPass g.Handle) :
    g'.checkIndexed c' (φ owner) (m.map φ) index (p.map φ) =
      (g.checkIndexed c owner m index p).map φ := by
  unfold checkIndexed
  rw [MemberPass.record_map]
  -- Both ledgers refuse the claim, or both go on.
  obtain ⟨free, ledger⟩ := p.ledger.record ⟨index, owner, m.type⟩
  cases free with
  | true => exact congrArg (MemberPass.mk · _) (h.checkClaimed_map howner m index p.context)
  | false =>
    simp only [h.memberSite_map]
    rfl

theorem checkMember_map (p : MemberPass g.Handle) (m : Member g.Handle) :
    g'.checkMember c' (φ owner) (p.map φ) (m.map φ) = (g.checkMember c owner p m).map φ := by
  have hform : g'.formFinding? (φ owner) (m.map φ) = g.formFinding? owner m := by
    unfold formFinding?
    rw [howner.isValue, h.memberSite_map]
    rfl
  have hcontract : (m.map φ).isInContract = m.isInContract := rfl
  have hindex : (m.map φ).index = m.index := rfl
  unfold checkMember
  rw [hcontract, hform, hindex, h.memberSite_map]
  cases m.isInContract with
  | false => rfl
  | true =>
    cases g.formFinding? owner m with
    | some d => rfl
    | none =>
      cases m.index with
      | value index => exact h.checkIndexed_map howner m index p
      | _ => rfl

/-- A pass over members goes alike, member by member. -/
theorem foldl_checkMember_map (p : MemberPass g.Handle) (ms : List (Member g.Handle)) :
    (ms.map (·.map φ)).foldl (g'.checkMember c' (φ owner)) (p.map φ) =
      (ms.foldl (g.checkMember c owner) p).map φ := by
  induction ms generalizing p with
  | nil => rfl
  | cons m ms ih =>
    rw [List.map_cons, List.foldl_cons, List.foldl_cons, h.checkMember_map howner, ih]

theorem memberPass_map (ms : List (Member g.Handle)) :
    g'.memberPass c' (φ owner) (ms.map (·.map φ)) = (g.memberPass c owner ms).map φ :=
  h.foldl_checkMember_map howner ⟨{ visited := [owner] }, .empty⟩ ms

section Blocks

variable (hkind : (g.typeAt owner).form.kind.isComposite = true)
  (hkind' : (g'.typeAt (φ owner)).form.kind.isComposite = true) (ms : List (Member g.Handle))
include hkind hkind'

theorem visitedBy_map :
    g'.visitedBy c' (φ owner) (ms.map (·.map φ)) = (g.visitedBy c owner ms).map φ := by
  rw [← (memberPass_passedOver hkind' _).visited, ← (memberPass_passedOver hkind _).visited,
    h.memberPass_map howner]
  rfl

/-- The same is reported at each of the members. -/
theorem memberBlocks_map :
    g'.memberBlocks c' (φ owner) (ms.map (·.map φ)) = g.memberBlocks c owner ms := by
  rw [← (memberPass_passedOver hkind' _).findings, ← (memberPass_passedOver hkind _).findings,
    h.memberPass_map howner]
  rfl

end Blocks
end Judges

theorem layoutFinding?_map {i : g.Handle} (hi : g.ConstructorsAlike g' φ i)
    (caller : Location) (ledger : IndexLedger g.Handle) :
    g'.layoutFinding? caller (φ i) (ledger.map φ) = g.layoutFinding? caller i ledger := by
  unfold layoutFinding? layoutVerdict
  rw [IndexLedger.verdict_map hi]
  cases ledger.verdict (fun j => (g.typeAt j).qualifiedName) (g.typeAt i).constructors with
  | valid => rfl
  | gap index => simp only [LayoutVerdict.map, h.site]
  | noMatchingConstructor expected =>
    simp only [LayoutVerdict.map, h.site, List.map_map, Function.comp_def, h.name]

theorem checkType_map {i : g.Handle} (hi : g.ChecksAlike c g' c' φ i) (caller : Location)
    (context : Context g.Handle) :
    g'.checkType c' caller (φ i) (context.map φ) = (g.checkType c caller i context).map φ := by
  have hpass : g'.checkMembers c' (φ i) (context.map φ) = (g.checkMembers c i context).map φ := by
    rw [checkMembers_eq_foldl_contractMembers, checkMembers_eq_foldl_contractMembers, hi.members]
    exact h.foldl_checkMember_map hi.toJudgesAlike ⟨context, .empty⟩ _
  have hclean (p : MemberPass g.Handle) : (p.map φ).context.isClean = p.context.isClean := rfl
  have hlayout (p : MemberPass g.Handle) :
      g'.layoutFinding? caller (φ i) (p.map φ).ledger = g.layoutFinding? caller i p.ledger :=
    h.layoutFinding?_map hi.constructors caller p.ledger
  unfold checkType
  rw [hi.fault, h.site i, hpass]
  cases (g.typeAt i).fault? with
  | some fault => rfl
  | none =>
    unfold checkLayout
    simp only [hi.isValue, hclean, hlayout]
    split
    · cases g.layoutFinding? caller i (g.checkMembers c i context).ledger <;> rfl
    · rfl

/-- A root and its image have the same findings, in the same order, when the check is told the
same about the types that they stand for. -/
theorem analyze_map {root : g.Handle}
    (hsubject : ∀ i, (g.subject c root []).2 = some i → g.ChecksAlike c g' c' φ i) :
    g'.analyze c' (φ root) = g.analyze c root := by
  have hroots : g'.subject c' (φ root) [] =
      ((g.subject c root []).1.map φ, (g.subject c root []).2.map φ) := h.subject_map root []
  unfold analyze checkRoot
  rw [hroots, h.location root]
  rcases hroot : g.subject c root [] with ⟨visited, none | i⟩
  · rfl
  · have hi : g.ChecksAlike c g' c' φ i := hsubject i (congrArg Prod.snd hroot)
    have hcheck := h.checkType_map hi (g.typeAt root).location { visited }
    exact congrArg (·.findings.toList) hcheck

end WalksAlike
end TypeGraph
end LayoutContract
