import LayoutContract.Proofs.MemberBlocks

/-!
The type that a root stands for. A class, interface or struct stands for itself, and an array for
the type at the end of the chain of its elements. When the members of that type come to be
checked, the arrays on the way to it have been visited already. They hide nothing: an array has no
findings of its own, and what it leads to has been visited as well or is on the list itself.
-/
namespace LayoutContract.TypeGraph

/-- From `i`, the elements of arrays lead to the class, interface or struct `k`, with no terminal
name on the way. -/
inductive StandsFor (g : TypeGraph) (c : Config) : g.Handle → g.Handle → Prop
  | self {i : g.Handle} (hname : c.isTerminal (g.typeAt i).name = false)
      (hkind : (g.typeAt i).form.kind.isComposite = true) : StandsFor g c i i
  | element {i j k : g.Handle} (hname : c.isTerminal (g.typeAt i).name = false)
      (hform : (g.typeAt i).form = .arrayType j) (h : StandsFor g c j k) : StandsFor g c i k

/-- Each of the types is an array whose element is one of them or `i`. -/
def ArraysTowards (g : TypeGraph) (c : Config) (i : g.Handle) (arrays : List g.Handle) : Prop :=
  ∀ x ∈ arrays, ∃ j, g.role c x = .array j ∧ (j = i ∨ j ∈ arrays)

/-- The arrays have been visited besides, and so has `i` in any case. -/
structure VisitedBeyond {g : TypeGraph} (i : g.Handle) (arrays visited visited' : List g.Handle) :
    Prop where
  reached : i ∈ visited
  mem_iff : ∀ x, x ∈ visited' ↔ x ∈ arrays ∨ x ∈ visited

/-- The same outcome, with the arrays visited besides. -/
structure PassesBeyond {g : TypeGraph} (i : g.Handle) (arrays : List g.Handle)
    (p p' : MemberPass g.Handle) : Prop where
  visited : VisitedBeyond i arrays p.context.visited p'.context.visited
  findings : p'.context.findings.toList = p.context.findings.toList
  ledger : p'.ledger = p.ledger

variable {g : TypeGraph} {c : Config} {root i : g.Handle}
  {arrays visited visited' pending : List g.Handle}

/-- Classes, interfaces and structs stand for themselves only. -/
theorem StandsFor.eq_root (h : g.StandsFor c root i)
    (hkind : (g.typeAt root).form.kind.isComposite = true) : i = root := by
  cases h with
  | self => rfl
  | element _ hform => simp [hform, TypeForm.kind, TypeKind.isComposite] at hkind

theorem role_ne_array_of_composite {j : g.Handle}
    (hkind : (g.typeAt i).form.kind.isComposite = true) : g.role c i ≠ .array j := by
  intro h
  simp [(role_eq_array_iff.mp h).2, TypeForm.kind, TypeKind.isComposite] at hkind

/-- Among arrays that only lead to each other, a chain does not end. -/
theorem StandsFor.not_mem_of_closed (h : g.StandsFor c root i)
    (hclosed : ∀ x ∈ arrays, ∃ j, g.role c x = .array j ∧ j ∈ arrays) : root ∉ arrays := by
  induction h with
  | self _ hkind =>
    intro hmem
    obtain ⟨j, hrole, _⟩ := hclosed _ hmem
    exact role_ne_array_of_composite hkind hrole
  | element hname hform _ ih =>
    intro hmem
    obtain ⟨j, hrole, hj⟩ := hclosed _ hmem
    rw [role_eq_array_iff.mpr ⟨hname, hform⟩, Role.array.injEq] at hrole
    exact ih (hrole ▸ hj)

/-- A chain that ends has no type twice. -/
theorem StandsFor.not_mem_arrays (h : g.StandsFor c root i)
    (harrays : g.ArraysTowards c root arrays) : root ∉ arrays := by
  intro hmem
  refine h.not_mem_of_closed (fun x hx => ?_) hmem
  obtain ⟨j, hrole, hj⟩ := harrays x hx
  exact ⟨j, hrole, hj.elim (fun heq => heq ▸ hmem) id⟩

theorem subject_after_arrays (h : g.StandsFor c root i)
    (harrays : g.ArraysTowards c root arrays) :
    ∃ chain, g.ArraysTowards c i chain ∧ g.subject c root arrays = (i :: chain, some i) := by
  induction h generalizing arrays with
  | @self i hname hkind =>
    refine ⟨arrays, harrays, ?_⟩
    rw [subject, dif_neg ((StandsFor.self hname hkind).not_mem_arrays harrays),
      role_of_composite hname hkind]
    cases g.wrapped? i <;> rfl
  | @element root j i hname hform h ih =>
    have hrole : g.role c root = .array j := role_eq_array_iff.mpr ⟨hname, hform⟩
    have hlonger : g.ArraysTowards c j (root :: arrays) := by
      intro x hx
      rcases List.mem_cons.mp hx with rfl | hx
      · exact ⟨j, hrole, .inl rfl⟩
      · obtain ⟨k, hk, hnext⟩ := harrays x hx
        exact ⟨k, hk, .inr (List.mem_cons.mpr hnext)⟩
    obtain ⟨chain, hchain, hsubject⟩ := ih hlonger
    refine ⟨chain, hchain, ?_⟩
    rw [subject, dif_neg ((StandsFor.element hname hform h).not_mem_arrays harrays), hrole]
    exact hsubject

/-- The way from a root to the type that it stands for is made of arrays. -/
theorem subject_of_standsFor (h : g.StandsFor c root i) :
    ∃ chain, g.ArraysTowards c i chain ∧ g.subject c root [] = (i :: chain, some i) :=
  subject_after_arrays h (by simp [ArraysTowards])

theorem standsFor_of_subject (h : (g.subject c root visited).2 = some i) :
    g.StandsFor c root i := by
  fun_induction subject g c root visited with
  | case1 root visited hvisited => simp at h
  | case2 root visited hnew hrole => simp at h
  | case3 root visited hnew element hrole ih =>
    obtain ⟨hname, hform⟩ := role_eq_array_iff.mp hrole
    exact .element hname hform (ih h)
  | case4 root visited hnew arguments hrole =>
    obtain ⟨hname, hkind, _⟩ := role_eq_wrapper_iff.mp hrole
    exact Option.some.inj h ▸ .self hname hkind
  | case5 root visited hnew hrole =>
    obtain ⟨hname, hkind, _⟩ := role_eq_contract_iff.mp hrole
    exact Option.some.inj h ▸ .self hname hkind

theorem ArraysTowards.offence? (harrays : g.ArraysTowards c i arrays) {x : g.Handle}
    (hx : x ∈ arrays) : g.offence? c x = none := by
  obtain ⟨j, hrole, _⟩ := harrays x hx
  simp [TypeGraph.offence?, hrole]

namespace VisitedBeyond

section Walk

variable (harrays : g.ArraysTowards c i arrays) (h : VisitedBeyond i arrays visited visited')
include harrays h

theorem parts_visited {x : g.Handle} (hx : x ∈ arrays) : ∀ y ∈ g.parts c x, y ∈ visited' := by
  obtain ⟨j, hrole, hj⟩ := harrays x hx
  intro y hy
  obtain rfl : y = j := by simpa [parts, hrole] using hy
  rw [h.mem_iff]
  exact hj.elim (fun heq => .inr (heq ▸ h.reached)) .inl

/-- Nothing is missed by passing over the arrays. -/
theorem findings_eq (pending : List g.Handle) (caller : Location) :
    (g.discovered c visited' pending).filterMap (g.arrivalFinding? c caller) =
      (g.discovered c visited pending).filterMap (g.arrivalFinding? c caller) :=
  filterMap_arrivalFinding?_besides h.mem_iff (fun _ hx _ => h.parts_visited harrays hx)
    (fun _ hx => harrays.offence? hx) caller

theorem walked (pending : List g.Handle) :
    VisitedBeyond i arrays ((g.discovered c visited pending).reverse ++ visited)
      ((g.discovered c visited' pending).reverse ++ visited') where
  reached := List.mem_append_right _ h.reached
  mem_iff := mem_visited_besides_iff h.mem_iff fun _ hx _ => h.parts_visited harrays hx

end Walk
end VisitedBeyond

namespace PassesBeyond

variable {owner : g.Handle} {p p' : MemberPass g.Handle} (harrays : g.ArraysTowards c i arrays)
include harrays

theorem checkClaimed (m : Member g.Handle) (index : Int) (h : PassesBeyond i arrays p p')
    (ledger : IndexLedger g.Handle) :
    PassesBeyond i arrays ⟨g.checkClaimed c owner m index p.context, ledger⟩
      ⟨g.checkClaimed c owner m index p'.context, ledger⟩ := by
  cases haccess : g.accessFinding? owner m with
  | some d =>
    refine ⟨?_, ?_, rfl⟩
    · simpa only [(checkClaimed_of_access haccess _).1] using h.visited
    · simp only [(checkClaimed_of_access haccess _).2, h.findings]
  | none =>
    refine ⟨?_, ?_, rfl⟩
    · simpa only [(checkClaimed_of_no_access haccess _).1] using h.visited.walked harrays [m.type]
    · simp only [(checkClaimed_of_no_access haccess _).2, h.findings,
        h.visited.findings_eq harrays]

variable (hkind : (g.typeAt owner).form.kind.isComposite = true)
include hkind

/-- One more member keeps the outcome the same. -/
theorem checkMember (h : PassesBeyond i arrays p p') (m : Member g.Handle) :
    PassesBeyond i arrays (g.checkMember c owner p m) (g.checkMember c owner p' m) := by
  cases hclaim : g.claim? owner m with
  | none =>
    rw [checkMember_of_unclaimed hkind [] hclaim, checkMember_of_unclaimed hkind [] hclaim]
    refine ⟨h.visited, ?_, h.ledger⟩
    simp [Context.reportAll, h.findings]
  | some index =>
    rw [checkMember_of_claim hkind hclaim, checkMember_of_claim hkind hclaim]
    unfold checkIndexed
    rw [h.ledger]
    obtain ⟨free, ledger⟩ := p.ledger.record ⟨index, owner, m.type⟩
    cases free with
    | true => exact h.checkClaimed harrays m index ledger
    | false =>
      refine ⟨h.visited, ?_, h.ledger⟩
      simp [MemberPass.report, Context.report, h.findings]

theorem foldl_checkMember (h : PassesBeyond i arrays p p') (ms : List (Member g.Handle)) :
    PassesBeyond i arrays (ms.foldl (g.checkMember c owner) p)
      (ms.foldl (g.checkMember c owner) p') := by
  induction ms generalizing p p' with
  | nil => exact h
  | cons m ms ih => exact ih (h.checkMember harrays hkind m)

end PassesBeyond

theorem StandsFor.nonterminal (h : g.StandsFor c root i) :
    c.isTerminal (g.typeAt i).name = false := by
  induction h with
  | self hname _ => exact hname
  | element _ _ _ ih => exact ih

theorem StandsFor.composite (h : g.StandsFor c root i) :
    (g.typeAt i).form.kind.isComposite = true := by
  induction h with
  | self _ hkind => exact hkind
  | element _ _ _ ih => exact ih

/-- The type that a root stands for is at fault or has its members enumerated. -/
theorem StandsFor.fault_or_enumerates (h : g.StandsFor c root i) :
    (∃ fault, (g.typeAt i).fault? = some fault) ∨ g.EnumeratesMembers c i := by
  rcases root_cases (c := c) h.composite with hname | ⟨-, hfault⟩ | henumerates
  · simp [h.nonterminal] at hname
  · exact .inl hfault
  · exact .inr henumerates

/-- Nothing is found about a root that leads to no class, interface or struct. -/
theorem analyze_of_not_standsFor (h : ∀ i, ¬ g.StandsFor c root i) : g.analyze c root = [] := by
  unfold analyze checkRoot
  rcases hsubject : g.subject c root [] with ⟨visited, none | i⟩
  · rfl
  · exact absurd (standsFor_of_subject (congrArg Prod.snd hsubject)) (h i)

/-- A fault of the type that a root stands for is shown at the place of the root. -/
theorem analyze_of_standsFor_fault (h : g.StandsFor c root i) {fault : TypeFault}
    (hfault : (g.typeAt i).fault? = some fault) :
    g.analyze c root = [fault.finding (g.typeAt root).location (g.site i)] := by
  obtain ⟨chain, -, hsubject⟩ := subject_of_standsFor h
  unfold analyze checkRoot
  rw [hsubject]
  simp only [checkType, hfault]
  rfl

/-- A root is found to be what its members are found to be when the type that it stands for is a
root itself. Only a finding about the layout is shown at the place of the root. -/
theorem analyze_of_standsFor (h : g.StandsFor c root i) (hi : g.EnumeratesMembers c i) :
    g.analyze c root =
      g.memberBlocks c i (g.typeAt i).membersInCheckOrder ++
        if (g.typeAt i).form = .structType ∧
            g.memberBlocks c i (g.typeAt i).membersInCheckOrder = [] then
          (g.layoutFinding? (g.typeAt root).location i
            (g.memberPass c i (g.typeAt i).membersInCheckOrder).ledger).toList
        else [] := by
  obtain ⟨chain, hchain, hsubject⟩ := subject_of_standsFor h
  have hstart : PassesBeyond i chain ⟨{ visited := [i] }, .empty⟩
      ⟨{ visited := i :: chain }, .empty⟩ :=
    ⟨⟨List.mem_singleton_self i, fun x => by simp [or_comm]⟩, rfl, rfl⟩
  have hpass : PassesBeyond i chain (g.memberPass c i (g.typeAt i).membersInCheckOrder)
      (g.checkMembers c i { visited := i :: chain }) :=
    hstart.foldl_checkMember hchain hi.composite _
  unfold analyze checkRoot
  rw [hsubject]
  simp only [checkType, hi.fault?_eq_none]
  rw [checkLayout_findings hi.composite, hpass.findings, hpass.ledger,
    (memberPass_passedOver hi.composite _).findings]

end LayoutContract.TypeGraph
