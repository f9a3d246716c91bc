import LayoutContract.Proofs.MemberBlocks

/-!
Members behind wrappers. A wrapper that leads to one type, beside types that are exempt, can stand
for that type: a walk that comes to the wrapper comes to the type as well, and on its way it visits
nothing else that it could report. What it has visited more than a walk from the type itself stays
visited, so later walks are compared up to the wrapper and such exempt types.
-/
namespace LayoutContract

/-- The same member with another type. -/
def Member.ofType {ι : Type} (m : Member ι) (i : ι) : Member ι := { m with type := i }

namespace TypeGraph

/-- The type `w` is looked through, and what it leads to is `x` and otherwise exempt. -/
inductive Wraps (g : TypeGraph) (c : Config) (w x : g.Handle) : Prop
  | array (hname : c.isTerminal (g.typeAt w).name = false)
      (hform : (g.typeAt w).form = .arrayType x)
  | wrapper {generic : GenericInstance g.Handle}
      (hname : c.isTerminal (g.typeAt w).name = false)
      (hkind : (g.typeAt w).form.kind.isComposite = true)
      (hgeneric : (g.typeAt w).generic = some generic)
      (hshape : (g.shape w).isWrapper = true) (hmem : x ∈ generic.arguments)
      (hothers : ∀ a ∈ generic.arguments, a ≠ x →
        c.isTerminal (g.typeAt a).name = true ∨ (g.typeAt a).form = .enumType ∨
          (g.typeAt a).form = .typeParameter)

/-- Besides what the one walk has visited, the other has visited `w` and exempt types only. -/
structure VisitedAround (g : TypeGraph) (c : Config) (w : g.Handle)
    (besides visited visited' : List g.Handle) : Prop where
  mem_iff : ∀ x, x ∈ visited' ↔ x ∈ besides ∨ x ∈ visited
  kinds : ∀ x ∈ besides, x = w ∨ g.role c x = .exempt

/-- The same has been reported and claimed by both lists of members. -/
structure PassesAround (g : TypeGraph) (c : Config) (owner w : g.Handle)
    (ms ms' : List (Member g.Handle)) : Prop where
  visited : ∃ besides,
    g.VisitedAround c w besides (g.visitedBy c owner ms) (g.visitedBy c owner ms')
  claims : g.claims owner ms' = g.claims owner ms
  blocks : g.memberBlocks c owner ms' = g.memberBlocks c owner ms

variable {g : TypeGraph} {c : Config} {w x : g.Handle}

section Exempt

variable {i : g.Handle}

theorem role_eq_exempt_iff :
    g.role c i = .exempt ↔ c.isTerminal (g.typeAt i).name = true ∨
      (g.typeAt i).form = .enumType ∨ (g.typeAt i).form = .typeParameter := by
  unfold role
  cases c.isTerminal (g.typeAt i).name with
  | true => simp
  | false => cases (g.typeAt i).form <;> cases g.wrapped? i <;> simp

theorem parts_of_exempt (h : g.role c i = .exempt) : g.parts c i = [] := by
  simp [parts, h]

theorem offence?_of_exempt (h : g.role c i = .exempt) : g.offence? c i = none := by
  simp [offence?, h]

/-- From exempt types a walk comes to no others. -/
theorem exempt_of_mem_discovered {visited pending : List g.Handle}
    (h : ∀ y ∈ pending, y ∈ visited ∨ g.role c y = .exempt) {y : g.Handle}
    (hy : y ∈ g.discovered c visited pending) : g.role c y = .exempt := by
  fun_induction discovered g c visited pending with
  | case1 visited => simp at hy
  | case2 visited z pending hz ih =>
    exact ih (fun a ha => h a (List.mem_cons_of_mem z ha)) hy
  | case3 visited z pending hz ih =>
    have hexempt : g.role c z = .exempt := (h z List.mem_cons_self).resolve_left hz
    rcases List.mem_cons.mp hy with rfl | hy
    · exact hexempt
    · refine ih (fun a ha => ?_) hy
      rw [parts_of_exempt hexempt, List.nil_append] at ha
      exact (h a (List.mem_cons_of_mem z ha)).imp_left (List.mem_cons_of_mem z)

end Exempt

/-- What was pending has been visited in the end. -/
theorem mem_visited_of_mem_pending {visited pending : List g.Handle} (hx : x ∈ pending) :
    x ∈ (g.discovered c visited pending).reverse ++ visited := by
  by_cases hvisited : x ∈ visited
  · exact List.mem_append_right _ hvisited
  · exact List.mem_append_left _
      (List.mem_reverse.mpr (mem_discovered_iff.mpr ⟨x, hx, .refl hvisited⟩))

namespace Wraps

variable (h : g.Wraps c w x)
include h

theorem offence? : g.offence? c w = none := by
  cases h with
  | array hname hform => simp [TypeGraph.offence?, role_eq_array_iff.mpr ⟨hname, hform⟩]
  | wrapper hname hkind hgeneric hshape =>
    have hwrapped := wrapped?_eq_some_iff.mpr ⟨_, hgeneric, hshape, rfl⟩
    simp [TypeGraph.offence?, role_eq_wrapper_iff.mpr ⟨hname, hkind, hwrapped⟩]

theorem mem_parts : x ∈ g.parts c w := by
  cases h with
  | array hname hform => exact mem_parts_iff.mpr (.element hname hform)
  | wrapper hname hkind hgeneric hshape hmem =>
    exact mem_parts_iff.mpr (.argument hname hkind hgeneric hshape hmem)

theorem exempt_of_mem_parts {y : g.Handle} (hy : y ∈ g.parts c w) :
    y = x ∨ g.role c y = .exempt := by
  cases h with
  | array hname hform =>
    have hrole := role_eq_array_iff.mpr ⟨hname, hform⟩
    exact .inl (by simpa [parts, hrole] using hy)
  | @wrapper generic hname hkind hgeneric hshape _ hothers =>
    have hwrapped := wrapped?_eq_some_iff.mpr ⟨_, hgeneric, hshape, rfl⟩
    have hmem : y ∈ generic.arguments := by
      simpa [parts, role_eq_wrapper_iff.mpr ⟨hname, hkind, hwrapped⟩] using hy
    by_cases hyx : y = x
    · exact .inl hyx
    · exact .inr (role_eq_exempt_iff.mpr (hothers y hmem hyx))

end Wraps

namespace VisitedAround

variable {besides visited visited' pending : List g.Handle}
  (h : g.VisitedAround c w besides visited visited') (hw : g.offence? c w = none)

theorem refl (w : g.Handle) (visited : List g.Handle) :
    g.VisitedAround c w [] visited visited := ⟨by simp, by simp⟩

include h

/-- The wrapper keeps its parts only from a walk that comes to it. -/
theorem parts (hapart : w ∉ g.discovered c visited pending) :
    ∀ y ∈ besides, y ∈ g.discovered c visited pending → ∀ z ∈ g.parts c y, z ∈ visited' := by
  intro y hy hfound z hz
  rcases h.kinds y hy with rfl | hexempt
  · exact absurd hfound hapart
  · simp [parts_of_exempt hexempt] at hz

theorem walked (hapart : w ∉ g.discovered c visited pending) :
    g.VisitedAround c w besides ((g.discovered c visited pending).reverse ++ visited)
      ((g.discovered c visited' pending).reverse ++ visited') where
  mem_iff := mem_visited_besides_iff h.mem_iff (h.parts hapart)
  kinds := h.kinds

include hw

theorem findings_eq (hapart : w ∉ g.discovered c visited pending) (caller : Location) :
    (g.discovered c visited' pending).filterMap (g.arrivalFinding? c caller) =
      (g.discovered c visited pending).filterMap (g.arrivalFinding? c caller) := by
  refine filterMap_arrivalFinding?_besides h.mem_iff (h.parts hapart) (fun y hy => ?_) caller
  rcases h.kinds y hy with rfl | hexempt
  · exact hw
  · exact offence?_of_exempt hexempt

end VisitedAround

section Walk

variable {visited : List g.Handle}

theorem filterMap_arrivalFinding?_of_exempt {found : List g.Handle}
    (h : ∀ y ∈ found, g.role c y = .exempt) (caller : Location) :
    found.filterMap (g.arrivalFinding? c caller) = [] := by
  rw [List.filterMap_eq_nil_iff]
  intro y hy
  simp [arrivalFinding?, offence?_of_exempt (h y hy)]

theorem discovered_append_cons (visited before after : List g.Handle) (x : g.Handle) :
    g.discovered c visited (before ++ x :: after) =
      let opened := (g.discovered c visited before).reverse ++ visited
      g.discovered c visited before ++ (g.discovered c opened [x] ++
        g.discovered c ((g.discovered c opened [x]).reverse ++ opened) after) := by
  rw [discovered_append, ← List.singleton_append, discovered_append]

/-- A walk from the wrapper comes to exempt types, then to what a walk from `x` comes to, and then
to exempt types again. -/
theorem Wraps.exists_discovered_eq (h : g.Wraps c w x) (hw : w ∉ visited) :
    ∃ first last, (∀ y ∈ first, g.role c y = .exempt) ∧ (∀ y ∈ last, g.role c y = .exempt) ∧
      g.discovered c visited [w] =
        w :: (first ++ (g.discovered c (first.reverse ++ w :: visited) [x] ++ last)) := by
  obtain ⟨before, after, hparts, hbefore⟩ := List.eq_append_cons_of_mem h.mem_parts
  have hkinds (y : g.Handle) (hy : y ∈ before ++ x :: after) : y = x ∨ g.role c y = .exempt :=
    h.exempt_of_mem_parts (hparts ▸ hy)
  have hfirst : ∀ y ∈ g.discovered c (w :: visited) before, g.role c y = .exempt := by
    intro y hy
    refine exempt_of_mem_discovered (fun a ha => .inr ?_) hy
    exact (hkinds a (List.mem_append_left _ ha)).resolve_left fun heq => hbefore (heq ▸ ha)
  -- Behind `x` it is no longer pending, wherever it stands again.
  have hlast (opened : List g.Handle) (hx : x ∈ opened) :
      ∀ y ∈ g.discovered c opened after, g.role c y = .exempt := by
    intro y hy
    refine exempt_of_mem_discovered (fun a ha => ?_) hy
    rcases hkinds a (List.mem_append_right _ (List.mem_cons_of_mem x ha)) with rfl | hexempt
    · exact .inl hx
    · exact .inr hexempt
  exact ⟨_, _, hfirst, hlast _ (mem_visited_of_mem_pending (List.mem_singleton_self x)), by
    rw [discovered_of_new hw, List.append_nil, hparts, discovered_append_cons]⟩

/-- A walk from the wrapper reports what a walk from `x` reports, and has not visited more than
the wrapper and exempt types besides. -/
theorem Wraps.walked (h : g.Wraps c w x) (hw : w ∉ visited)
    (hapart : w ∉ g.discovered c visited [x]) :
    (∃ besides, g.VisitedAround c w besides ((g.discovered c visited [x]).reverse ++ visited)
      ((g.discovered c visited [w]).reverse ++ visited)) ∧
    ∀ caller, (g.discovered c visited [w]).filterMap (g.arrivalFinding? c caller) =
      (g.discovered c visited [x]).filterMap (g.arrivalFinding? c caller) := by
  obtain ⟨first, last, hfirst, hlast, hfound⟩ := h.exists_discovered_eq hw
  have hopened : g.VisitedAround c w (w :: first) visited (first.reverse ++ w :: visited) := by
    refine ⟨fun y => ?_, fun y hy => (List.mem_cons.mp hy).imp_right (hfirst y)⟩
    simp only [List.mem_append, List.mem_reverse, List.mem_cons]
    tauto
  have hwalked := hopened.walked hapart
  constructor
  · refine ⟨last ++ w :: first, fun y => ?_, fun y hy => ?_⟩
    · have hvisited : (g.discovered c visited [w]).reverse ++ visited =
          last.reverse ++ ((g.discovered c (first.reverse ++ w :: visited) [x]).reverse ++
            (first.reverse ++ w :: visited)) := by
        simp [hfound]
      rw [hvisited, List.mem_append, List.mem_reverse, hwalked.mem_iff, ← or_assoc,
        ← List.mem_append]
    · exact (List.mem_append.mp hy).elim (fun hy => .inr (hlast y hy)) (hwalked.kinds y)
  · intro caller
    have hsilent : g.arrivalFinding? c caller w = none := by simp [arrivalFinding?, h.offence?]
    rw [hfound, List.filterMap_cons_none hsilent, List.filterMap_append, List.filterMap_append,
      filterMap_arrivalFinding?_of_exempt hfirst, filterMap_arrivalFinding?_of_exempt hlast,
      List.nil_append, List.append_nil, hopened.findings_eq h.offence? hapart caller]

end Walk

section Members

variable {owner : g.Handle} {ms ms' : List (Member g.Handle)} {m : Member g.Handle}

/-- Members before are looked back at for their claims only. -/
theorem ruleFindings_congr (h : g.claims owner ms' = g.claims owner ms) (m : Member g.Handle) :
    g.ruleFindings c owner ms' m = g.ruleFindings c owner ms m := by
  unfold ruleFindings
  rw [h]

theorem descendsInto_congr (h : g.claims owner ms' = g.claims owner ms) (m : Member g.Handle) :
    g.descendsInto owner ms' m = g.descendsInto owner ms m := by
  unfold descendsInto
  rw [h]

/-- The type behind the wrapper takes its place at one member. -/
theorem Wraps.passesAround_ofType (h : g.Wraps c w m.type) (ms : List (Member g.Handle))
    (hapart : w ∉ g.visitedBy c owner (ms ++ [m])) :
    g.PassesAround c owner w (ms ++ [m]) (ms ++ [m.ofType w]) := by
  have hdescends : g.descendsInto owner ms (m.ofType w) = g.descendsInto owner ms m := rfl
  have hrules : g.ruleFindings c owner ms (m.ofType w) = g.ruleFindings c owner ms m := rfl
  have hclaim : g.claim? owner (m.ofType w) = g.claim? owner m := rfl
  have hclaims : g.claims owner (ms ++ [m.ofType w]) = g.claims owner (ms ++ [m]) := by
    rw [claims_concat, claims_concat, hclaim]
  cases hdescent : g.descendsInto owner ms m with
  | false =>
    refine ⟨⟨[], ?_⟩, hclaims, ?_⟩
    · rw [visitedBy_concat_of_not_descends hdescent,
        visitedBy_concat_of_not_descends (hdescends.trans hdescent)]
      exact .refl w _
    · simp only [memberBlocks_concat, memberBlock, hrules, hdescends, hdescent]
      rfl
  | true =>
    rw [visitedBy_concat_of_descends hdescent, List.mem_append, List.mem_reverse, not_or] at hapart
    obtain ⟨hvisited, hfindings⟩ := h.walked hapart.2 hapart.1
    refine ⟨?_, hclaims, ?_⟩
    · rw [visitedBy_concat_of_descends hdescent,
        visitedBy_concat_of_descends (hdescends.trans hdescent)]
      exact hvisited
    · have hnested : g.nestedFindings c owner ms (m.ofType w) = g.nestedFindings c owner ms m :=
        hfindings m.location
      simp only [memberBlocks_concat, memberBlock, hrules, hdescends, hnested]

/-- One more member keeps both passes in step. -/
theorem PassesAround.concat (h : g.PassesAround c owner w ms ms') (hw : g.offence? c w = none)
    (m : Member g.Handle) (hapart : w ∉ g.visitedBy c owner (ms ++ [m])) :
    g.PassesAround c owner w (ms ++ [m]) (ms' ++ [m]) := by
  obtain ⟨besides, hvisited⟩ := h.visited
  have hdescends := descendsInto_congr h.claims m
  have hrules := ruleFindings_congr (c := c) h.claims m
  have hclaims : g.claims owner (ms' ++ [m]) = g.claims owner (ms ++ [m]) := by
    rw [claims_concat, claims_concat, h.claims]
  cases hdescent : g.descendsInto owner ms m with
  | false =>
    refine ⟨⟨besides, ?_⟩, hclaims, ?_⟩
    · rw [visitedBy_concat_of_not_descends hdescent,
        visitedBy_concat_of_not_descends (hdescends.trans hdescent)]
      exact hvisited
    · simp only [memberBlocks_concat, memberBlock, h.blocks, hrules, hdescends, hdescent]
      rfl
  | true =>
    rw [visitedBy_concat_of_descends hdescent, List.mem_append, List.mem_reverse, not_or] at hapart
    refine ⟨⟨besides, ?_⟩, hclaims, ?_⟩
    · rw [visitedBy_concat_of_descends hdescent,
        visitedBy_concat_of_descends (hdescends.trans hdescent)]
      exact hvisited.walked hapart.1
    · have hnested : g.nestedFindings c owner ms' m = g.nestedFindings c owner ms m :=
        hvisited.findings_eq hw hapart.1 m.location
      simp only [memberBlocks_concat, memberBlock, h.blocks, hrules, hdescends, hnested]

theorem visitedBy_subset_concat (ms : List (Member g.Handle)) (m : Member g.Handle) :
    g.visitedBy c owner ms ⊆ g.visitedBy c owner (ms ++ [m]) := by
  cases hdescent : g.descendsInto owner ms m with
  | false => rw [visitedBy_concat_of_not_descends hdescent]; exact List.Subset.refl _
  | true => rw [visitedBy_concat_of_descends hdescent]; exact List.subset_append_right _ _

/-- A wrapper that nothing else leads to can stand for the type of a member without a trace. -/
theorem Wraps.passesAround (h : g.Wraps c w m.type) (before after : List (Member g.Handle))
    (hapart : w ∉ g.visitedBy c owner (before ++ m :: after)) :
    g.PassesAround c owner w (before ++ m :: after) (before ++ m.ofType w :: after) := by
  induction after using List.reverseRecOn with
  | nil => exact h.passesAround_ofType before hapart
  | append_singleton after last ih =>
    rw [← List.cons_append, ← List.append_assoc] at hapart ⊢
    have hearlier := ih fun hmem => hapart (visitedBy_subset_concat _ last hmem)
    rw [← List.cons_append, ← List.append_assoc]
    exact hearlier.concat h.offence? last hapart

end Members
end TypeGraph
end LayoutContract
