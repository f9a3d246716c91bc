import LayoutContract.Proofs.AllowedNames
import LayoutContract.Proofs.RootSubject
import LayoutContract.Proofs.WrappedMembers

/-!
Checks with a higher warning threshold. A warning about a large index is the one finding that lets
the check of a member go on, so without it the member claims the same index, leads to the same
types and is judged by the same rules. But the layout of a struct is judged only when nothing is
found at its members, so to lose the last warning can bring a finding about the layout to light.
-/
namespace LayoutContract

def Argument.isIndexBelow (bound : Int) : Argument → Bool
  | index n => n < bound
  | type _ | member _ => false

/-- A warning about a large index that lies below the bound. -/
def Diagnostic.warnsBelow (bound : Int) (d : Diagnostic) : Bool :=
  d.rule = .indexTooLarge ∧ d.arguments.any (·.isIndexBelow bound)

@[simp] theorem Diagnostic.warnsBelow_indexTooLarge (bound : Int) (m : MemberSite) (index : Int) :
    (indexTooLarge m index).warnsBelow bound = decide (index < bound) := by
  simp [warnsBelow, indexTooLarge, ofRule, withMessage, withLabel, withArgument,
    Argument.isIndexBelow]

theorem Diagnostic.warnsBelow_of_rule_ne {bound : Int} {d : Diagnostic}
    (h : d.rule ≠ .indexTooLarge) : d.warnsBelow bound = false := by
  simp [warnsBelow, h]

theorem Diagnostic.warnsBelow_of_subject_ne {bound : Int} {d : Diagnostic}
    (h : d.rule.subject ≠ .member) : d.warnsBelow bound = false :=
  warnsBelow_of_rule_ne fun hrule => h (by rw [hrule]; rfl)

@[simp] theorem TypeFault.warnsBelow_finding (bound : Int) (fault : TypeFault) (caller : Location)
    (t : TypeSite) : (fault.finding caller t).warnsBelow bound = false :=
  Diagnostic.warnsBelow_of_subject_ne (by simp)

/-- What is found once no warning is given below the bound, compared with what was found before:
the same without these warnings, and where the layout was at fault, that and nothing else. -/
structure DropsWarnings (bound : Int) (found found' : List Diagnostic) : Prop where
  others : TypeGraph.withoutLayout (found.filter (!·.warnsBelow bound)) =
    TypeGraph.withoutLayout found'
  layout : ∀ x ∈ found, x.rule.subject = .layout → found = [x] ∧ found' = [x]

namespace TypeGraph

variable {g : TypeGraph} {c : Config} {owner root i : g.Handle} {threshold : Int}

theorem parts_withThreshold (c : Config) (threshold : Int) (i : g.Handle) :
    g.parts (c.withThreshold threshold) i = g.parts c i := rfl

theorem discovered_withThreshold (c : Config) (threshold : Int) (visited pending : List g.Handle) :
    g.discovered (c.withThreshold threshold) visited pending = g.discovered c visited pending :=
  discovered_congr (parts_withThreshold c threshold) visited pending

/-- A member leads to the same offenders. -/
theorem nestedFindings_withThreshold (c : Config) (threshold : Int)
    (earlier : List (Member g.Handle)) (m : Member g.Handle) :
    g.nestedFindings (c.withThreshold threshold) owner earlier m =
      g.nestedFindings c owner earlier m := by
  unfold nestedFindings visitedBy
  rw [discovered_withThreshold, discovered_withThreshold]
  rfl

theorem StandsFor.withThreshold (h : g.StandsFor c root i) (threshold : Int) :
    g.StandsFor (c.withThreshold threshold) root i := by
  induction h with
  | self hname hkind => exact .self hname hkind
  | element hname hform _ ih => exact .element hname hform ih

theorem standsFor_withThreshold_iff :
    g.StandsFor (c.withThreshold threshold) root i ↔ g.StandsFor c root i :=
  ⟨fun h => h.withThreshold c.warningThreshold, fun h => h.withThreshold threshold⟩

theorem EnumeratesMembers.withThreshold (h : g.EnumeratesMembers c root) (threshold : Int) :
    g.EnumeratesMembers (c.withThreshold threshold) root :=
  ⟨h.nonterminal, h.composite, h.annotated, h.constructible⟩

section Raise

variable (h : c.warningThreshold ≤ threshold)
include h

/-- The rules for members find the same but for the warnings below the new threshold. -/
theorem ruleFindings_withThreshold (earlier : List (Member g.Handle)) (m : Member g.Handle) :
    g.ruleFindings (c.withThreshold threshold) owner earlier m =
      (g.ruleFindings c owner earlier m).filter (!·.warnsBelow threshold) := by
  -- Of all the rules, only the one about large indices asks for the threshold.
  unfold ruleFindings
  split
  · rfl
  split
  · rfl
  split
  · rfl
  cases m.index with
  | missing | empty => rfl
  | null => rfl
  | value index =>
    dsimp only
    split
    · rfl
    · rw [List.filter_append]
      congr 1
      · by_cases hnew : threshold ≤ index
        · simp [Config.withThreshold, hnew, h.trans hnew]
        · by_cases hold : c.warningThreshold ≤ index <;> simp [Config.withThreshold, hnew, hold]
      · split <;> rfl

theorem memberBlock_withThreshold (earlier : List (Member g.Handle)) (m : Member g.Handle) :
    g.memberBlock (c.withThreshold threshold) owner earlier m =
      (g.memberBlock c owner earlier m).filter (!·.warnsBelow threshold) := by
  have hnested : (if g.descendsInto owner earlier m then g.nestedFindings c owner earlier m
      else []).filter (!·.warnsBelow threshold) =
        if g.descendsInto owner earlier m then g.nestedFindings c owner earlier m else [] := by
    rw [List.filter_eq_self]
    intro x hx
    split at hx
    · have hsubject := subject_of_mem_nestedFindings hx
      rw [Diagnostic.warnsBelow_of_subject_ne (by simp [hsubject])]
      rfl
    · simp at hx
  rw [memberBlock, memberBlock, List.filter_append, hnested, ruleFindings_withThreshold h,
    nestedFindings_withThreshold]

/-- Member by member the same is found but for the warnings below the new threshold. -/
theorem memberBlocks_withThreshold (ms : List (Member g.Handle)) :
    g.memberBlocks (c.withThreshold threshold) owner ms =
      (g.memberBlocks c owner ms).filter (!·.warnsBelow threshold) := by
  simp only [memberBlocks, List.filter_flatMap, memberBlock_withThreshold h]

theorem dropsWarnings_of_enumerates (hroot : g.StandsFor c root i)
    (hi : g.EnumeratesMembers c i) :
    DropsWarnings threshold (g.analyze c root) (g.analyze (c.withThreshold threshold) root) := by
  rw [analyze_of_standsFor hroot hi,
    analyze_of_standsFor (hroot.withThreshold threshold) (hi.withThreshold threshold),
    memberBlocks_withThreshold h]
  constructor
  · rw [withoutLayout_filter, withoutLayout_append_layoutFinding?,
      withoutLayout_append_layoutFinding?, withoutLayout_filter]
  · intro x hx hsubject
    -- The layout has been judged, so there is nothing at the members to drop.
    have hx := (List.mem_append.mp hx).resolve_left
      fun hx => not_layout_of_mem_memberBlocks hx hsubject
    split at hx
    · rename_i hclean
      have hlayout := Option.mem_toList.mp hx
      have hlayout' := layoutFinding?_congr
        (entries_memberPass_congr c (c.withThreshold threshold) hi.composite
          (g.typeAt i).membersInCheckOrder) (g.typeAt root).location i
      rw [hclean.2, List.filter_nil, if_pos ⟨hclean.1, rfl⟩, if_pos ⟨hclean.1, rfl⟩, hlayout',
        hlayout]
      exact ⟨rfl, rfl⟩
    · simp at hx

/-- Classes and interfaces have no layout to judge. -/
theorem analyze_withThreshold_of_reference (hkind : (g.typeAt root).form.kind.isComposite = true)
    (hform : (g.typeAt root).form ≠ .structType) :
    g.analyze (c.withThreshold threshold) root =
      (g.analyze c root).filter (!·.warnsBelow threshold) := by
  rcases root_cases (c := c) hkind with hname | ⟨hname, fault, hfault⟩ | henumerates
  · have hname' : (c.withThreshold threshold).isTerminal (g.typeAt root).name = true := hname
    rw [analyze_of_terminal hname, analyze_of_terminal hname']
    rfl
  · have hname' : (c.withThreshold threshold).isTerminal (g.typeAt root).name = false := hname
    rw [analyze_of_fault hname hkind hfault, analyze_of_fault hname' hkind hfault]
    simp
  · rw [analyze_eq_memberBlocks_append henumerates,
      analyze_eq_memberBlocks_append (henumerates.withThreshold threshold),
      memberBlocks_withThreshold h, if_neg (fun hlayout => hform hlayout.1),
      if_neg (fun hlayout => hform hlayout.1), List.append_nil, List.append_nil]

/-- A higher warning threshold takes the warnings below it from the findings about a root, and no
others. What it can add is a finding about the layout, but not to a class or an interface; one
that was there before stays as it was. -/
theorem raising_threshold_drops_warnings_only (root : g.Handle) :
    DropsWarnings threshold (g.analyze c root) (g.analyze (c.withThreshold threshold) root) ∧
      ((g.typeAt root).form = .classType ∨ (g.typeAt root).form = .interfaceType →
        g.analyze (c.withThreshold threshold) root =
          (g.analyze c root).filter (!·.warnsBelow threshold)) := by
  constructor
  · by_cases hstands : ∃ i, g.StandsFor c root i
    · obtain ⟨i, hi⟩ := hstands
      rcases hi.fault_or_enumerates with ⟨fault, hfault⟩ | henumerates
      · rw [analyze_of_standsFor_fault hi hfault,
          analyze_of_standsFor_fault (hi.withThreshold threshold) hfault]
        exact ⟨by simp, by simp⟩
      · exact dropsWarnings_of_enumerates h hi henumerates
    · rw [not_exists] at hstands
      rw [analyze_of_not_standsFor hstands,
        analyze_of_not_standsFor fun i hi => hstands i (standsFor_withThreshold_iff.mp hi)]
      exact ⟨rfl, by simp⟩
  · intro hform
    apply analyze_withThreshold_of_reference h <;> rcases hform with hform | hform <;>
      simp [hform, TypeForm.kind, TypeKind.isComposite]

end Raise

/-- A gauge that no constructor can set, and a meter that leaves out indices. -/
def gauges : GraphDescription where
  types := [
    TypeDescription.ofKind .structType "Gauge"
      |>.asFormattable
      |>.withMember (((MemberDescription.field "Low" "int").indexed 0).declaredAt { line := 2 })
      |>.withMember (((MemberDescription.field "High" "long").indexed 1).declaredAt { line := 3 }),
    TypeDescription.ofKind .classType "Meter"
      |>.asFormattable
      |>.withConstructor []
      |>.withMember (propertyAt 5 "Reading" "int" 1)
      |>.withMember (propertyAt 6 "Total" "long" 4)]

def gaugesGraph : TypeGraph := (build gauges []).toOption.get (by decide +kernel)

def gauge : gaugesGraph.Handle := (gaugesGraph.lookup "Gauge").get (by decide +kernel)

def meter : gaugesGraph.Handle := (gaugesGraph.lookup "Meter").get (by decide +kernel)

/-- Without its warning the gauge is found to lack a constructor, and the meter keeps one of two
warnings. -/
theorem gauge_lacks_constructor_without_warnings :
    (Config.withThreshold {} 1).warningThreshold ≤ 3 ∧
      gaugesGraph.analyze (.withThreshold {} 1) gauge =
        [.indexTooLarge ⟨"Gauge", "High", { line := 3 }⟩ 1] ∧
      gaugesGraph.analyze (.withThreshold {} 3) gauge =
        [.layoutNeedsMatchingConstructor {} ⟨"Gauge", {}⟩ ["int", "long"]] ∧
      DropsWarnings 3 (gaugesGraph.analyze (.withThreshold {} 1) gauge)
        (gaugesGraph.analyze (.withThreshold {} 3) gauge) ∧
      gaugesGraph.analyze (.withThreshold {} 1) meter =
        [.indexTooLarge ⟨"Meter", "Reading", { line := 5 }⟩ 1,
          .indexTooLarge ⟨"Meter", "Total", { line := 6 }⟩ 4] ∧
      gaugesGraph.analyze (.withThreshold {} 3) meter =
        [.indexTooLarge ⟨"Meter", "Total", { line := 6 }⟩ 4] := by
  have hraised : (Config.withThreshold {} 1).warningThreshold ≤ 3 := by decide
  have hmeter : gaugesGraph.analyze (.withThreshold {} 1) meter =
      [.indexTooLarge ⟨"Meter", "Reading", { line := 5 }⟩ 1,
        .indexTooLarge ⟨"Meter", "Total", { line := 6 }⟩ 4] := by
    decide +kernel
  have hclass : (gaugesGraph.typeAt meter).form = .classType := by decide +kernel
  refine ⟨hraised, by decide +kernel, by decide +kernel,
    (raising_threshold_drops_warnings_only hraised gauge).1, hmeter, ?_⟩
  have hdropped := (raising_threshold_drops_warnings_only hraised meter).2 (.inl hclass)
  rw [hmeter] at hdropped
  exact hdropped.trans (by simp)

end TypeGraph
end LayoutContract
