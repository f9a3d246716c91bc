import LayoutContract.Proofs.HeldGraphs

/-!
The check of a graph by calls that are nested in each other. A graph is a host of its own types, so
nothing is foreign in it, and the calls end: every arrival at a type leaves fewer types to come to,
whatever was visited between a call and the next one beside it. The calls are therefore nested at
most once for each type and once more, and with that much room they find what the check finds that
works off a list of pending types.
-/
namespace LayoutContract

open MemberDescription (property)

theorem Context.map_id {ι : Type} (context : Context ι) : context.map id = context := by
  simp [Context.map]

namespace TypeGraph

/-- A graph answers for its own handles. -/
def source (g : TypeGraph) : TypeSource g.Handle := ⟨fun i => some (g.typeAt i)⟩

theorem heldBy_source (g : TypeGraph) : g.HeldBy g.source id where
  injective := Function.injective_id
  find _ := congrArg some (TypeDef.map_id _).symm

/-- A call does what the check does, if there is more room than there are types left. -/
theorem verifyType_source (g : TypeGraph) (c : Config) {depth : Nat} (nested : Bool)
    (caller : Location) {context : Context g.Handle} (i : g.Handle)
    (h : g.unvisited context.visited < depth) :
    g.source.verifyType c depth nested caller context i =
      .ok (g.comeTo c nested caller context i) := by
  have hgives := g.heldBy_source.verifyType_gives (c := c) depth nested caller context i
  rw [Context.map_id, Context.map_id] at hgives
  exact hgives.eq_ok (Nat.not_le_of_lt h)

theorem checkRoot_source (g : TypeGraph) (c : Config) {depth : Nat} (root : g.Handle)
    (h : g.size < depth) : g.source.checkRoot c depth root = .ok (g.checkRoot c root) := by
  have hgives := g.heldBy_source.checkRoot_gives (c := c) depth root
  rw [Context.map_id] at hgives
  exact hgives.eq_ok (Nat.not_le_of_lt h)

theorem visited_checkRoot_nodup (g : TypeGraph) (c : Config) (root : g.Handle) :
    (g.checkRoot c root).visited.Nodup :=
  (growsTo_comeTo false (g.typeAt root).location {} root).nodup List.nodup_nil

/-- Every check ends. An arrival at a type leaves fewer types to come to, and so does every call
that begins with an arrival; no type is arrived at twice in the check of a root; and room for one
call more than there are types is enough for all the calls that are nested in each other. What is
found does not depend on how much more room there is, and too little is never mistaken for less to
find. -/
theorem nested_calls_bounded_by_types (g : TypeGraph) (c : Config) :
    (∀ (context : Context g.Handle) (i : g.Handle), (context.firstVisit i).1 = true →
      g.unvisited (context.firstVisit i).2.visited < g.unvisited context.visited) ∧
    (∀ (depth : Nat) (nested : Bool) (caller : Location) (context : Context g.Handle)
        (i : g.Handle), g.unvisited context.visited < depth →
      ∃ context', g.source.verifyType c depth nested caller context i = .ok context' ∧
        context.GrowsTo context' ∧
        ((context.firstVisit i).1 = true → (context.visit i).GrowsTo context' ∧
          g.unvisited context'.visited < g.unvisited context.visited)) ∧
    ∀ root : g.Handle, (g.checkRoot c root).visited.Nodup ∧
      (∀ depth, g.size < depth →
        g.source.checkRoot c depth root = .ok (g.checkRoot c root) ∧
        g.source.analyze c depth root = .ok (g.analyze c root)) ∧
      ∀ depth stop, g.source.analyze c depth root = .error stop →
        stop = .tooDeep ∧ depth ≤ g.size := by
  refine ⟨fun context i h => unvisited_firstVisit_lt h, ?_, fun root =>
    ⟨g.visited_checkRoot_nodup c root, ?_, ?_⟩⟩
  · intro depth nested caller context i hroom
    refine ⟨_, g.verifyType_source c nested caller i hroom, growsTo_comeTo _ _ _ _, fun hfirst => ?_⟩
    have hi : i ∉ context.visited := by
      intro hmem
      simp [Context.firstVisit_of_visited hmem] at hfirst
    have hgrows := growsTo_comeTo_of_new (c := c) nested caller hi
    exact ⟨hgrows, (unvisited_le_of_growsTo hgrows).trans_lt (g.unvisited_cons_lt hi)⟩
  · intro depth hroom
    have hroot := g.checkRoot_source c root hroom
    exact ⟨hroot, by rw [TypeSource.analyze, hroot]; rfl⟩
  · intro depth stop hstop
    rcases g.heldBy_source.analyze_gives (c := c) depth root with hok | ⟨herror, hcramped⟩
    · cases hok.symm.trans hstop
    · cases herror.symm.trans hstop
      exact ⟨rfl, hcramped⟩

/-- An array of itself, a list of itself and an array and a list of each other, around a reef that
is reached through all of them. -/
def eddies : GraphDescription where
  types := [
    TypeDescription.ofKind .classType "Basin"
      |>.asFormattable
      |>.withConstructor []
      |>.withMember (((property "Whirl" "Whirl[]").indexed 0).asOverridable)
      |>.withMember (((property "Spiral" "Spiral").indexed 1).asOverridable.declaredAt { line := 2 })
      |>.withMember (((property "Tide" "Tide[]").indexed 2).asOverridable),
    .array "Whirl[]" "Whirl[]",
    .generic "Spiral" .classType "System.Tuple<,,>" ["Spiral", "Tide[]", "Reef"],
    .array "Tide[]" "Ebb",
    .generic "Ebb" .interfaceType "System.Collections.Generic.IList<>" ["Tide[]"],
    .ofKind .classType "Reef"]

def eddiesGraph : TypeGraph := (build eddies []).toOption.get (by decide +kernel)

def basin : eddiesGraph.Handle := (eddiesGraph.lookup "Basin").get (by decide +kernel)

/-- The calls end in all the circles around the reef, and it is found once. There is no end with
room for only three of them. -/
theorem reef_found_in_eddies :
    build eddies [] = .ok eddiesGraph ∧
      eddiesGraph.size < 100 ∧
      (Context.firstVisit ({} : Context eddiesGraph.Handle) basin).1 = true ∧
      eddiesGraph.unvisited [basin] < eddiesGraph.unvisited [] ∧
      (∃ context', eddiesGraph.source.verifyType {} 100 true { line := 2 } {} basin =
          .ok context' ∧
        (Context.visit {} basin).GrowsTo context') ∧
      (eddiesGraph.checkRoot {} basin).visited.Nodup ∧
      eddiesGraph.source.analyze {} 3 basin = .error .tooDeep ∧
      eddiesGraph.source.analyze {} 100 basin =
        .ok [.typeMustBeAnnotated { line := 2 } ⟨"Reef", {}⟩] := by
  have hg : build eddies [] = .ok eddiesGraph := rfl
  have hsize : eddiesGraph.size < 100 := by decide +kernel
  have hfirst : (Context.firstVisit ({} : Context eddiesGraph.Handle) basin).1 = true := rfl
  have hroom : eddiesGraph.unvisited [] < 100 := by rwa [unvisited_nil]
  have hfound : eddiesGraph.analyze {} basin =
      [.typeMustBeAnnotated { line := 2 } ⟨"Reef", {}⟩] := by
    decide +kernel
  obtain ⟨harrival, hcall, hroot⟩ := nested_calls_bounded_by_types eddiesGraph {}
  obtain ⟨hnodup, hends, -⟩ := hroot basin
  obtain ⟨context', hok, -, hgrows⟩ := hcall 100 true { line := 2 } {} basin hroom
  refine ⟨hg, hsize, hfirst, harrival {} basin hfirst, ⟨context', hok, (hgrows hfirst).1⟩, hnodup,
    rfl, ?_⟩
  rw [(hends 100 hsize).2, hfound]

end TypeGraph
end LayoutContract
