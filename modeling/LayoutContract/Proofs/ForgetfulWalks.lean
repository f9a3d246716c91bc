import LayoutContract.Proofs.AllowedNames
import LayoutContract.Proofs.FirstOccurrences
import LayoutContract.Proofs.NestedOffenders
import Mathlib.Data.Fintype.EquivFin
import Mathlib.Logic.Relation
import Mathlib.Order.RelClasses

/-!
Walks that do not remember where they have been. Such a walk comes to a type as often as a path
leads to it, and it ends where no type on its way unwraps to itself. Then it comes to the types
for the first time in the order of the walk that enters each type once, and at the same member.
So to remember the visited types takes nothing from the findings but repetitions.
-/
namespace LayoutContract

namespace TypeGraph

variable (g : TypeGraph) (c : Config)

/-- A walk without a memory comes from the pending types to the given ones in their order: to a
type, to all that is behind its parts, and then to what is pending after it. -/
inductive Unfolds : List g.Handle → List g.Handle → Prop
  | done : Unfolds [] []
  | visit {i : g.Handle} {pending behind later : List g.Handle}
      (hbehind : Unfolds (g.parts c i) behind) (hlater : Unfolds pending later) :
      Unfolds (i :: pending) (i :: (behind ++ later))

/-- No type that unwrapping comes to from `i` unwraps to itself. -/
def AcyclicBehind (i : g.Handle) : Prop :=
  ∀ j, Relation.ReflTransGen (g.Unwraps c) i j → ¬ Relation.TransGen (g.Unwraps c) j j

/-- What is reported when the types behind each member are those of its unfolding. -/
def unfoldedFindings (unfolding : g.Handle → List g.Handle) (ms : List (Member g.Handle)) :
    List Diagnostic :=
  ms.flatMap fun m => (unfolding m.type).filterMap (g.arrivalFinding? c m.location)

variable {g c} {i j : g.Handle} {pending found found' : List g.Handle}

theorem reaches_nil_iff : g.Reaches c [] i j ↔ Relation.ReflTransGen (g.Unwraps c) i j := by
  constructor
  · intro h
    induction h with
    | refl => exact .refl
    | tail _ hstep _ ih => exact ih.tail hstep
  · intro h
    induction h with
    | refl => exact .refl List.not_mem_nil
    | tail _ hstep ih => exact .tail ih hstep List.not_mem_nil

namespace AcyclicBehind

theorem of_unwraps (h : g.AcyclicBehind c i) (hij : g.Unwraps c i j) : g.AcyclicBehind c j :=
  fun k hjk => h k (.head hij hjk)

theorem of_mem_parts (h : g.AcyclicBehind c i) : ∀ j ∈ g.parts c i, g.AcyclicBehind c j :=
  fun _ hj => h.of_unwraps (mem_parts_iff.mp hj)

/-- Where each part of a type comes behind the type, there is no cycle. -/
theorem of_ascending (h : ∀ i, ∀ j ∈ g.parts c i, i < j) (i : g.Handle) : g.AcyclicBehind c i := by
  intro j _ hcycle
  have hlt : ∀ {k l : g.Handle}, Relation.TransGen (g.Unwraps c) k l → k < l := by
    intro k l hkl
    induction hkl with
    | single hstep => exact h _ _ (mem_parts_iff.mpr hstep)
    | tail _ hstep ih => exact ih.trans (h _ _ (mem_parts_iff.mpr hstep))
  exact lt_irrefl j (hlt hcycle)

/-- A type that is not on a cycle is not discovered behind its own parts. -/
theorem not_mem_discovered_parts (h : g.AcyclicBehind c i) :
    i ∉ g.discovered c [] (g.parts c i) := by
  intro hmem
  obtain ⟨j, hj, hreach⟩ := mem_discovered_iff.mp hmem
  exact h i .refl (.head' (mem_parts_iff.mp hj) (reaches_nil_iff.mp hreach))

/-- What is behind such a type is discovered as if the type had not been visited. -/
theorem discovered_eq_cons (h : g.AcyclicBehind c i) :
    g.discovered c [] [i] = i :: g.discovered c [] (g.parts c i) := by
  have hmem (x : g.Handle) : x ∈ [i] ↔ x ∈ [i] ∨ x ∈ ([] : List g.Handle) := by simp
  have hparts : ∀ x ∈ [i], x ∈ g.discovered c [] (g.parts c i) → ∀ y ∈ g.parts c x, y ∈ [i] := by
    intro x hx hfound
    rw [List.mem_singleton.mp hx] at hfound
    exact absurd hfound h.not_mem_discovered_parts
  rw [discovered_of_new List.not_mem_nil, List.append_nil, discovered_eq_filter hmem hparts,
    List.filter_eq_self.mpr]
  intro j hj
  have hne : j ≠ i := fun heq => h.not_mem_discovered_parts (heq ▸ hj)
  simpa using hne

end AcyclicBehind

namespace Unfolds

/-- There is one way to unfold. -/
theorem unique (h : g.Unfolds c pending found) (h' : g.Unfolds c pending found') :
    found' = found := by
  induction h generalizing found' with
  | done =>
    cases h'
    rfl
  | visit _ _ ihbehind ihlater =>
    cases h' with
    | visit hbehind hlater => rw [ihbehind hbehind, ihlater hlater]

theorem exists_of_parts (h : ∀ i ∈ pending, ∃ behind, g.Unfolds c (g.parts c i) behind) :
    ∃ found, g.Unfolds c pending found := by
  induction pending with
  | nil => exact ⟨[], .done⟩
  | cons i pending ih =>
    obtain ⟨⟨behind, hbehind⟩, hpending⟩ := List.forall_mem_cons.mp h
    obtain ⟨later, hlater⟩ := ih hpending
    exact ⟨_, .visit hbehind hlater⟩

/-- The walk comes to an end where there is no cycle. -/
theorem exists_of_acyclic (h : ∀ i ∈ pending, g.AcyclicBehind c i) :
    ∃ found, g.Unfolds c pending found := by
  -- From types without a cycle behind them, unwrapping descends.
  let descends (j i : g.Handle) : Prop :=
    g.AcyclicBehind c i ∧ Relation.TransGen (g.Unwraps c) i j
  have : IsTrans g.Handle descends := ⟨fun _ _ _ hkj hji => ⟨hji.1, hji.2.trans hkj.2⟩⟩
  have : Std.Irrefl descends := ⟨fun i hi => hi.1 i .refl hi.2⟩
  have hwf : WellFounded descends := Finite.wellFounded_of_trans_of_irrefl descends
  have hparts (i : g.Handle) :
      g.AcyclicBehind c i → ∃ behind, g.Unfolds c (g.parts c i) behind := by
    induction i using hwf.induction with
    | h i ih =>
      intro hi
      refine exists_of_parts fun j hj => ?_
      exact ih j ⟨hi, .single (mem_parts_iff.mp hj)⟩ (hi.of_mem_parts j hj)
  exact exists_of_parts fun i hi => hparts i (h i hi)

/-- To enter each type once comes to the same types, in the order of their first visits. -/
theorem discovered_eq (h : g.Unfolds c pending found)
    (hacyclic : ∀ i ∈ pending, g.AcyclicBehind c i) :
    g.discovered c [] pending = firstOfEach id found := by
  induction h with
  | done => exact discovered_nil
  | @visit i pending behind later _ _ ihbehind ihlater =>
    obtain ⟨hi, hpending⟩ := List.forall_mem_cons.mp hacyclic
    have hparts := ihbehind hi.of_mem_parts
    have hnew : i ∉ behind := fun hmem =>
      hi.not_mem_discovered_parts (hparts ▸ mem_firstOfEach_id.mpr hmem)
    have hfirst : g.discovered c [] [i] = firstOfEach id (i :: behind) := by
      rw [hi.discovered_eq_cons, hparts, firstOfEach_cons_of_not_mem hnew]
    rw [← List.singleton_append, discovered_append_eq_filter, hfirst, ihlater hpending,
      ← List.cons_append, firstOfEach_append]
    simp only [mem_firstOfEach_id, List.map_id, id_eq]

theorem mem_iff (h : g.Unfolds c pending found)
    (hacyclic : ∀ i ∈ pending, g.AcyclicBehind c i) :
    j ∈ found ↔ ∃ i ∈ pending, g.Reaches c [] i j := by
  rw [← mem_firstOfEach_id, ← h.discovered_eq hacyclic, mem_discovered_iff]

end Unfolds

/-- Findings about types have the same arguments when they are about the same type. -/
theorem arguments_arrivalFinding?_eq_iff
    (hnames : Function.Injective fun i => (g.typeAt i).name) {caller caller' : Location}
    {x y : Diagnostic} (hx : g.arrivalFinding? c caller i = some x)
    (hy : g.arrivalFinding? c caller' j = some y) : x.arguments = y.arguments ↔ i = j := by
  obtain ⟨fault, -, rfl⟩ := arrivalFinding?_eq_some_iff.mp hx
  obtain ⟨fault', -, rfl⟩ := arrivalFinding?_eq_some_iff.mp hy
  simpa [site] using hnames.eq_iff

section Owner

variable {owner : g.Handle} (howner : g.parts c owner = [])
include howner

/-- To go around a type that leads nowhere is no detour. -/
theorem reaches_around_iff :
    g.Reaches c [owner] i j ↔ j ≠ owner ∧ g.Reaches c [] i j := by
  constructor
  · intro h
    exact ⟨by simpa using h.target_not_avoided, h.mono fun _ hx => absurd hx List.not_mem_nil⟩
  · rintro ⟨hne, h⟩
    rcases h.avoid_or_last owner with havoid | heq | ⟨k, hk, -⟩
    · exact havoid
    · exact absurd heq hne
    · simp [← mem_parts_iff, howner] at hk

variable {ms : List (Member g.Handle)} {m : Member g.Handle}

theorem mem_visitedBy_iff :
    i ∈ g.visitedBy c owner ms ↔
      i = owner ∨ ∃ m ∈ g.descended owner ms, g.Reaches c [] m.type i := by
  simp only [visitedBy, List.mem_append, List.mem_reverse, mem_discovered_iff, List.mem_map,
    List.mem_singleton, exists_exists_and_eq_and, reaches_around_iff howner]
  by_cases hi : i = owner <;> simp [hi]

/-- At a member those types are come to that its type leads to and that have not been visited. -/
theorem discovered_visitedBy (ms : List (Member g.Handle)) (pending : List g.Handle) :
    g.discovered c (g.visitedBy c owner ms) pending =
      (g.discovered c [] pending).filter (· ∉ g.visitedBy c owner ms) := by
  refine discovered_eq_filter (fun x => by simp) fun x hx _ y hy => ?_
  rcases (mem_visitedBy_iff howner).mp hx with rfl | ⟨m, hm, hreach⟩
  · simp [howner] at hy
  · exact (mem_visitedBy_iff howner).mpr
      (.inr ⟨m, hm, hreach.tail (mem_parts_iff.mp hy) List.not_mem_nil⟩)

section Unfolding

variable (hnames : Function.Injective fun i => (g.typeAt i).name)
  (hsilent : g.offence? c owner = none) {unfolding : g.Handle → List g.Handle}
  (hunfolding : ∀ i, g.AcyclicBehind c i → g.Unfolds c [i] (unfolding i))
  (hacyclic : ∀ m ∈ g.descended owner ms, g.AcyclicBehind c m.type)
include hnames hsilent hunfolding hacyclic

/-- An offender has been visited before a member exactly when the walks without a memory have
found it. -/
theorem mem_visitedBy_iff_of_unfolding {caller : Location} {x : Diagnostic}
    (hx : g.arrivalFinding? c caller i = some x) :
    i ∈ g.visitedBy c owner ms ↔
      x.arguments ∈
        (g.unfoldedFindings c unfolding (g.descended owner ms)).map (·.arguments) := by
  have hne : i ≠ owner := by
    rintro rfl
    simp [arrivalFinding?, hsilent] at hx
  have hmem {m : Member g.Handle} (hm : m ∈ g.descended owner ms) (j : g.Handle) :
      j ∈ unfolding m.type ↔ g.Reaches c [] m.type j := by
    have hm := hacyclic m hm
    simpa using (hunfolding _ hm).mem_iff (j := j) (by simpa using hm)
  rw [mem_visitedBy_iff howner, or_iff_right hne]
  simp only [unfoldedFindings, List.mem_map, List.mem_flatMap, List.mem_filterMap]
  constructor
  · rintro ⟨m, hm, hreach⟩
    obtain ⟨fault, hoffends, rfl⟩ := arrivalFinding?_eq_some_iff.mp hx
    have hfound := arrivalFinding?_eq_some_iff.mpr
      ⟨fault, hoffends, (rfl : fault.finding m.location (g.site i) = _)⟩
    exact ⟨_, ⟨m, hm, i, (hmem hm i).mpr hreach, hfound⟩, by simp⟩
  · rintro ⟨y, ⟨m, hm, j, hj, hy⟩, harguments⟩
    obtain rfl := (arguments_arrivalFinding?_eq_iff hnames hy hx).mp harguments
    exact ⟨m, hm, (hmem hm j).mp hj⟩

/-- What a member adds to the findings, and what the walk from it without a memory adds. -/
theorem nestedFindings_eq_firstOfEach (hm : g.AcyclicBehind c m.type) :
    g.nestedFindings c owner ms m =
      (firstOfEach (·.arguments)
        ((unfolding m.type).filterMap (g.arrivalFinding? c m.location))).filter
          (·.arguments ∉
            (g.unfoldedFindings c unfolding (g.descended owner ms)).map (·.arguments)) := by
  have hfirst : g.discovered c [] [m.type] = firstOfEach id (unfolding m.type) :=
    (hunfolding _ hm).discovered_eq (by simpa using hm)
  rw [nestedFindings, discovered_visitedBy howner, hfirst, List.filterMap_filter,
    firstOfEach_filterMap (arguments_arrivalFinding?_eq_iff hnames), List.filter_filterMap]
  apply List.filterMap_congr
  intro i _
  cases hx : g.arrivalFinding? c m.location i with
  | none => simp
  | some x =>
    have hiff := mem_visitedBy_iff_of_unfolding howner hnames hsilent hunfolding hacyclic hx
    by_cases hvisited : i ∈ g.visitedBy c owner ms
    · rw [if_neg (by simpa using hvisited), Option.filter_some,
        if_neg (by simpa using hiff.mp hvisited)]
    · rw [if_pos (by simpa using hvisited), Option.filter_some,
        if_pos (by simpa using mt hiff.mpr hvisited)]

omit hacyclic in
/-- One member after the other, to remember leaves out repetitions only. -/
theorem type_findings_eq_firstOfEach (ms : List (Member g.Handle))
    (hacyclic : ∀ m ∈ g.descended owner ms, g.AcyclicBehind c m.type) :
    (g.memberBlocks c owner ms).filter (·.rule.subject = .type) =
      firstOfEach (·.arguments) (g.unfoldedFindings c unfolding (g.descended owner ms)) := by
  induction ms using List.reverseRecOn with
  | nil => rfl
  | append_singleton ms m ih =>
    rw [descended_concat] at hacyclic
    obtain ⟨hms, hm⟩ := List.forall_mem_append.mp hacyclic
    rw [memberBlocks_concat, List.filter_append, ih hms, filter_subject_memberBlock,
      descended_concat]
    cases hdescends : g.descendsInto owner ms m with
    | false => simp
    | true =>
      have hm : g.AcyclicBehind c m.type := hm m (by simp [hdescends])
      have hconcat : g.unfoldedFindings c unfolding (g.descended owner ms ++ [m]) =
          g.unfoldedFindings c unfolding (g.descended owner ms) ++
            (unfolding m.type).filterMap (g.arrivalFinding? c m.location) := by
        simp [unfoldedFindings]
      simp only [if_true]
      rw [nestedFindings_eq_firstOfEach howner hnames hsilent hunfolding hms hm, hconcat,
        firstOfEach_append]
      congr!

end Unfolding
end Owner

section Root

variable {root : g.Handle} (hroot : g.EnumeratesMembers c root)
  (hwrapper : (g.shape root).isWrapper = false)
include hroot hwrapper

theorem EnumeratesMembers.role_eq_contract : g.role c root = .contract :=
  role_eq_contract_iff.mpr ⟨hroot.nonterminal, hroot.composite, hwrapper⟩

theorem EnumeratesMembers.parts_eq_nil : g.parts c root = [] := by
  simp [parts, hroot.role_eq_contract hwrapper]

theorem EnumeratesMembers.offence?_eq_none : g.offence? c root = none := by
  simp only [offence?, hroot.role_eq_contract hwrapper, hroot.fault?_eq_none]

/-- Where no type behind the members of a root unwraps to itself, walks without a memory end, each
in one way, and to remember the visited types has no effect but that each type is reported once:
the findings about types are those of the walks without a memory, in their order and with their
labels, where the first one about each type is kept. -/
theorem remembering_drops_repetitions_only {d : GraphDescription} {implicit : List String}
    (hg : build d implicit = .ok g)
    (hacyclic : ∀ m ∈ (g.typeAt root).members, g.AcyclicBehind c m.type) :
    ∃ unfolding : g.Handle → List g.Handle,
      (∀ m ∈ (g.typeAt root).members, ∀ found,
        g.Unfolds c [m.type] found ↔ found = unfolding m.type) ∧
      (g.analyze c root).filter (·.rule.subject = .type) =
        firstOfEach (·.arguments)
          (g.unfoldedFindings c unfolding
            (g.descended root (g.typeAt root).membersInCheckOrder)) := by
  have hexists (i : g.Handle) : ∃ found, g.AcyclicBehind c i → g.Unfolds c [i] found := by
    by_cases hi : g.AcyclicBehind c i
    · obtain ⟨found, hfound⟩ : ∃ found, g.Unfolds c [i] found :=
        Unfolds.exists_of_acyclic (by simpa using hi)
      exact ⟨found, fun _ => hfound⟩
    · exact ⟨[], fun h => absurd h hi⟩
  choose unfolding hunfolding using hexists
  refine ⟨unfolding, fun m hm found => ?_, ?_⟩
  · have hm := hunfolding m.type (hacyclic m hm)
    exact ⟨hm.unique, fun h => h ▸ hm⟩
  · have hdescended : ∀ m ∈ g.descended root (g.typeAt root).membersInCheckOrder,
        g.AcyclicBehind c m.type := by
      intro m hm
      obtain ⟨earlier, later, horder, -⟩ := mem_descended_iff.mp hm
      exact hacyclic m ((membersInCheckOrder_perm _).mem_iff.mp (by simp [horder]))
    rw [analyze_eq_append_layoutFindings hroot, List.filter_append,
      filter_subject_layoutFindings (by simp), List.append_nil]
    exact type_findings_eq_firstOfEach (hroot.parts_eq_nil hwrapper) (name_injective_of_build hg)
      (hroot.offence?_eq_none hwrapper) hunfolding _ hdescended

end Root

/-- An album of photos. A page is a pair of photos and a caption, neither of them annotated. -/
def photos : GraphDescription where
  types := [
    TypeDescription.ofKind .structType "Album"
      |>.asFormattable
      |>.withMember (((MemberDescription.field "Loose" "Photo[]").indexed 0).declaredAt
        { line := 2 })
      |>.withMember (((MemberDescription.field "Cover" "Page").indexed 1).declaredAt
        { line := 3 })
      |>.withMember (((MemberDescription.field "Pages" "Page[]").indexed 2).declaredAt
        { line := 4 }),
    .array "Page[]" "Page",
    .generic "Page" .structType "System.Collections.Generic.KeyValuePair<,>" ["Photo[]", "Caption"],
    .array "Photo[]" "Photo",
    .ofKind .classType "Photo",
    .ofKind .classType "Caption"]

def photosGraph : TypeGraph := (build photos []).toOption.get (by decide +kernel)

def album : photosGraph.Handle := (photosGraph.lookup "Album").get (by decide +kernel)

/-- Photos are found loose and captions on the cover; both are on the pages again. -/
theorem photos_found_loose_and_captions_on_cover :
    build photos [] = .ok photosGraph ∧ photosGraph.EnumeratesMembers {} album ∧
      (photosGraph.shape album).isWrapper = false ∧
      (∀ m ∈ (photosGraph.typeAt album).members, photosGraph.AcyclicBehind {} m.type) ∧
      ∃ unfolding : photosGraph.Handle → List photosGraph.Handle,
        (∀ m ∈ (photosGraph.typeAt album).members, ∀ found,
          photosGraph.Unfolds {} [m.type] found ↔ found = unfolding m.type) ∧
        firstOfEach (·.arguments)
          (photosGraph.unfoldedFindings {} unfolding
            (photosGraph.descended album (photosGraph.typeAt album).membersInCheckOrder)) =
          [.typeMustBeAnnotated { line := 2 } ⟨"Photo", {}⟩,
            .typeMustBeAnnotated { line := 3 } ⟨"Caption", {}⟩] := by
  have hg : build photos [] = .ok photosGraph := rfl
  have hroot : photosGraph.EnumeratesMembers {} album :=
    ⟨by decide +kernel, by decide +kernel, by decide +kernel, by decide +kernel⟩
  have hwrapper : (photosGraph.shape album).isWrapper = false := by decide +kernel
  have hacyclic : ∀ m ∈ (photosGraph.typeAt album).members, photosGraph.AcyclicBehind {} m.type :=
    fun m _ => .of_ascending (by decide +kernel) m.type
  obtain ⟨unfolding, hunfolding, hfound⟩ :=
    remembering_drops_repetitions_only hroot hwrapper hg hacyclic
  refine ⟨hg, hroot, hwrapper, hacyclic, unfolding, hunfolding, ?_⟩
  rw [← hfound]
  decide +kernel

end TypeGraph
end LayoutContract
