import LayoutContract.Proofs.Unwrapping
import Mathlib.Data.List.Basic
import Mathlib.Order.Fin.Basic
import Mathlib.Tactic.Tauto

/-!
The types that a walk comes to, in the order in which it comes to them. They do not depend on
what is reported, so the findings of a walk are read off this list. A type is on the list exactly
when it can be reached from a pending type without touching a type that was visited before, and
it is there once.
-/
namespace LayoutContract.TypeGraph

variable (g : TypeGraph) (c : Config)

/-- The types that a walk comes to for the first time. -/
def discovered (visited : List g.Handle) : List g.Handle → List g.Handle
  | [] => []
  | i :: pending =>
    if i ∈ visited then discovered visited pending
    else i :: discovered (i :: visited) (g.parts c i ++ pending)
termination_by pending => g.workload c visited pending
decreasing_by
  · simp [workload]
  · exact g.workload_parts_lt c pending ‹_›

/-- What is reported when a walk comes to a type. -/
def arrivalFinding? (caller : Location) (i : g.Handle) : Option Diagnostic :=
  (g.offence? c i).map fun fault => fault.finding caller (g.site i)

variable {g c} {visited pending : List g.Handle} {i j : g.Handle}

@[simp] theorem discovered_nil : g.discovered c visited [] = [] := by
  rw [discovered]

theorem discovered_of_visited (h : i ∈ visited) :
    g.discovered c visited (i :: pending) = g.discovered c visited pending := by
  rw [discovered, if_pos h]

theorem discovered_of_new (h : i ∉ visited) :
    g.discovered c visited (i :: pending) =
      i :: g.discovered c (i :: visited) (g.parts c i ++ pending) := by
  rw [discovered, if_neg h]

/-- What is discovered follows from the parts of the types. -/
theorem discovered_congr {c' : Config} (h : ∀ i, g.parts c' i = g.parts c i)
    (visited pending : List g.Handle) :
    g.discovered c' visited pending = g.discovered c visited pending := by
  fun_induction discovered g c visited pending with
  | case1 visited => exact discovered_nil
  | case2 visited i pending hi ih => rw [discovered_of_visited hi, ih]
  | case3 visited i pending hi ih => rw [discovered_of_new hi, h i, ih]

theorem enter_findings (caller : Location) (i : g.Handle) (context : Context g.Handle) :
    (g.enter c caller i context).findings.toList =
      context.findings.toList ++ (g.arrivalFinding? c caller i).toList := by
  unfold enter arrivalFinding?
  cases g.offence? c i with
  | none => simp [Context.visit]
  | some fault => simp [Context.visit, Context.report]

/-- A walk visits what it discovers, the latest first. -/
theorem walk_visited (caller : Location) (context : Context g.Handle)
    (pending : List g.Handle) :
    (g.walk c caller context pending).visited =
      (g.discovered c context.visited pending).reverse ++ context.visited := by
  fun_induction walk g c caller context pending with
  | case1 context => simp
  | case2 context i pending h ih => rw [ih, discovered_of_visited h]
  | case3 context i pending h ih =>
    rw [ih, visited_enter, discovered_of_new h]
    simp

/-- A walk reports the offenders among the types that it discovers, in their order. -/
theorem walk_findings (caller : Location) (context : Context g.Handle)
    (pending : List g.Handle) :
    (g.walk c caller context pending).findings.toList =
      context.findings.toList ++
        (g.discovered c context.visited pending).filterMap (g.arrivalFinding? c caller) := by
  fun_induction walk g c caller context pending with
  | case1 context => simp
  | case2 context i pending h ih => rw [ih, discovered_of_visited h]
  | case3 context i pending h ih =>
    rw [ih, enter_findings, visited_enter, discovered_of_new h, List.filterMap_cons]
    cases g.arrivalFinding? c caller i <;> simp

/-- A list of pending types can be worked off in two parts. -/
theorem discovered_append (visited first second : List g.Handle) :
    g.discovered c visited (first ++ second) =
      g.discovered c visited first ++
        g.discovered c ((g.discovered c visited first).reverse ++ visited) second := by
  fun_induction discovered g c visited first with
  | case1 visited => simp
  | case2 visited i pending h ih => rw [List.cons_append, discovered_of_visited h, ih]
  | case3 visited i pending h ih =>
    rw [List.cons_append, discovered_of_new h, ← List.append_assoc, ih]
    simp

/-- Pending types that have been visited are passed over. -/
theorem discovered_append_of_visited {first : List g.Handle} (h : ∀ x ∈ first, x ∈ visited)
    (second : List g.Handle) :
    g.discovered c visited (first ++ second) = g.discovered c visited second := by
  induction first with
  | nil => rfl
  | cons x first ih =>
    obtain ⟨hx, hfirst⟩ := List.forall_mem_cons.mp h
    rw [List.cons_append, discovered_of_visited hx, ih hfirst]

section Besides

variable {besides visited' : List g.Handle}

/-- A walk passes over the types that have been visited besides, and over nothing else when they
keep no parts from it. -/
theorem discovered_eq_filter (hmem : ∀ x, x ∈ visited' ↔ x ∈ besides ∨ x ∈ visited)
    (hparts : ∀ x ∈ besides, x ∈ g.discovered c visited pending →
      ∀ y ∈ g.parts c x, y ∈ visited') :
    g.discovered c visited' pending =
      (g.discovered c visited pending).filter (· ∉ besides) := by
  fun_induction discovered g c visited pending generalizing visited' with
  | case1 visited => simp
  | case2 visited x pending hx ih =>
    rw [discovered_of_visited ((hmem x).mpr (.inr hx)), ih hmem hparts]
  | case3 visited x pending hx ih =>
    by_cases hbesides : x ∈ besides
    · have hmem' (y : g.Handle) : y ∈ visited' ↔ y ∈ besides ∨ y ∈ x :: visited := by
        have hy : y = x → y ∈ besides := fun heq => heq ▸ hbesides
        rw [List.mem_cons, hmem y]
        tauto
      have hparts' : ∀ y ∈ besides,
          y ∈ g.discovered c (x :: visited) (g.parts c x ++ pending) →
            ∀ z ∈ g.parts c y, z ∈ visited' :=
        fun y hy hfound => hparts y hy (List.mem_cons_of_mem x hfound)
      rw [discovered_of_visited ((hmem x).mpr (.inl hbesides)),
        List.filter_cons_of_neg (by simpa using hbesides), ← ih hmem' hparts',
        discovered_append_of_visited (hparts x hbesides List.mem_cons_self)]
    · have hnew : x ∉ visited' := fun hvisited => ((hmem x).mp hvisited).elim hbesides hx
      have hmem' (y : g.Handle) : y ∈ x :: visited' ↔ y ∈ besides ∨ y ∈ x :: visited := by
        rw [List.mem_cons, List.mem_cons, hmem y, or_left_comm]
      have hparts' : ∀ y ∈ besides,
          y ∈ g.discovered c (x :: visited) (g.parts c x ++ pending) →
            ∀ z ∈ g.parts c y, z ∈ x :: visited' :=
        fun y hy hfound z hz =>
          List.mem_cons_of_mem x (hparts y hy (List.mem_cons_of_mem x hfound) z hz)
      rw [discovered_of_new hnew, List.filter_cons_of_pos (by simpa using hbesides),
        ih hmem' hparts']

/-- In the end the same types have been visited besides. -/
theorem mem_visited_besides_iff (hmem : ∀ x, x ∈ visited' ↔ x ∈ besides ∨ x ∈ visited)
    (hparts : ∀ x ∈ besides, x ∈ g.discovered c visited pending →
      ∀ y ∈ g.parts c x, y ∈ visited') (x : g.Handle) :
    x ∈ (g.discovered c visited' pending).reverse ++ visited' ↔
      x ∈ besides ∨ x ∈ (g.discovered c visited pending).reverse ++ visited := by
  rw [discovered_eq_filter hmem hparts]
  simp only [List.mem_append, List.mem_reverse, List.mem_filter, decide_eq_true_eq, hmem x]
  tauto

/-- Nothing is missed by passing over types without findings. -/
theorem filterMap_arrivalFinding?_besides
    (hmem : ∀ x, x ∈ visited' ↔ x ∈ besides ∨ x ∈ visited)
    (hparts : ∀ x ∈ besides, x ∈ g.discovered c visited pending →
      ∀ y ∈ g.parts c x, y ∈ visited')
    (hsilent : ∀ x ∈ besides, g.offence? c x = none) (caller : Location) :
    (g.discovered c visited' pending).filterMap (g.arrivalFinding? c caller) =
      (g.discovered c visited pending).filterMap (g.arrivalFinding? c caller) := by
  rw [discovered_eq_filter hmem hparts, List.filterMap_filter]
  apply List.filterMap_congr
  intro x _
  by_cases hx : x ∈ besides <;> simp [hx, arrivalFinding?, hsilent]

end Besides

theorem not_visited_of_mem_discovered (h : j ∈ g.discovered c visited pending) :
    j ∉ visited := by
  fun_induction discovered g c visited pending with
  | case1 visited => simp at h
  | case2 visited i pending hi ih => exact ih h
  | case3 visited i pending hi ih =>
    rcases List.mem_cons.mp h with rfl | hj
    · exact hi
    · exact fun hvisited => ih hj (List.mem_cons_of_mem i hvisited)

theorem discovered_nodup (visited pending : List g.Handle) :
    (g.discovered c visited pending).Nodup := by
  fun_induction discovered g c visited pending with
  | case1 visited => exact List.nodup_nil
  | case2 visited i pending hi ih => exact ih
  | case3 visited i pending hi ih =>
    have hnew : i ∉ g.discovered c (i :: visited) (g.parts c i ++ pending) :=
      fun hmem => not_visited_of_mem_discovered hmem List.mem_cons_self
    exact List.nodup_cons.mpr ⟨hnew, ih⟩

/-- A walk discovers what can be reached around the types visited before it. -/
theorem mem_discovered_iff :
    j ∈ g.discovered c visited pending ↔ ∃ i ∈ pending, g.Reaches c visited i j := by
  fun_induction discovered g c visited pending with
  | case1 visited => simp
  | case2 visited i pending hi ih =>
    rw [ih]
    constructor
    · rintro ⟨k, hk, hreach⟩
      exact ⟨k, List.mem_cons_of_mem i hk, hreach⟩
    · rintro ⟨k, hk, hreach⟩
      rcases List.mem_cons.mp hk with rfl | hk
      · exact absurd hi hreach.source_not_avoided
      · exact ⟨k, hk, hreach⟩
  | case3 visited i pending hi ih =>
    have hsub : ∀ x ∈ visited, x ∈ i :: visited := fun x hx => List.mem_cons_of_mem i hx
    rw [List.mem_cons, ih]
    constructor
    · rintro (rfl | ⟨k, hk, hreach⟩)
      · exact ⟨j, List.mem_cons_self, .refl hi⟩
      · rcases List.mem_append.mp hk with hpart | hpending
        · exact ⟨i, List.mem_cons_self, .head hi (mem_parts_iff.mp hpart) (hreach.mono hsub)⟩
        · exact ⟨k, List.mem_cons_of_mem i hpending, hreach.mono hsub⟩
    · rintro ⟨k, hk, hreach⟩
      -- A path through `i` is cut behind its last visit to `i`: the rest starts at a part of `i`.
      rcases hreach.avoid_or_last i with havoid | rfl | ⟨l, hl, hlast⟩
      · rcases List.mem_cons.mp hk with rfl | hk
        · exact absurd List.mem_cons_self havoid.source_not_avoided
        · exact .inr ⟨k, List.mem_append_right _ hk, havoid⟩
      · exact .inl rfl
      · exact .inr ⟨l, List.mem_append_left _ (mem_parts_iff.mpr hl), hlast⟩

/-- The parts of what a walk discovers have been visited in the end. -/
theorem mem_visited_of_mem_parts (hi : i ∈ g.discovered c visited pending)
    (hj : j ∈ g.parts c i) : j ∈ (g.discovered c visited pending).reverse ++ visited := by
  by_cases hvisited : j ∈ visited
  · exact List.mem_append_right _ hvisited
  · obtain ⟨k, hk, hreach⟩ := mem_discovered_iff.mp hi
    refine List.mem_append_left _ (List.mem_reverse.mpr (mem_discovered_iff.mpr ⟨k, hk, ?_⟩))
    exact hreach.tail (mem_parts_iff.mp hj) hvisited

/-- The second part of a list of pending types is worked off as if there were no first part, with
what has been discovered left out. -/
theorem discovered_append_eq_filter (visited first second : List g.Handle) :
    g.discovered c visited (first ++ second) =
      g.discovered c visited first ++
        (g.discovered c visited second).filter (· ∉ g.discovered c visited first) := by
  rw [discovered_append]
  congr 1
  refine discovered_eq_filter (fun x => by simp) fun x hx _ y hy => ?_
  exact mem_visited_of_mem_parts hx hy

/-- Reachability is settled by a search. -/
instance (avoided : List g.Handle) (i j : g.Handle) :
    Decidable (g.Reaches c avoided i j) :=
  decidable_of_iff (j ∈ g.discovered c avoided [i]) (by simp [mem_discovered_iff])

/-- What a walk from `first` leaves to one from `second`: the types that `second` reaches and
`first` does not. All that was visited in between is no obstacle of its own. -/
theorem mem_discovered_after_iff {first second : List g.Handle} :
    j ∈ g.discovered c ((g.discovered c visited first).reverse ++ visited) second ↔
      (∃ i ∈ second, g.Reaches c visited i j) ∧ ∀ i ∈ first, ¬ g.Reaches c visited i j := by
  have happend : j ∈ g.discovered c visited (first ++ second) ↔
      j ∈ g.discovered c visited first ∨
        j ∈ g.discovered c ((g.discovered c visited first).reverse ++ visited) second := by
    rw [discovered_append, List.mem_append]
  have hdisjoint : j ∈ g.discovered c ((g.discovered c visited first).reverse ++ visited) second →
      j ∉ g.discovered c visited first := by
    intro h hfirst
    exact not_visited_of_mem_discovered h (by simp [hfirst])
  simp only [@mem_discovered_iff g c visited, List.mem_append] at happend hdisjoint
  constructor
  · intro h
    have hnone := hdisjoint h
    obtain ⟨i, hi | hi, hreach⟩ := happend.mpr (.inr h)
    · exact absurd ⟨i, hi, hreach⟩ hnone
    · exact ⟨⟨i, hi, hreach⟩, fun k hk hkj => hnone ⟨k, hk, hkj⟩⟩
  · rintro ⟨⟨i, hi, hreach⟩, hnone⟩
    rcases happend.mp ⟨i, .inr hi, hreach⟩ with ⟨k, hk, hkj⟩ | h
    · exact absurd hkj (hnone k hk)
    · exact h

end LayoutContract.TypeGraph
