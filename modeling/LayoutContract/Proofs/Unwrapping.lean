import LayoutContract.Check.Walk

/-!
What a walk from the type of a member is meant to look at, without the walk. An array leads to
its items and a wrapper to its arguments; a type whose name is terminal, an enumeration and a type
parameter lead nowhere. A type that is neither exempt nor looked through answers for itself, and
offends when it breaks the contract for types.
-/
namespace LayoutContract

/-- Classes, interfaces and structs: the kinds of types that have members to check. -/
def TypeKind.isComposite : TypeKind → Bool
  | classType | interfaceType | structType => true
  | enumType | arrayType | typeParameter => false

namespace TypeGraph

variable (g : TypeGraph) (c : Config)

/-- A single step from a type to one that is looked at in its place. -/
inductive Unwraps : g.Handle → g.Handle → Prop
  | element {i j : g.Handle} (hname : c.isTerminal (g.typeAt i).name = false)
      (hform : (g.typeAt i).form = .arrayType j) : Unwraps i j
  | argument {i j : g.Handle} {generic : GenericInstance g.Handle}
      (hname : c.isTerminal (g.typeAt i).name = false)
      (hkind : (g.typeAt i).form.kind.isComposite = true)
      (hgeneric : (g.typeAt i).generic = some generic)
      (hshape : (g.shape i).isWrapper = true) (hmem : j ∈ generic.arguments) : Unwraps i j

/-- Unwrapping takes `i` to `j` along types that are not in `avoided`, both ends included. -/
inductive Reaches (avoided : List g.Handle) : g.Handle → g.Handle → Prop
  | refl {i : g.Handle} (h : i ∉ avoided) : Reaches avoided i i
  | tail {i j k : g.Handle} (hij : Reaches avoided i j) (hjk : g.Unwraps c j k)
      (h : k ∉ avoided) : Reaches avoided i k

/-- Not exempt by its name or its kind, and no wrapper. -/
structure AnswersForItself (i : g.Handle) : Prop where
  nonterminal : c.isTerminal (g.typeAt i).name = false
  composite : (g.typeAt i).form.kind.isComposite = true
  noWrapper : (g.shape i).isWrapper = false

/-- What a type that answers for itself can be blamed for. -/
inductive Offends (i : g.Handle) : TypeFault → Prop
  | unannotated (h : g.AnswersForItself c i) (hannotated : (g.typeAt i).formattable = false) :
      Offends i .unannotated
  | noDefaultConstructor (h : g.AnswersForItself c i)
      (hannotated : (g.typeAt i).formattable = true) (hform : (g.typeAt i).form ≠ .structType)
      (hconstructors : [] ∉ (g.typeAt i).constructors) : Offends i .noDefaultConstructor

variable {g c}

theorem isWrapper_shape_of_generic_none {i : g.Handle} (h : (g.typeAt i).generic = none) :
    (g.shape i).isWrapper = false := by
  simp [shape, h, GenericShape.isWrapper]

/-- The arguments that are looked at are those of the generic instance. -/
theorem wrapped?_eq_some_iff {i : g.Handle} {arguments : List g.Handle} :
    g.wrapped? i = some arguments ↔
      ∃ generic, (g.typeAt i).generic = some generic ∧ (g.shape i).isWrapper = true ∧
        generic.arguments = arguments := by
  unfold wrapped?
  cases hgeneric : (g.typeAt i).generic with
  | none => simp
  | some generic => cases hshape : (g.shape i).isWrapper <;> simp

theorem wrapped?_eq_none_iff {i : g.Handle} :
    g.wrapped? i = none ↔ (g.shape i).isWrapper = false := by
  unfold wrapped?
  cases hgeneric : (g.typeAt i).generic with
  | none => simp [isWrapper_shape_of_generic_none hgeneric]
  | some generic => cases hshape : (g.shape i).isWrapper <;> simp

theorem role_of_terminal {i : g.Handle} (h : c.isTerminal (g.typeAt i).name = true) :
    g.role c i = .exempt := by
  simp [role, h]

/-- A composite type is a wrapper or has to keep the contract. -/
theorem role_of_composite {i : g.Handle} (hname : c.isTerminal (g.typeAt i).name = false)
    (hkind : (g.typeAt i).form.kind.isComposite = true) :
    g.role c i = match g.wrapped? i with
      | some arguments => .wrapper arguments
      | none => .contract := by
  unfold role
  cases hform : (g.typeAt i).form <;> cases hwrapped : g.wrapped? i <;>
    simp_all [TypeForm.kind, TypeKind.isComposite]

theorem role_eq_array_iff {i j : g.Handle} :
    g.role c i = .array j ↔
      c.isTerminal (g.typeAt i).name = false ∧ (g.typeAt i).form = .arrayType j := by
  unfold role
  cases hname : c.isTerminal (g.typeAt i).name with
  | true => simp
  | false =>
    cases hform : (g.typeAt i).form <;> cases hwrapped : g.wrapped? i <;> simp

theorem role_eq_wrapper_iff {i : g.Handle} {arguments : List g.Handle} :
    g.role c i = .wrapper arguments ↔
      c.isTerminal (g.typeAt i).name = false ∧ (g.typeAt i).form.kind.isComposite = true ∧
        g.wrapped? i = some arguments := by
  unfold role
  cases hname : c.isTerminal (g.typeAt i).name with
  | true => simp
  | false =>
    cases hform : (g.typeAt i).form <;> cases hwrapped : g.wrapped? i <;>
      simp [TypeForm.kind, TypeKind.isComposite]

theorem role_eq_contract_iff {i : g.Handle} :
    g.role c i = .contract ↔ g.AnswersForItself c i := by
  constructor
  · intro h
    unfold role at h
    cases hname : c.isTerminal (g.typeAt i).name with
    | true => simp [hname] at h
    | false =>
      have hwrapped : g.wrapped? i = none := by
        cases hform : (g.typeAt i).form <;> cases hw : g.wrapped? i <;> simp_all
      refine ⟨hname, ?_, wrapped?_eq_none_iff.mp hwrapped⟩
      cases hform : (g.typeAt i).form <;>
        simp_all [TypeForm.kind, TypeKind.isComposite]
  · rintro ⟨hname, hkind, hshape⟩
    rw [role_of_composite hname hkind, wrapped?_eq_none_iff.mpr hshape]

/-- The parts of a type are the types that it unwraps to. -/
theorem mem_parts_iff {i j : g.Handle} : j ∈ g.parts c i ↔ g.Unwraps c i j := by
  constructor
  · intro h
    unfold parts at h
    cases hrole : g.role c i with
    | exempt => simp [hrole] at h
    | contract => simp [hrole] at h
    | array element =>
      obtain ⟨hname, hform⟩ := role_eq_array_iff.mp hrole
      have hj : j = element := by simpa [hrole] using h
      exact .element hname (hj ▸ hform)
    | wrapper arguments =>
      obtain ⟨hname, hkind, hwrapped⟩ := role_eq_wrapper_iff.mp hrole
      obtain ⟨generic, hgeneric, hshape, harguments⟩ := wrapped?_eq_some_iff.mp hwrapped
      have hj : j ∈ arguments := by simpa [hrole] using h
      exact .argument hname hkind hgeneric hshape (harguments ▸ hj)
  · intro h
    cases h with
    | element hname hform => simp [parts, role_eq_array_iff.mpr ⟨hname, hform⟩]
    | argument hname hkind hgeneric hshape hmem =>
      have hwrapped := wrapped?_eq_some_iff.mpr ⟨_, hgeneric, hshape, rfl⟩
      simpa [parts, role_eq_wrapper_iff.mpr ⟨hname, hkind, hwrapped⟩] using hmem

theorem hasParameterlessConstructor_iff {ι : Type} (t : TypeDef ι) :
    t.hasParameterlessConstructor = true ↔ [] ∈ t.constructors := by
  simp [TypeDef.hasParameterlessConstructor]

/-- Of the composite types, only structs have values that are copied. -/
theorem isValue_iff_struct {i : g.Handle} (hkind : (g.typeAt i).form.kind.isComposite = true) :
    (g.typeAt i).isValue = true ↔ (g.typeAt i).form = .structType := by
  cases hform : (g.typeAt i).form <;>
    simp_all [TypeDef.isValue, TypeForm.kind, TypeKind.isValue, TypeKind.isComposite]

theorem isValue_eq_decide_struct {i : g.Handle}
    (hkind : (g.typeAt i).form.kind.isComposite = true) :
    (g.typeAt i).isValue = decide ((g.typeAt i).form = .structType) := by
  rw [Bool.eq_iff_iff, isValue_iff_struct hkind, decide_eq_true_iff]

theorem fault?_eq_unannotated_iff {i : g.Handle} :
    (g.typeAt i).fault? = some .unannotated ↔ (g.typeAt i).formattable = false := by
  unfold TypeDef.fault?
  cases (g.typeAt i).formattable with
  | false => simp
  | true =>
    by_cases h : (g.typeAt i).isValue || (g.typeAt i).hasParameterlessConstructor <;> simp [h]

theorem fault?_eq_noDefaultConstructor_iff {i : g.Handle}
    (hkind : (g.typeAt i).form.kind.isComposite = true) :
    (g.typeAt i).fault? = some .noDefaultConstructor ↔
      (g.typeAt i).formattable = true ∧ (g.typeAt i).form ≠ .structType ∧
        [] ∉ (g.typeAt i).constructors := by
  rw [ne_eq, ← isValue_iff_struct hkind, ← hasParameterlessConstructor_iff]
  unfold TypeDef.fault?
  cases (g.typeAt i).formattable <;> cases (g.typeAt i).isValue <;>
    cases (g.typeAt i).hasParameterlessConstructor <;> simp

theorem fault?_eq_none_iff {i : g.Handle} (hkind : (g.typeAt i).form.kind.isComposite = true) :
    (g.typeAt i).fault? = none ↔
      (g.typeAt i).formattable = true ∧
        ((g.typeAt i).form = .structType ∨ [] ∈ (g.typeAt i).constructors) := by
  rw [← isValue_iff_struct hkind, ← hasParameterlessConstructor_iff]
  unfold TypeDef.fault?
  cases (g.typeAt i).formattable <;> cases (g.typeAt i).isValue <;>
    cases (g.typeAt i).hasParameterlessConstructor <;> simp

/-- The walk blames exactly the types that offend, each for its own fault. -/
theorem offence?_eq_some_iff {i : g.Handle} {fault : TypeFault} :
    g.offence? c i = some fault ↔ g.Offends c i fault := by
  have hrole : g.offence? c i = some fault ↔
      g.AnswersForItself c i ∧ (g.typeAt i).fault? = some fault := by
    rw [← role_eq_contract_iff]
    unfold offence?
    cases g.role c i <;> simp
  rw [hrole]
  constructor
  · rintro ⟨h, hfault⟩
    cases fault with
    | unannotated => exact .unannotated h (fault?_eq_unannotated_iff.mp hfault)
    | noDefaultConstructor =>
      obtain ⟨hannotated, hform, hconstructors⟩ :=
        (fault?_eq_noDefaultConstructor_iff h.composite).mp hfault
      exact .noDefaultConstructor h hannotated hform hconstructors
  · intro h
    cases h with
    | unannotated h hannotated => exact ⟨h, fault?_eq_unannotated_iff.mpr hannotated⟩
    | noDefaultConstructor h hannotated hform hconstructors =>
      exact ⟨h, (fault?_eq_noDefaultConstructor_iff h.composite).mpr
        ⟨hannotated, hform, hconstructors⟩⟩

namespace Reaches

variable {avoided avoided' : List g.Handle} {i j k : g.Handle}

theorem source_not_avoided (h : g.Reaches c avoided i j) : i ∉ avoided := by
  induction h with
  | refl h => exact h
  | tail _ _ _ ih => exact ih

theorem target_not_avoided (h : g.Reaches c avoided i j) : j ∉ avoided := by
  cases h with
  | refl h => exact h
  | tail _ _ h => exact h

theorem trans (hij : g.Reaches c avoided i j) (hjk : g.Reaches c avoided j k) :
    g.Reaches c avoided i k := by
  induction hjk with
  | refl => exact hij
  | tail _ hstep h ih => exact .tail ih hstep h

theorem head (h : i ∉ avoided) (hij : g.Unwraps c i j) (hjk : g.Reaches c avoided j k) :
    g.Reaches c avoided i k :=
  (Reaches.tail (.refl h) hij hjk.source_not_avoided).trans hjk

theorem mono (hsub : ∀ x ∈ avoided', x ∈ avoided) (h : g.Reaches c avoided i j) :
    g.Reaches c avoided' i j := by
  induction h with
  | refl h => exact .refl fun hx => h (hsub _ hx)
  | tail _ hstep h ih => exact .tail ih hstep fun hx => h (hsub _ hx)

/-- A path that may touch `x` avoids it altogether, ends there, or leaves it for the last time by
one step. -/
theorem avoid_or_last (x : g.Handle) (h : g.Reaches c avoided i j) :
    g.Reaches c (x :: avoided) i j ∨ j = x ∨
      ∃ k, g.Unwraps c x k ∧ g.Reaches c (x :: avoided) k j := by
  induction h with
  | refl h =>
    by_cases hx : i = x
    · exact .inr (.inl hx)
    · exact .inl (.refl (by simp [hx, h]))
  | @tail j k _ hstep h ih =>
    by_cases hx : k = x
    · exact .inr (.inl hx)
    · have hk : k ∉ x :: avoided := by simp [hx, h]
      rcases ih with havoid | rfl | ⟨l, hl, hlast⟩
      · exact .inl (.tail havoid hstep hk)
      · exact .inr (.inr ⟨k, hstep, .refl hk⟩)
      · exact .inr (.inr ⟨l, hl, .tail hlast hstep hk⟩)

end Reaches
end TypeGraph
end LayoutContract
