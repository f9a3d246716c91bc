import LayoutContract.TypeGraph

/-!
Definitions with other handles. A definition mentions other types by handles only, so a map of
handles carries it over to another graph, or to the names behind the handles.
-/
namespace LayoutContract

variable {ι κ μ : Type}

namespace TypeForm

def map (f : ι → κ) : TypeForm ι → TypeForm κ
  | classType => .classType
  | interfaceType => .interfaceType
  | structType => .structType
  | enumType => .enumType
  | arrayType element => .arrayType (f element)
  | typeParameter => .typeParameter

/-- The type of the items of an array. -/
def element? : TypeForm ι → Option ι
  | arrayType element => some element
  | classType | interfaceType | structType | enumType | typeParameter => none

@[simp] theorem kind_map (f : ι → κ) (t : TypeForm ι) : (t.map f).kind = t.kind := by
  cases t <;> rfl

@[simp] theorem element?_map (f : ι → κ) (t : TypeForm ι) :
    (t.map f).element? = t.element?.map f := by
  cases t <;> rfl

theorem map_map (f : ι → κ) (h : κ → μ) (t : TypeForm ι) : (t.map f).map h = t.map (h ∘ f) := by
  cases t <;> rfl

theorem map_id (t : TypeForm ι) : t.map id = t := by
  cases t <;> rfl

end TypeForm

def GenericInstance.map (f : ι → κ) (g : GenericInstance ι) : GenericInstance κ :=
  { g with arguments := g.arguments.map f }

def Member.map (f : ι → κ) (m : Member ι) : Member κ := { m with type := f m.type }

namespace TypeDef

def map (f : ι → κ) (t : TypeDef ι) : TypeDef κ :=
  { t with
    form := t.form.map f
    generic := t.generic.map (·.map f)
    interfaces := t.interfaces.map f
    constructors := t.constructors.map (·.map f)
    members := t.members.map (·.map f) }

/-- All handles in a definition. -/
def references (t : TypeDef ι) : List ι :=
  t.form.element?.toList ++ t.generic.elim [] (·.arguments) ++ t.interfaces ++
    t.constructors.flatten ++ t.members.map (·.type)

theorem references_map (f : ι → κ) (t : TypeDef ι) :
    (t.map f).references = t.references.map f := by
  cases helement : t.form.element? <;> cases hgeneric : t.generic <;>
    simp [references, map, helement, hgeneric, GenericInstance.map, Member.map]

theorem map_map (f : ι → κ) (h : κ → μ) (t : TypeDef ι) : (t.map f).map h = t.map (h ∘ f) := by
  cases hgeneric : t.generic <;>
    simp [map, hgeneric, TypeForm.map_map, GenericInstance.map, Member.map, Function.comp_def]

theorem map_id (t : TypeDef ι) : t.map id = t := by
  obtain ⟨name, qualifiedName, form, formattable, generic⟩ := t
  cases generic <;> simp [map, TypeForm.map_id, GenericInstance.map, Member.map]

theorem generic_map (f : ι → κ) (t : TypeDef ι) :
    (t.map f).generic = t.generic.map (·.map f) := rfl

theorem isValue_map (f : ι → κ) (t : TypeDef ι) : (t.map f).isValue = t.isValue := by
  simp [isValue, map]

theorem isFormattableRoot_map (f : ι → κ) (t : TypeDef ι) :
    (t.map f).isFormattableRoot = t.isFormattableRoot := by
  unfold isFormattableRoot map
  cases t.form <;> rfl

end TypeDef
end LayoutContract
