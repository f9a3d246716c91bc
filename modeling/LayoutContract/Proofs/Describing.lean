import LayoutContract.Proofs.HandleMaps
import LayoutContract.Proofs.ResolvedNames
import Mathlib.Data.List.Forall2

/-!
Definitions read back as descriptions. A definition whose handles are replaced by names can be
described again, and what comes out is the description that it was resolved from, in normal form:
the qualified name is written out, only arrays have an element, and fields have no accessors.
Resolving and describing are inverse to each other as long as names and handles are.
-/
namespace LayoutContract

theorem except_pure_eq_ok_iff {ε α : Type} {a b : α} :
    (pure a : Except ε α) = .ok b ↔ a = b := by
  simp [pure, Except.pure]

theorem except_map_eq_ok_iff {ε α β : Type} {x : Except ε α} {f : α → β} {b : β} :
    x.map f = .ok b ↔ ∃ a, x = .ok a ∧ f a = b := by
  cases x <;> simp [Except.map]

theorem mapM_eq_ok_iff {ε α β : Type} {f : α → Except ε β} {as : List α} {bs : List β} :
    as.mapM f = .ok bs ↔ List.Forall₂ (fun a b => f a = .ok b) as bs := by
  induction as generalizing bs with
  | nil =>
    rw [List.mapM_nil, except_pure_eq_ok_iff, List.forall₂_nil_left_iff]
    exact eq_comm
  | cons a as ih =>
    simp only [List.mapM_cons, except_bind_eq_ok_iff, except_pure_eq_ok_iff, ih]
    constructor
    · rintro ⟨b, hb, bs', hbs', rfl⟩
      exact .cons hb hbs'
    · intro h
      cases h with
      | cons hb hbs' => exact ⟨_, hb, _, hbs', rfl⟩

/-- Related lists have the same images where related elements have the same image. -/
theorem map_eq_map_of_forall₂ {α β γ : Type} {R : α → β → Prop} {f : α → γ} {h : β → γ}
    {as : List α} {bs : List β} (hrel : List.Forall₂ R as bs) (heq : ∀ a b, R a b → h b = f a) :
    bs.map h = as.map f := by
  induction hrel with
  | nil => rfl
  | cons hab _ ih => rw [List.map_cons, List.map_cons, heq _ _ hab, ih]

theorem forall₂_map_self {α β : Type} {R : β → α → Prop} {f : α → β} (h : ∀ a, R (f a) a)
    (as : List α) : List.Forall₂ R (as.map f) as := by
  rw [List.forall₂_map_left_iff]
  exact List.forall₂_same.mpr fun a _ => h a

/-- A field has no accessors. -/
def MemberDescription.normalized (m : MemberDescription) : MemberDescription :=
  match m.kind with
  | .property => m
  | .field => { m with getter := none, setter := none }

/-- Written out in full, and without what does not matter to the kind of the type. -/
def TypeDescription.normalized (t : TypeDescription) : TypeDescription :=
  { t with
    qualifiedName := some (t.qualifiedName.getD t.name)
    element := if t.kind = .arrayType then t.element else none
    members := t.members.map (·.normalized) }

def GraphDescription.normalized (d : GraphDescription) : GraphDescription :=
  { types := d.types.map (·.normalized) }

def Member.describe (m : Member String) : MemberDescription where
  name := m.name
  kind := m.form.kind
  type := m.type
  accessibility := m.accessibility
  overridable := m.overridable
  ignored := m.ignored
  getter := m.form.getter?
  setter := m.form.setter?
  index := m.index
  location := m.location

def TypeDef.describe (t : TypeDef String) : TypeDescription where
  name := t.name
  qualifiedName := some t.qualifiedName
  kind := t.form.kind
  formattable := t.formattable
  element := t.form.element?
  genericDefinition := t.generic.map (·.definition)
  typeArguments := t.generic.elim [] (·.arguments)
  interfaces := t.interfaces
  constructors := t.constructors
  members := t.members.map (·.describe)
  location := t.location

namespace MemberDescription

@[simp] theorem normalized_normalized (m : MemberDescription) :
    m.normalized.normalized = m.normalized := by
  cases hkind : m.kind <;> simp [normalized, hkind]

theorem resolve_normalized {ι : Type} (find : String → Option ι) (owner : String)
    (m : MemberDescription) : m.normalized.resolve find owner = m.resolve find owner := by
  cases hkind : m.kind <;> simp [resolve, normalized, form, hkind]

end MemberDescription

namespace TypeDescription

@[simp] theorem name_normalized (t : TypeDescription) : t.normalized.name = t.name := rfl

@[simp] theorem normalized_normalized (t : TypeDescription) :
    t.normalized.normalized = t.normalized := by
  by_cases h : t.kind = .arrayType <;> simp [normalized, h, Function.comp_def]

/-- What a normal form leaves out has no say in how a type is resolved. -/
theorem resolve_normalized {ι : Type} (find : String → Option ι) (t : TypeDescription) :
    t.normalized.resolve find = t.resolve find := by
  have hform : t.normalized.resolveForm find = t.resolveForm find := by
    unfold resolveForm
    cases hkind : t.kind <;> simp [normalized, hkind]
  have hmembers : t.normalized.members.mapM (·.resolve find t.name) =
      t.members.mapM (·.resolve find t.name) := by
    simp only [normalized, List.mapM_map]
    congr 1
    funext m
    exact m.resolve_normalized find t.name
  unfold resolve
  rw [hform, name_normalized, hmembers]
  rfl

end TypeDescription

theorem Member.normalized_describe (m : Member String) : m.describe.normalized = m.describe := by
  obtain ⟨name, form⟩ := m
  cases form <;> rfl

section Inverse

variable {ι : Type} {find : String → Option ι} {nameOf : ι → String} {owner : String}

theorem resolveName_eq_ok_iff {name : String} {i : ι} :
    resolveName find owner name = .ok i ↔ find name = some i := by
  unfold resolveName
  cases find name <;> simp

section Describe

variable (h : ∀ name i, find name = some i → nameOf i = name)
include h

theorem map_of_resolveNames {names : List String} {is : List ι}
    (hresolve : resolveNames find owner names = .ok is) : is.map nameOf = names := by
  have hnames := map_eq_map_of_forall₂ (f := id) (mapM_eq_ok_iff.mp hresolve)
    fun name i hi => h name i (resolveName_eq_ok_iff.mp hi)
  rwa [List.map_id] at hnames

theorem MemberDescription.describe_of_resolve {m : MemberDescription} {resolved : Member ι}
    (hresolve : m.resolve find owner = .ok resolved) :
    (resolved.map nameOf).describe = m.normalized := by
  simp only [resolve, except_bind_eq_ok_iff, except_pure_eq_ok_iff] at hresolve
  obtain ⟨i, hi, rfl⟩ := hresolve
  have htype := h m.type i (resolveName_eq_ok_iff.mp hi)
  obtain ⟨name, kind, type⟩ := m
  cases kind <;>
    simp_all [Member.map, Member.describe, normalized, form, MemberForm.kind,
      MemberForm.getter?, MemberForm.setter?]

theorem TypeDescription.form_of_resolveForm {t : TypeDescription} {form : TypeForm ι}
    (hresolve : t.resolveForm find = .ok form) :
    form.kind = t.kind ∧
      form.element?.map nameOf = if t.kind = .arrayType then t.element else none := by
  unfold resolveForm at hresolve
  cases hkind : t.kind with
  | arrayType =>
    cases helement : t.element with
    | none => simp [hkind, helement] at hresolve
    | some element =>
      simp only [hkind, helement, except_map_eq_ok_iff] at hresolve
      obtain ⟨i, hi, rfl⟩ := hresolve
      have hname := h element i (resolveName_eq_ok_iff.mp hi)
      simp [TypeForm.kind, TypeForm.element?, hname]
  | _ =>
    simp only [hkind, Except.ok.injEq] at hresolve
    simp [← hresolve, TypeForm.kind, TypeForm.element?]

theorem TypeDescription.generic_of_resolveGeneric {t : TypeDescription}
    {generic : Option (GenericInstance ι)} (hresolve : t.resolveGeneric find = .ok generic) :
    generic.map (·.definition) = t.genericDefinition ∧
      generic.elim [] (·.arguments.map nameOf) = t.typeArguments := by
  unfold resolveGeneric at hresolve
  cases hdefinition : t.genericDefinition with
  | none =>
    simp only [hdefinition] at hresolve
    split at hresolve
    · rename_i harguments
      simp [← Except.ok.inj hresolve, harguments]
    · cases hresolve
  | some definition =>
    simp only [hdefinition, except_map_eq_ok_iff] at hresolve
    obtain ⟨arguments, harguments, rfl⟩ := hresolve
    exact ⟨rfl, map_of_resolveNames h harguments⟩

/-- A resolved definition is described by the normal form of what it was resolved from. -/
theorem TypeDescription.describe_of_resolve {t : TypeDescription} {resolved : TypeDef ι}
    (hresolve : t.resolve find = .ok resolved) :
    (resolved.map nameOf).describe = t.normalized := by
  simp only [resolve, except_bind_eq_ok_iff, except_pure_eq_ok_iff] at hresolve
  obtain ⟨form, hform, generic, hgeneric, constructors, hconstructors, members, hmembers,
    interfaces, hinterfaces, rfl⟩ := hresolve
  obtain ⟨hkind, helement⟩ := form_of_resolveForm h hform
  obtain ⟨hdefinition, harguments⟩ := generic_of_resolveGeneric h hgeneric
  have hconstructors' : constructors.map (·.map nameOf) = t.constructors := by
    have hparameters := map_eq_map_of_forall₂ (f := id) (mapM_eq_ok_iff.mp hconstructors)
      fun _ _ => map_of_resolveNames h
    rwa [List.map_id] at hparameters
  have hmembers' : members.map (fun m => (m.map nameOf).describe) =
      t.members.map (·.normalized) :=
    map_eq_map_of_forall₂ (mapM_eq_ok_iff.mp hmembers)
      fun _ _ => MemberDescription.describe_of_resolve h
  have hinterfaces' := map_of_resolveNames h hinterfaces
  cases generic <;>
    simp_all [TypeDef.map, TypeDef.describe, normalized, GenericInstance.map, Function.comp_def]

end Describe

section Resolve

variable (h : ∀ i, find (nameOf i) = some i)
include h

theorem resolveNames_map (is : List ι) : resolveNames find owner (is.map nameOf) = .ok is :=
  mapM_eq_ok_iff.mpr (forall₂_map_self (fun i => resolveName_eq_ok_iff.mpr (h i)) is)

theorem Member.resolve_describe (m : Member ι) :
    (m.map nameOf).describe.resolve find owner = .ok m := by
  have htype : resolveName find owner (nameOf m.type) = .ok m.type :=
    resolveName_eq_ok_iff.mpr (h m.type)
  simp only [MemberDescription.resolve, except_bind_eq_ok_iff, except_pure_eq_ok_iff]
  refine ⟨m.type, htype, ?_⟩
  cases m with
  | mk name form => cases form <;> rfl

/-- A definition is resolved from its own description. -/
theorem TypeDef.resolve_describe (t : TypeDef ι) :
    (t.map nameOf).describe.resolve find = .ok t := by
  simp only [TypeDescription.resolve, except_bind_eq_ok_iff, except_pure_eq_ok_iff]
  refine ⟨t.form, ?_, t.generic, ?_, t.constructors, ?_, t.members, ?_, t.interfaces,
    resolveNames_map h t.interfaces, rfl⟩
  · cases hform : t.form <;>
      simp [TypeDescription.resolveForm, describe, map, hform, TypeForm.map, TypeForm.kind,
        TypeForm.element?, except_map_eq_ok_iff, resolveName_eq_ok_iff, h]
  · cases hgeneric : t.generic with
    | none => simp [TypeDescription.resolveGeneric, describe, map, hgeneric]
    | some generic =>
      simp [TypeDescription.resolveGeneric, describe, map, hgeneric, GenericInstance.map,
        except_map_eq_ok_iff, resolveNames_map h]
  · exact mapM_eq_ok_iff.mpr (forall₂_map_self (fun is => resolveNames_map h is) t.constructors)
  · rw [mapM_eq_ok_iff]
    simp only [describe, map, List.map_map]
    exact forall₂_map_self (fun m => Member.resolve_describe h m) t.members

end Resolve

/-- Definitions with the same description are the same, where names tell handles apart. -/
theorem TypeDef.describe_map_injective (h : Function.Injective nameOf) {t t' : TypeDef ι}
    (heq : (t.map nameOf).describe = (t'.map nameOf).describe) : t = t' := by
  have hfind : ∀ i, Function.partialInv nameOf (nameOf i) = some i := Function.partialInv_left h
  have hresolve := TypeDef.resolve_describe hfind t
  rw [heq, TypeDef.resolve_describe hfind t'] at hresolve
  exact (Except.ok.inj hresolve).symm

end Inverse
end LayoutContract
