import LayoutContract.Proofs.AlikeDefinitions
import LayoutContract.Proofs.Extensions
import LayoutContract.Proofs.RootSubject

/-!
What the findings about a class, interface or struct depend on. Of the type itself it is everything
but the members outside its contract; of other types nothing but what a walk looks at, so neither
their members nor the constructors of structs; and of types that nobody knew before, nothing at all.
-/
namespace LayoutContract

def MemberDescription.isInContract (m : MemberDescription) : Bool :=
  m.accessibility == .publicAccess && !m.ignored

namespace TypeDescription

/-- Without the members that are not public or are ignored. -/
def contractOnly (t : TypeDescription) : TypeDescription :=
  { t with members := t.members.filter (·.isInContract) }

/-- Without all members, and a struct without its constructors as well. -/
def outsideOnly (t : TypeDescription) : TypeDescription :=
  { t with
    members := []
    constructors := if t.kind = .structType then [] else t.constructors }

/-- The type named `root` keeps its contract, any other type what is seen from outside. -/
def KeepsContractOf (root : String) (t t' : TypeDescription) : Prop :=
  if t.name = root then t'.contractOnly = t.contractOnly else t'.outsideOnly = t.outsideOnly

theorem isInContract_normalized (m : MemberDescription) :
    m.normalized.isInContract = m.isInContract := by
  cases hkind : m.kind <;>
    simp [MemberDescription.isInContract, MemberDescription.normalized, hkind]

theorem contractOnly_normalized (t : TypeDescription) :
    t.normalized.contractOnly = t.contractOnly.normalized := by
  simp only [contractOnly, normalized, List.filter_map, Function.comp_def, isInContract_normalized]
  rfl

theorem outsideOnly_normalized (t : TypeDescription) :
    t.normalized.outsideOnly = t.outsideOnly.normalized := rfl

theorem outsideOnly_contractOnly (t : TypeDescription) :
    t.contractOnly.outsideOnly = t.outsideOnly := rfl

namespace KeepsContractOf

variable {root : String} {t t' : TypeDescription} (h : t.KeepsContractOf root t')
include h

theorem contractOnly (hroot : t.name = root) : t'.contractOnly = t.contractOnly := by
  rwa [KeepsContractOf, if_pos hroot] at h

theorem outsideOnly : t'.outsideOnly = t.outsideOnly := by
  by_cases hroot : t.name = root
  · rw [← outsideOnly_contractOnly, h.contractOnly hroot, outsideOnly_contractOnly]
  · rwa [KeepsContractOf, if_neg hroot] at h

theorem name : t'.name = t.name := congrArg (·.name) h.outsideOnly

theorem normalized : t.normalized.KeepsContractOf root t'.normalized := by
  unfold KeepsContractOf
  split
  · rename_i hroot
    rw [contractOnly_normalized, contractOnly_normalized, h.contractOnly hroot]
  · rw [outsideOnly_normalized, outsideOnly_normalized, h.outsideOnly]

end KeepsContractOf

theorem KeepsContractOf.refl (root : String) (t : TypeDescription) : t.KeepsContractOf root t := by
  unfold KeepsContractOf
  split <;> rfl

end TypeDescription

/-- Each type keeps what it has to, and more types may be declared under names that are not known
in `d`. -/
def GraphDescription.KeepsContractOf (root : String) (implicit : List String)
    (d d' : GraphDescription) : Prop :=
  d.Extends (TypeDescription.KeepsContractOf root) implicit d'

namespace TypeDef

variable {ι κ : Type}

def contractOnly (t : TypeDef ι) : TypeDef ι :=
  { t with members := t.members.filter (·.isInContract) }

def outsideOnly (t : TypeDef ι) : TypeDef ι :=
  { t with
    members := []
    constructors := if t.form.kind = .structType then [] else t.constructors }

theorem contractOnly_map (f : ι → κ) (t : TypeDef ι) :
    (t.map f).contractOnly = t.contractOnly.map f := by
  simp only [contractOnly, map, List.filter_map]
  rfl

theorem outsideOnly_map (f : ι → κ) (t : TypeDef ι) :
    (t.map f).outsideOnly = t.outsideOnly.map f := by
  simp only [outsideOnly, map, TypeForm.kind_map, List.map_nil]
  split <;> rfl

theorem contractOnly_describe (t : TypeDef String) :
    t.describe.contractOnly = t.contractOnly.describe := by
  simp only [TypeDescription.contractOnly, contractOnly, describe, List.filter_map]
  rfl

theorem outsideOnly_describe (t : TypeDef String) :
    t.describe.outsideOnly = t.outsideOnly.describe := rfl

/-- The members of a contract are checked in an order of their own. -/
theorem contractMembers_contractOnly (t : TypeDef ι) :
    t.contractOnly.contractMembers = t.contractMembers := by
  simp only [contractMembers, membersInCheckOrder, contractOnly, List.filter_append,
    List.filter_filter]
  congr 2 <;> funext m <;> cases m.isInContract <;> simp

/-- What is seen from outside is all that a walk looks at. -/
theorem seenAlike_of_outsideOnly {t t' : TypeDef ι} (h : t'.outsideOnly = t.outsideOnly) :
    t.SeenAlike t' := by
  have hform : t'.form = t.form := congrArg (·.form) h
  refine ⟨.of_eq (congrArg (·.interfaces) h).symm, fun hvalue => ?_, ?_⟩
  · have hstruct : t.form.kind ≠ .structType := by
      intro hstruct
      simp [isValue, hstruct, TypeKind.isValue] at hvalue
    have hconstructors : t'.constructors = t.constructors := by
      simpa [outsideOnly, hform, hstruct] using congrArg (·.constructors) h
    rw [hasParameterlessConstructor, hconstructors]
    rfl
  · obtain ⟨name, qualifiedName, form, formattable, generic, interfaces, constructors, members,
      location⟩ := t
    obtain ⟨name', qualifiedName', form', formattable', generic', interfaces', constructors',
      members', location'⟩ := t'
    simp_all [outsideOnly]

end TypeDef

namespace TypeGraph

variable {d d' : GraphDescription} {implicit : List String} {g g' : TypeGraph}

/-- Each type of `g` has an image in `g'` that keeps what it has to for the contract of `root`. -/
structure KeepsContractOf (g g' : TypeGraph) (φ : g.Handle → g'.Handle) (root : g.Handle) :
    Prop extends g.SeenAlike g' φ where
  contract : (g'.typeAt (φ root)).contractOnly = ((g.typeAt root).map φ).contractOnly

/-- The contract of a root is checked alike. -/
theorem KeepsContractOf.checksAlike {φ : g.Handle → g'.Handle} {root : g.Handle}
    (h : g.KeepsContractOf g' φ root) (c : Config) : g.ChecksAlike c g' c φ root where
  toJudgesAlike := h.judgesAlike c root
  fault := h.fault? root
  members := by
    rw [← TypeDef.contractMembers_contractOnly, h.contract, TypeDef.contractMembers_contractOnly,
      contractMembers_map]
  constructors := h.constructorsAlike (.of_eq (congrArg (·.constructors) h.contract).symm)

theorem KeepsContractOf.analyze {φ : g.Handle → g'.Handle} {root : g.Handle}
    (h : g.KeepsContractOf g' φ root) (hkind : (g.typeAt root).form.kind.isComposite = true)
    (c : Config) : g'.analyze c (φ root) = g.analyze c root := by
  refine (h.walksAlike c).analyze_map fun i hi => ?_
  obtain rfl : i = root := (standsFor_of_subject hi).eq_root hkind
  exact h.checksAlike c

/-- What descriptions keep, the definitions in their graphs keep. -/
theorem exists_keepsContractOf {root : g.Handle} (hg : build d implicit = .ok g)
    (hg' : build d' implicit = .ok g') (h : d.KeepsContractOf (g.nameOf root) implicit d') :
    ∃ φ : g.Handle → g'.Handle,
      g.KeepsContractOf g' φ root ∧ g'.nameOf (φ root) = g.nameOf root := by
  have himplicit : ∀ name ∈ newNames d.names (builtinScalars ++ implicit),
      (TypeDescription.implicit name).KeepsContractOf (g.nameOf root) (.implicit name) :=
    fun name _ => .refl _ _
  obtain ⟨φ, hinjective, hnames, hφ⟩ := exists_handleMap hg hg'
    TypeDescription.KeepsContractOf.name TypeDescription.KeepsContractOf.normalized
    fun _ => h.exists_entry TypeDescription.KeepsContractOf.name himplicit
  refine ⟨φ, ⟨⟨hinjective, fun i => TypeDef.seenAlike_of_outsideOnly ?_⟩, ?_⟩, hnames root⟩
  · apply TypeDef.describe_map_injective (nameOf_injective hg')
    rw [← TypeDef.outsideOnly_map, ← TypeDef.outsideOnly_map, ← TypeDef.outsideOnly_describe,
      ← TypeDef.outsideOnly_describe, describe_of_nameOf hnames i]
    exact (hφ i).outsideOnly
  · apply TypeDef.describe_map_injective (nameOf_injective hg')
    rw [← TypeDef.contractOnly_map, ← TypeDef.contractOnly_map, ← TypeDef.contractOnly_describe,
      ← TypeDef.contractOnly_describe, describe_of_nameOf hnames root]
    exact (hφ root).contractOnly rfl

/-- Only its own contract matters to the findings about a class, interface or struct. They stay
the same, in the same order, whatever becomes of the members of other types, of the constructors
of other structs and of its own members outside the contract, and whatever types are added. -/
theorem only_own_contract_matters {root : g.Handle} (hg : build d implicit = .ok g)
    (hg' : build d' implicit = .ok g') (hkind : (g.typeAt root).form.kind.isComposite = true)
    (h : d.KeepsContractOf (g.nameOf root) implicit d') :
    ∃ root', g'.lookup (g.nameOf root) = some root' ∧
      ∀ c : Config, g'.analyze c root' = g.analyze c root := by
  obtain ⟨φ, hφ, hname⟩ := exists_keepsContractOf hg hg' h
  exact ⟨φ root, (lookup_eq_some_iff (nameOf_injective hg')).mpr hname, hφ.analyze hkind⟩

/-- An invoice with lines, and with a customer that is not annotated. -/
def invoice : GraphDescription where
  types := [
    TypeDescription.ofKind .structType "Invoice"
      |>.asFormattable
      |>.withConstructor ["Line[]", "Customer"]
      |>.withMember ((MemberDescription.field "Lines" "Line[]").indexed 0)
      |>.withMember ((MemberDescription.field "Customer" "Customer").indexed 1),
    .array "Line[]" "Line",
    TypeDescription.ofKind .structType "Line"
      |>.asFormattable
      |>.withConstructor ["int"]
      |>.withMember ((MemberDescription.field "Amount" "int").indexed 0),
    .ofKind .classType "Customer"]

/-- Lines are kept in an archive, which an invoice knows but does not show. -/
def archivedInvoice : GraphDescription where
  types := [
    TypeDescription.ofKind .structType "Invoice"
      |>.asFormattable
      |>.withConstructor ["Line[]", "Customer"]
      |>.withMember ((MemberDescription.field "Archive" "Archive").indexed 0).asIgnored
      |>.withMember ((MemberDescription.field "Lines" "Line[]").indexed 0)
      |>.withMember ((MemberDescription.field "Hash" "long").accessible .privateAccess)
      |>.withMember ((MemberDescription.field "Customer" "Customer").indexed 1),
    .array "Line[]" "Line",
    TypeDescription.ofKind .structType "Line"
      |>.asFormattable
      |>.withConstructor ["Archive"]
      |>.withMember ((MemberDescription.field "Kept" "Archive").indexed 7),
    (TypeDescription.ofKind .classType "Customer").withMember (.property "Invoices" "Archive"),
    .ofKind .classType "Archive"]

theorem archivedInvoice_keepsContractOf_invoice :
    invoice.KeepsContractOf "Invoice" [] archivedInvoice := by
  refine ⟨archivedInvoice.types.take 4, archivedInvoice.types.drop 4, .refl _, ?_, ?_⟩
  · simp only [invoice, archivedInvoice, TypeDescription.KeepsContractOf, List.take,
      List.forall₂_cons, List.Forall₂.nil]
    decide +kernel
  · decide +kernel

def invoiceGraph : TypeGraph := (build invoice []).toOption.get (by decide +kernel)

def invoiceRoot : invoiceGraph.Handle := (invoiceGraph.lookup "Invoice").get (by decide +kernel)

/-- With the archive the same is found about an invoice, which leads to customers as before. -/
theorem invoice_found_alike_with_archive :
    build invoice [] = .ok invoiceGraph ∧
      invoice.KeepsContractOf "Invoice" [] archivedInvoice ∧
      invoiceGraph.analyze {} invoiceRoot = [.typeMustBeAnnotated {} ⟨"Customer", {}⟩] ∧
      ∃ g', build archivedInvoice [] = .ok g' ∧ ∃ root', g'.lookup "Invoice" = some root' ∧
        ∀ c : Config, g'.analyze c root' = invoiceGraph.analyze c invoiceRoot := by
  have hname : invoiceGraph.nameOf invoiceRoot = "Invoice" := by decide +kernel
  obtain ⟨g', hg'⟩ : ∃ g', build archivedInvoice [] = .ok g' :=
    ⟨(build archivedInvoice []).toOption.get (by decide +kernel), rfl⟩
  have hkind : (invoiceGraph.typeAt invoiceRoot).form.kind.isComposite = true := by decide +kernel
  have hkept := only_own_contract_matters rfl hg' hkind
    (hname ▸ archivedInvoice_keepsContractOf_invoice)
  exact ⟨rfl, archivedInvoice_keepsContractOf_invoice, by decide +kernel, g', hg', hname ▸ hkept⟩

end TypeGraph
end LayoutContract
