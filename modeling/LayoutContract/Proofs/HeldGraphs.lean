import LayoutContract.Proofs.AlikeGraphs
import LayoutContract.Proofs.TypeSources
import LayoutContract.Proofs.VisitedTypes

/-!
Hosts that hold a graph. When a host answers for the id of each type of a graph with the definition
of that type, ids in place of handles, the check against the host is the check in the graph: no id
is foreign to the host, and all that can stop the check is a lack of room. It is stopped only where
there is less room than types that are left, since a call that is nested in another one comes
after an arrival at a type.
-/
namespace LayoutContract

section Gives

variable {ι α β : Type} {cramped cramped' : Prop} {r : Except (Stop ι) α} {a : α}

/-- The result is `a`, unless the room was too short for it. -/
def Gives (cramped : Prop) (r : Except (Stop ι) α) (a : α) : Prop :=
  r = .ok a ∨ r = .error .tooDeep ∧ cramped

namespace Gives

theorem pure (a : α) : Gives cramped (Pure.pure a : Except (Stop ι) α) a := .inl rfl

theorem mono (h : Gives cramped r a) (himp : cramped → cramped') : Gives cramped' r a :=
  h.imp_right fun ⟨herror, hcramped⟩ => ⟨herror, himp hcramped⟩

theorem bind {f : α → Except (Stop ι) β} {b : β} (h : Gives cramped r a)
    (hf : Gives cramped (f a) b) : Gives cramped (r >>= f) b := by
  rcases h with rfl | ⟨rfl, hcramped⟩
  · exact hf
  · exact .inr ⟨rfl, hcramped⟩

/-- Steps in a row give what each of them gives, if there is no more room behind a step than
before it. -/
theorem foldlM {σ σ' : Type} {step : σ' → β → Except (Stop ι) σ'} {step' : σ → α → σ}
    {f : σ → σ'} {φ : α → β} {short : σ → Prop}
    (hstep : ∀ a x, Gives (short a) (step (f a) (φ x)) (f (step' a x)))
    (hshort : ∀ a x, short (step' a x) → short a) (a : σ) (xs : List α) :
    Gives (short a) ((xs.map φ).foldlM step (f a)) (f (xs.foldl step' a)) := by
  induction xs generalizing a with
  | nil => exact Gives.pure _
  | cons x xs ih =>
    rw [List.map_cons, List.foldlM_cons, List.foldl_cons]
    exact (hstep a x).bind ((ih (step' a x)).mono (hshort a x))

theorem eq_ok (h : Gives cramped r a) (hroom : ¬ cramped) : r = .ok a :=
  h.resolve_right fun hstop => hroom hstop.2

theorem ne_foreign (h : Gives cramped r a) (i : ι) : r ≠ .error (.foreign i) := by
  rcases h with rfl | ⟨rfl, -⟩ <;> simp

end Gives
end Gives

section Lists

variable {m : Type → Type} [Monad m] [LawfulMonad m] {α β : Type} {φ : α → β}

theorem anyM_map_eq_pure {f : β → m Bool} {p : α → Bool} (h : ∀ a, f (φ a) = pure (p a))
    (as : List α) : (as.map φ).anyM f = pure (as.any p) := by
  induction as with
  | nil => rfl
  | cons a as ih =>
    rw [List.map_cons, List.anyM_cons, h, pure_bind, ih, List.any_cons]
    cases p a <;> rfl

theorem allM_map_eq_pure {f : β → m Bool} {p : α → Bool} (h : ∀ a, f (φ a) = pure (p a))
    (as : List α) : (as.map φ).allM f = pure (as.all p) := by
  induction as with
  | nil => rfl
  | cons a as ih =>
    rw [List.map_cons, List.allM_cons, h, pure_bind, ih, List.all_cons]
    cases p a <;> rfl

end Lists

theorem IndexLedger.accepts_eq_zip {ι : Type} (qualified : ι → String)
    (expected parameters : List ι) :
    accepts qualified expected parameters =
      if parameters.length = expected.length then
        (parameters.zip expected).all fun pair => qualified pair.1 == qualified pair.2
      else false := by
  unfold accepts
  induction parameters generalizing expected with
  | nil => cases expected <;> rfl
  | cons parameter parameters ih =>
    cases expected with
    | nil => rfl
    | cons member expected =>
      simp only [List.map_cons, List.cons_beq_cons, ih, List.length_cons, Nat.add_right_cancel_iff,
        List.zip_cons_cons, List.all_cons]
      by_cases hlength : parameters.length = expected.length <;> simp [hlength]

namespace TypeGraph

/-- The host holds the types of the graph, each under an id of its own. -/
structure HeldBy {ι : Type} (g : TypeGraph) (s : TypeSource ι) (φ : g.Handle → ι) : Prop where
  injective : Function.Injective φ
  find : ∀ i, s.find? (φ i) = some ((g.typeAt i).map φ)

namespace HeldBy

variable {ι : Type} {g : TypeGraph} {s : TypeSource ι} {φ : g.Handle → ι} {c : Config}
  (h : g.HeldBy s φ)
include h

theorem get_eq (i : g.Handle) : s.get (φ i) = pure ((g.typeAt i).map φ) := by
  rw [TypeSource.get, h.find i]
  rfl

theorem site_eq (i : g.Handle) : s.site (φ i) = pure (g.site i) := by
  rw [TypeSource.site, h.get_eq, pure_bind]
  rfl

theorem memberSite_eq (owner : g.Handle) (m : Member g.Handle) :
    s.memberSite (φ owner) (m.map φ) = pure (g.memberSite owner m) := by
  rw [TypeSource.memberSite, h.get_eq, pure_bind]
  rfl

theorem formattableRoots_eq (is : List g.Handle) :
    s.formattableRoots (is.map φ) =
      pure ((is.filter fun i => (g.typeAt i).isFormattableRoot).map φ) := by
  induction is with
  | nil => rfl
  | cons i is ih =>
    rw [List.map_cons, TypeSource.formattableRoots, h.get_eq, pure_bind, ih, pure_bind,
      TypeDef.isFormattableRoot_map, List.filter_cons]
    cases (g.typeAt i).isFormattableRoot <;> rfl

section Shape

theorem isCollectionInterface_eq (i : g.Handle) :
    s.isCollectionInterface (φ i) = pure (g.isCollectionInterface i) := by
  rw [TypeSource.isCollectionInterface, h.get_eq, pure_bind, TypeDef.generic_map, isCollectionInterface]
  cases (g.typeAt i).generic <;> rfl

theorem shape_eq (i : g.Handle) : s.shape (φ i) = pure (g.shape i) := by
  have hinterfaces : ((g.typeAt i).map φ).interfaces.anyM s.isCollectionInterface =
      pure ((g.typeAt i).interfaces.any g.isCollectionInterface) :=
    anyM_map_eq_pure h.isCollectionInterface_eq _
  rw [TypeSource.shape, h.get_eq, pure_bind, hinterfaces, TypeDef.generic_map, shape]
  cases (g.typeAt i).generic with
  | none => rfl
  | some generic =>
    have hfamily : (generic.map φ).family = generic.family := rfl
    have harity : (generic.map φ).arguments.length = generic.arguments.length :=
      List.length_map φ
    simp only [Option.map_some, hfamily, harity, pure_bind]
    cases GenericShape.families.lookup generic.family with
    | some shape => rfl
    | none => cases (g.typeAt i).interfaces.any g.isCollectionInterface <;> rfl

theorem wrapped?_eq (i : g.Handle) : s.wrapped? (φ i) = pure ((g.wrapped? i).map (·.map φ)) := by
  rw [TypeSource.wrapped?, h.get_eq, pure_bind, TypeDef.generic_map, h.shape_eq, wrapped?]
  cases (g.typeAt i).generic with
  | none => rfl
  | some generic =>
    simp only [Option.map_some, pure_bind]
    cases (g.shape i).isWrapper <;> rfl

end Shape

section Layout

variable (ledger : IndexLedger g.Handle) (i : g.Handle)

theorem accepts_eq (expected parameters : List g.Handle) :
    s.accepts (expected.map φ) (parameters.map φ) =
      pure (IndexLedger.accepts (fun j => (g.typeAt j).qualifiedName) expected parameters) := by
  rw [IndexLedger.accepts_eq_zip, TypeSource.accepts, List.length_map, List.length_map]
  by_cases hlength : parameters.length = expected.length
  · rw [if_pos hlength, if_pos hlength, List.zip_map]
    refine allM_map_eq_pure (fun pair => ?_) _
    simp only [Prod.map, h.get_eq, pure_bind]
    rfl
  · rw [if_neg hlength, if_neg hlength]

theorem layoutVerdict_eq :
    s.layoutVerdict (ledger.map φ) (φ i) = pure ((g.layoutVerdict ledger i).map φ) := by
  unfold TypeSource.layoutVerdict layoutVerdict IndexLedger.verdict
  rw [IndexLedger.indices_map, IndexLedger.memberTypes_map]
  generalize ledger.sorted.map (·.memberType) = expected
  cases IndexLedger.firstGap (ledger.sorted.map (·.index)) with
  | some index => rfl
  | none =>
    have hconstructors : ((g.typeAt i).map φ).constructors.anyM (s.accepts (expected.map φ)) =
        pure ((g.typeAt i).constructors.any
          (IndexLedger.accepts (fun j => (g.typeAt j).qualifiedName) expected)) :=
      anyM_map_eq_pure (h.accepts_eq expected) _
    simp only [List.isEmpty_map, h.get_eq, pure_bind, hconstructors]
    cases expected.isEmpty with
    | true => rfl
    | false =>
      cases (g.typeAt i).constructors.any
        (IndexLedger.accepts (fun j => (g.typeAt j).qualifiedName) expected) <;> rfl

theorem layoutFinding?_eq (caller : Location) :
    s.layoutFinding? caller (φ i) (ledger.map φ) = pure (g.layoutFinding? caller i ledger) := by
  rw [TypeSource.layoutFinding?, h.layoutVerdict_eq, pure_bind, layoutFinding?]
  cases g.layoutVerdict ledger i with
  | valid => rfl
  | gap index => simp only [LayoutVerdict.map, h.site_eq, pure_bind]
  | noMatchingConstructor expected =>
    have hnames : ((expected.map φ).mapM fun j => (·.name) <$> s.get j) =
        pure (expected.map fun j => (g.typeAt j).name) := by
      rw [List.mapM_map, ← List.mapM_pure]
      congr 1
      funext j
      simp only [Function.comp_apply, h.get_eq, map_pure]
      rfl
    simp only [LayoutVerdict.map, hnames, h.site_eq, pure_bind]

theorem checkLayout_eq (caller : Location) (p : MemberPass g.Handle) :
    s.checkLayout caller (φ i) (p.map φ) = pure ((g.checkLayout caller i p).map φ) := by
  have hclean : (p.map φ).context.isClean = p.context.isClean := rfl
  have hledger : (p.map φ).ledger = p.ledger.map φ := rfl
  simp only [TypeSource.checkLayout, h.get_eq, pure_bind, TypeDef.isValue_map, hclean, hledger,
    h.layoutFinding?_eq, checkLayout]
  cases (g.typeAt i).isValue && p.context.isClean with
  | false => rfl
  | true => cases g.layoutFinding? caller i p.ledger <;> rfl

end Layout

section Members

variable (owner : g.Handle) (m : Member g.Handle)

theorem formFinding?_eq : s.formFinding? (φ owner) (m.map φ) = pure (g.formFinding? owner m) := by
  have hform : (m.map φ).form = m.form := rfl
  have hoverridable : (m.map φ).overridable = m.overridable := rfl
  simp only [TypeSource.formFinding?, h.get_eq, pure_bind, TypeDef.isValue_map, h.memberSite_eq,
    hform, hoverridable, formFinding?]
  cases (g.typeAt owner).isValue with
  | true => rfl
  | false =>
    cases m.form with
    | field => rfl
    | property _ _ => cases m.overridable <;> rfl

theorem accessFinding?_eq :
    s.accessFinding? (φ owner) (m.map φ) = pure (g.accessFinding? owner m) := by
  have hform : (m.map φ).form = m.form := rfl
  simp only [TypeSource.accessFinding?, h.get_eq, pure_bind, TypeDef.isValue_map, h.memberSite_eq,
    hform, accessFinding?]
  cases (g.typeAt owner).isValue || m.form.isReadableAndWritable <;> rfl

theorem thresholdFinding?_eq (index : Int) :
    s.thresholdFinding? c (φ owner) (m.map φ) index =
      pure (g.thresholdFinding? c owner m index) := by
  simp only [TypeSource.thresholdFinding?, h.memberSite_eq, pure_bind, thresholdFinding?]
  split <;> rfl

-- The check of a type behind a member, with room for `depth` nested calls.
variable {depth : Nat} {descend : Location → Context ι → ι → Except (Stop ι) (Context ι)}
  (hdescend : ∀ caller context i, Gives (depth ≤ g.unvisited context.visited)
    (descend caller (context.map φ) (φ i)) ((g.walk c caller context [i]).map φ))
include hdescend

theorem checkClaimed_gives (index : Int) (context : Context g.Handle) :
    Gives (depth ≤ g.unvisited context.visited)
      (s.checkClaimed c descend (φ owner) (m.map φ) index (context.map φ))
      ((g.checkClaimed c owner m index context).map φ) := by
  rw [TypeSource.checkClaimed, h.thresholdFinding?_eq, pure_bind, h.accessFinding?_eq, pure_bind,
    checkClaimed]
  cases g.accessFinding? owner m with
  | some d => cases g.thresholdFinding? c owner m index <;> exact Gives.pure _
  | none =>
    cases g.thresholdFinding? c owner m index with
    | some d => exact hdescend m.location (context.report d) m.type
    | none => exact hdescend m.location context m.type

theorem checkIndexed_gives (index : Int) (p : MemberPass g.Handle) :
    Gives (depth ≤ g.unvisited p.context.visited)
      (s.checkIndexed c descend (φ owner) (m.map φ) index (p.map φ))
      ((g.checkIndexed c owner m index p).map φ) := by
  unfold TypeSource.checkIndexed checkIndexed
  rw [MemberPass.record_map]
  obtain ⟨free, ledger⟩ := p.ledger.record ⟨index, owner, m.type⟩
  cases free with
  | true => exact (h.checkClaimed_gives owner m hdescend index p.context).bind (Gives.pure _)
  | false =>
    simp only [h.memberSite_eq, pure_bind]
    exact Gives.pure _

theorem checkMember_gives (p : MemberPass g.Handle) :
    Gives (depth ≤ g.unvisited p.context.visited)
      (s.checkMember c descend (φ owner) (p.map φ) (m.map φ))
      ((g.checkMember c owner p m).map φ) := by
  have hcontract : (m.map φ).isInContract = m.isInContract := rfl
  have hindex : (m.map φ).index = m.index := rfl
  unfold TypeSource.checkMember checkMember
  rw [hcontract, h.formFinding?_eq, pure_bind, hindex]
  cases m.isInContract with
  | false => exact Gives.pure _
  | true =>
    cases g.formFinding? owner m with
    | some d => exact Gives.pure _
    | none =>
      cases m.index with
      | missing | empty =>
        simp only [h.memberSite_eq, pure_bind]
        exact Gives.pure _
      | null => exact Gives.pure _
      | value index => exact h.checkIndexed_gives owner m hdescend index p

theorem checkMembers_gives (context : Context g.Handle) :
    Gives (depth ≤ g.unvisited context.visited)
      (s.checkMembers c descend (φ owner) (context.map φ))
      ((g.checkMembers c owner context).map φ) := by
  rw [TypeSource.checkMembers, h.get_eq, pure_bind, membersInCheckOrder_map]
  -- A later member finds no more types left than an earlier one.
  refine Gives.foldlM (fun p m => h.checkMember_gives owner m hdescend p)
    (fun p m hcramped => ?_) ⟨context, .empty⟩ _
  exact hcramped.trans (unvisited_le_of_growsTo (growsTo_checkMember owner p m))

omit h in
theorem foldlM_descend_gives (caller : Location) (context : Context g.Handle)
    (is : List g.Handle) :
    Gives (depth ≤ g.unvisited context.visited)
      ((is.map φ).foldlM (descend caller) (context.map φ))
      ((is.foldl (g.comeTo c true caller) context).map φ) :=
  Gives.foldlM (fun context i => hdescend caller context i)
    (fun context i hcramped =>
      hcramped.trans (unvisited_le_of_growsTo (growsTo_walk caller context [i])))
    context is

theorem verifyComposite_gives (nested : Bool) (caller : Location) {context : Context g.Handle}
    {i : g.Handle} (hi : i ∉ context.visited)
    (hname : c.isTerminal (g.typeAt i).name = false)
    (hkind : (g.typeAt i).form.kind.isComposite = true) :
    Gives (depth ≤ g.unvisited (context.visit i).visited)
      (s.verifyComposite c descend nested caller ((context.visit i).map φ) (φ i))
      ((g.comeTo c nested caller context i).map φ) := by
  have hrole := role_of_composite hname hkind
  rw [TypeSource.verifyComposite]
  cases nested with
  | true =>
    simp only [if_true, h.wrapped?_eq, pure_bind]
    cases hwrapped : g.wrapped? i with
    | some arguments =>
      simp only [hwrapped] at hrole
      rw [comeTo_nested_of_wrapper caller hi hrole]
      exact foldlM_descend_gives hdescend caller (context.visit i) arguments
    | none =>
      simp only [hwrapped] at hrole
      have hoffence : g.offence? c i = (g.typeAt i).fault? := by simp [offence?, hrole]
      rw [comeTo_nested_of_contract caller hi hrole, enter, hoffence]
      simp only [Option.map_none, h.get_eq, pure_bind, TypeDef.fault?_map, h.site_eq]
      cases (g.typeAt i).fault? <;> exact Gives.pure _
  | false =>
    have hexempt : g.role c i ≠ .exempt := by
      rw [hrole]
      cases g.wrapped? i <;> simp
    have harray (element : g.Handle) : g.role c i ≠ .array element := by
      rw [hrole]
      cases g.wrapped? i <;> simp
    rw [comeTo_root caller hi hexempt harray, checkType]
    simp only [Bool.false_eq_true, if_false, pure_bind, h.get_eq, TypeDef.fault?_map, h.site_eq]
    cases (g.typeAt i).fault? with
    | some fault => exact Gives.pure _
    | none =>
      refine (h.checkMembers_gives i hdescend (context.visit i)).bind ?_
      rw [h.checkLayout_eq]
      exact Gives.pure _

end Members

section Calls

variable [DecidableEq ι]

theorem firstVisit_map (context : Context g.Handle) (i : g.Handle) :
    (context.map φ).firstVisit (φ i) =
      ((context.firstVisit i).1, (context.firstVisit i).2.map φ) := by
  have hmem : φ i ∈ (context.map φ).visited ↔ i ∈ context.visited :=
    List.mem_map_of_injective h.injective
  by_cases hi : i ∈ context.visited
  · rw [Context.firstVisit_of_visited hi, Context.firstVisit_of_visited (hmem.mpr hi)]
  · rw [Context.firstVisit_of_new hi, Context.firstVisit_of_new (mt hmem.mp hi)]
    rfl

/-- A call does in the host what the check does in the graph, and it is not nested more deeply
than there are types left. -/
theorem verifyType_gives (depth : Nat) (nested : Bool) (caller : Location)
    (context : Context g.Handle) (i : g.Handle) :
    Gives (depth ≤ g.unvisited context.visited)
      (s.verifyType c depth nested caller (context.map φ) (φ i))
      ((g.comeTo c nested caller context i).map φ) := by
  induction depth generalizing nested caller context i with
  | zero => exact .inr ⟨rfl, Nat.zero_le _⟩
  | succ depth ih =>
    rw [TypeSource.verifyType, h.firstVisit_map]
    by_cases hi : i ∈ context.visited
    · rw [Context.firstVisit_of_visited hi, comeTo_of_visited caller hi]
      exact Gives.pure _
    · -- The arrival at the type pays for the room that the nested calls lose.
      have hpaid (hcramped : depth ≤ g.unvisited (context.visit i).visited) :
          depth + 1 ≤ g.unvisited context.visited :=
        Nat.succ_le_of_lt (hcramped.trans_lt (g.unvisited_cons_lt hi))
      have hname : ((g.typeAt i).map φ).name = (g.typeAt i).name := rfl
      have hform : ((g.typeAt i).map φ).form = (g.typeAt i).form.map φ := rfl
      rw [Context.firstVisit_of_new hi]
      simp only [h.get_eq, pure_bind, hname, hform]
      cases hterminal : c.isTerminal (g.typeAt i).name with
      | true =>
        rw [comeTo_of_exempt caller hi (role_of_terminal hterminal)]
        exact Gives.pure _
      | false =>
        have hcomposite (hkind : (g.typeAt i).form.kind.isComposite = true) :=
          (h.verifyComposite_gives (fun caller context i => ih true caller context i) nested caller
            hi hterminal hkind).mono hpaid
        cases hform : (g.typeAt i).form with
        | enumType | typeParameter =>
          have hrole : g.role c i = .exempt := by simp [role, hterminal, hform]
          rw [comeTo_of_exempt caller hi hrole]
          exact Gives.pure _
        | arrayType element =>
          rw [comeTo_of_array caller hi (role_eq_array_iff.mpr ⟨hterminal, hform⟩)]
          exact (ih nested caller (context.visit i) element).mono hpaid
        | classType | interfaceType | structType => exact hcomposite (by rw [hform]; rfl)

theorem checkRoot_gives (depth : Nat) (root : g.Handle) :
    Gives (depth ≤ g.size) (s.checkRoot c depth (φ root)) ((g.checkRoot c root).map φ) := by
  rw [TypeSource.checkRoot, h.get_eq, pure_bind, checkRoot_eq_comeTo, ← g.unvisited_nil]
  exact h.verifyType_gives depth false (g.typeAt root).location {} root

theorem analyze_gives (depth : Nat) (root : g.Handle) :
    Gives (depth ≤ g.size) (s.analyze c depth (φ root)) (g.analyze c root) :=
  (h.checkRoot_gives depth root).bind (Gives.pure _)

end Calls

end HeldBy
end TypeGraph
end LayoutContract
