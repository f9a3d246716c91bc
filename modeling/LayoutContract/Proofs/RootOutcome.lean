import LayoutContract.Check.Root
import LayoutContract.Proofs.Unwrapping

/-!
The three ways in which the check of a class, interface or struct can go. A terminal name ends it
without a finding, a fault of the type itself ends it with that one finding, and otherwise its
members are enumerated and the layout is judged behind them.
-/
namespace LayoutContract.TypeGraph

variable (g : TypeGraph) (c : Config)

/-- The members of such a root are checked. -/
structure EnumeratesMembers (root : g.Handle) : Prop where
  nonterminal : c.isTerminal (g.typeAt root).name = false
  composite : (g.typeAt root).form.kind.isComposite = true
  annotated : (g.typeAt root).formattable = true
  constructible : (g.typeAt root).form = .structType ∨ [] ∈ (g.typeAt root).constructors

/-- The pass over the members of a root, from the moment at which it is entered. -/
def memberPass (root : g.Handle) (ms : List (Member g.Handle)) : MemberPass g.Handle :=
  ms.foldl (g.checkMember c root) ⟨{ visited := [root] }, .empty⟩

variable {g c} {root : g.Handle}

theorem memberPass_concat (ms : List (Member g.Handle)) (m : Member g.Handle) :
    g.memberPass c root (ms ++ [m]) = g.checkMember c root (g.memberPass c root ms) m := by
  simp [memberPass]

theorem checkMembers_eq_memberPass (root : g.Handle) :
    g.checkMembers c root { visited := [root] } =
      g.memberPass c root (g.typeAt root).membersInCheckOrder := rfl

theorem subject_of_terminal (h : c.isTerminal (g.typeAt root).name = true) :
    g.subject c root [] = ([root], none) := by
  rw [subject, dif_neg List.not_mem_nil, role_of_terminal h]

theorem subject_of_composite (hname : c.isTerminal (g.typeAt root).name = false)
    (hkind : (g.typeAt root).form.kind.isComposite = true) :
    g.subject c root [] = ([root], some root) := by
  rw [subject, dif_neg List.not_mem_nil, role_of_composite hname hkind]
  cases g.wrapped? root <;> rfl

theorem analyze_of_terminal (h : c.isTerminal (g.typeAt root).name = true) :
    g.analyze c root = [] := by
  unfold analyze checkRoot
  rw [subject_of_terminal h]
  rfl

/-- A type that is at fault itself is judged no further. -/
theorem analyze_of_fault {fault : TypeFault}
    (hname : c.isTerminal (g.typeAt root).name = false)
    (hkind : (g.typeAt root).form.kind.isComposite = true)
    (hfault : (g.typeAt root).fault? = some fault) :
    g.analyze c root = [fault.finding (g.typeAt root).location (g.site root)] := by
  unfold analyze checkRoot
  rw [subject_of_composite hname hkind]
  simp only [checkType, hfault]
  rfl

theorem EnumeratesMembers.fault?_eq_none (h : g.EnumeratesMembers c root) :
    (g.typeAt root).fault? = none :=
  (fault?_eq_none_iff h.composite).mpr ⟨h.annotated, h.constructible⟩

theorem analyze_of_enumerates (h : g.EnumeratesMembers c root) :
    g.analyze c root =
      (g.checkLayout (g.typeAt root).location root
        (g.checkMembers c root { visited := [root] })).findings.toList := by
  unfold analyze checkRoot
  rw [subject_of_composite h.nonterminal h.composite]
  simp only [checkType, h.fault?_eq_none]

/-- A composite root is terminal, at fault or has its members enumerated. -/
theorem root_cases (hkind : (g.typeAt root).form.kind.isComposite = true) :
    c.isTerminal (g.typeAt root).name = true ∨
      (c.isTerminal (g.typeAt root).name = false ∧
        ∃ fault, (g.typeAt root).fault? = some fault) ∨
      g.EnumeratesMembers c root := by
  cases hname : c.isTerminal (g.typeAt root).name with
  | true => exact .inl rfl
  | false =>
    cases hfault : (g.typeAt root).fault? with
    | some fault => exact .inr (.inl ⟨rfl, fault, rfl⟩)
    | none =>
      obtain ⟨hannotated, hconstructible⟩ := (fault?_eq_none_iff hkind).mp hfault
      exact .inr (.inr ⟨hname, hkind, hannotated, hconstructible⟩)

/-- The layout adds at most one finding, and only to an empty list. -/
theorem checkLayout_findings (hkind : (g.typeAt root).form.kind.isComposite = true)
    (caller : Location) (p : MemberPass g.Handle) :
    (g.checkLayout caller root p).findings.toList =
      p.context.findings.toList ++
        if (g.typeAt root).form = .structType ∧ p.context.findings.toList = [] then
          (g.layoutFinding? caller root p.ledger).toList
        else [] := by
  unfold checkLayout
  rw [isValue_eq_decide_struct hkind]
  simp only [Context.isClean, DiagnosticQueue.isEmpty, Bool.and_eq_true, decide_eq_true_iff,
    List.isEmpty_iff]
  split
  · cases g.layoutFinding? caller root p.ledger <;> simp [Context.report]
  · simp

end LayoutContract.TypeGraph
