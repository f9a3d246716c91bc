import LayoutContract.CommandLine.Check
import LayoutContract.Proofs.AllowedNames

/-!
The remedy for a type that is not annotated: its name is allowed. Such a type is declared and has
no parts, so the graph of the text stays what it is, and every walk comes to the same types in the
same order. Only the findings about the type itself are gone. When nothing else was found about a
struct, its layout comes to be judged.
-/
namespace LayoutContract

/-- Reports that the type of this name is not annotated. -/
def Diagnostic.reportsUnannotated (name : String) (d : Diagnostic) : Bool :=
  d.rule = .typeMustBeAnnotated ∧ d.arguments = [.type name]

theorem Diagnostic.reportsUnannotated_iff {name : String} {d : Diagnostic} :
    d.reportsUnannotated name = true ↔
      d.rule = .typeMustBeAnnotated ∧ d.arguments = [.type name] := by
  simp [reportsUnannotated]

theorem Diagnostic.reportsUnannotated_of_subject_ne {name : String} {d : Diagnostic}
    (h : d.rule.subject ≠ .type) : d.reportsUnannotated name = false := by
  rw [Bool.eq_false_iff, ne_eq, reportsUnannotated_iff]
  exact fun hd => h ((Rule.subject_eq_type_iff _).mpr (.inl hd.1))

/-- The findings that do not report that the type of this name is not annotated. -/
def withoutReports (name : String) (found : List Diagnostic) : List Diagnostic :=
  found.filter fun d => !d.reportsUnannotated name

theorem withoutReports_of_subject_ne {name : String} {found : List Diagnostic}
    (h : ∀ d ∈ found, d.rule.subject ≠ .type) : withoutReports name found = found :=
  List.filter_eq_self.mpr fun d hd => by
    rw [Diagnostic.reportsUnannotated_of_subject_ne (h d hd)]
    rfl

theorem TypeFault.reportsUnannotated_finding (fault : TypeFault) (caller : Location)
    (t : TypeSite) (name : String) :
    (fault.finding caller t).reportsUnannotated name =
      decide (fault = .unannotated ∧ t.name = name) := by
  rw [Bool.eq_iff_iff, Diagnostic.reportsUnannotated_iff, decide_eq_true_iff]
  cases fault <;> simp [TypeFault.rule]

/-- Only the reports about the type of this name are gone, unless nothing else was found about a
struct and something is found about its layout instead. -/
def AllowedAway {ι : Type} (t : TypeDef ι) (name : String) (found found' : List Diagnostic) :
    Prop :=
  found' = withoutReports name found ∨
    t.form = .structType ∧ found ≠ [] ∧ withoutReports name found = [] ∧
      ∃ d, found' = [d] ∧
        (d.rule = .indicesMustBeSequential ∨ d.rule = .layoutNeedsMatchingConstructor)

theorem Config.isTerminal_allowing (c : Config) (name n : String) :
    (c.allowing [name]).isTerminal n = (c.isTerminal n || decide (n = name)) := by
  rw [Bool.eq_iff_iff]
  simp only [Config.isTerminal, Config.allowing, Bool.or_eq_true, decide_eq_true_eq,
    NameSet.mem_insertAll, List.mem_singleton]
  tauto

section Built

variable {d : GraphDescription} {implicit : List String} {name : String}

theorem filter_insertSorted (p : String → Bool) (hname : p name = false) (names : List String) :
    (NameSet.insertSorted name names).filter p = names.filter p := by
  induction names with
  | nil => simp [NameSet.insertSorted, hname]
  | cons n names ih =>
    unfold NameSet.insertSorted
    split
    · rw [List.filter_cons_of_neg (by simp [hname])]
    · split
      · rfl
      · rw [List.filter_cons, List.filter_cons, ih]

/-- To allow a name that is declared makes no difference to the types of a graph. -/
theorem entries_allowing (hname : name ∈ d.names) (c : Config) :
    d.entries (c.allowing [name]).allowed.toList = d.entries c.allowed.toList := by
  have hfilter := filter_insertSorted (fun n => decide (n ∉ d.names)) (by simpa using hname)
    c.allowed.toList
  have hnew : newNames d.names (builtinScalars ++ (c.allowing [name]).allowed.toList) =
      newNames d.names (builtinScalars ++ c.allowed.toList) := by
    rw [newNames_eq_eraseDups, newNames_eq_eraseDups, List.filter_append, List.filter_append]
    exact congrArg (fun names => (builtinScalars.filter (· ∉ d.names) ++ names).eraseDups) hfilter
  rw [GraphDescription.entries, hnew, GraphDescription.entries]

end Built

namespace TypeGraph

variable {g : TypeGraph} {c : Config} {owner root t : g.Handle} {ms : List (Member g.Handle)}

theorem layoutFindings_of_found (h : g.memberBlocks c owner ms ≠ []) :
    g.layoutFindings c owner ms = [] :=
  if_neg fun hclean => h hclean.2

theorem layoutFindings_cases (c : Config) (owner : g.Handle) (ms : List (Member g.Handle)) :
    g.layoutFindings c owner ms = [] ∨
      (g.typeAt owner).form = .structType ∧ ∃ d, g.layoutFindings c owner ms = [d] ∧
        (d.rule = .indicesMustBeSequential ∨ d.rule = .layoutNeedsMatchingConstructor) := by
  unfold layoutFindings
  split
  · rename_i hclean
    cases hfinding : g.layoutFinding? (g.typeAt owner).location owner
        (g.memberPass c owner ms).ledger with
    | none => exact .inl rfl
    | some d =>
      have hsubject := (subject_of_layoutFinding hfinding).1
      exact .inr ⟨hclean.1, d, rfl, (Rule.subject_eq_layout_iff _).mp hsubject⟩
  · exact .inl rfl

section Offender

variable (ht : g.Offends c t .unannotated)
include ht

theorem role_of_unannotated : g.role c t = .contract := by
  cases ht with
  | unannotated hself => exact role_eq_contract_iff.mpr hself

omit ht in
theorem role_allowing_self : g.role (c.allowing [g.nameOf t]) t = .exempt := by
  apply role_of_terminal
  rw [Config.isTerminal_allowing]
  simp [nameOf]

variable (hnames : Function.Injective g.nameOf)
include hnames

omit ht in
theorem role_allowing_of_ne {i : g.Handle} (hi : i ≠ t) :
    g.role (c.allowing [g.nameOf t]) i = g.role c i := by
  have hname : (g.typeAt i).name ≠ g.nameOf t := fun heq => hi (hnames heq)
  unfold role
  rw [Config.isTerminal_allowing, decide_eq_false hname, Bool.or_false]

/-- The offender has no parts that could be missed. -/
theorem parts_allowing (i : g.Handle) :
    g.parts (c.allowing [g.nameOf t]) i = g.parts c i := by
  unfold parts
  by_cases hi : i = t
  · rw [hi, role_allowing_self, role_of_unannotated ht]
  · rw [role_allowing_of_ne hnames hi]

theorem arrivalFinding?_allowing (caller : Location) (i : g.Handle) :
    g.arrivalFinding? (c.allowing [g.nameOf t]) caller i =
      (g.arrivalFinding? c caller i).filter fun d => !d.reportsUnannotated (g.nameOf t) := by
  unfold arrivalFinding?
  by_cases hi : i = t
  · subst hi
    have hreports : (TypeFault.unannotated.finding caller (g.site i)).reportsUnannotated
        (g.nameOf i) = true := by
      rw [TypeFault.reportsUnannotated_finding]
      simp [site, nameOf]
    rw [offence?_eq_some_iff.mpr ht, offence?, role_allowing_self]
    simp [Option.filter_some, hreports]
  · have hname : (g.site i).name ≠ g.nameOf t := fun heq => hi (hnames heq)
    unfold offence?
    rw [role_allowing_of_ne hnames hi]
    cases g.role c i with
    | contract =>
      cases (g.typeAt i).fault? with
      | none => rfl
      | some fault => simp [Option.filter_some, TypeFault.reportsUnannotated_finding, hname]
    | _ => rfl

theorem nestedFindings_allowing (earlier : List (Member g.Handle)) (m : Member g.Handle) :
    g.nestedFindings (c.allowing [g.nameOf t]) owner earlier m =
      withoutReports (g.nameOf t) (g.nestedFindings c owner earlier m) := by
  have hdiscovered (visited pending : List g.Handle) :
      g.discovered (c.allowing [g.nameOf t]) visited pending = g.discovered c visited pending :=
    discovered_congr (parts_allowing ht hnames) visited pending
  unfold nestedFindings withoutReports visitedBy
  rw [hdiscovered, hdiscovered, List.filter_filterMap]
  exact List.filterMap_congr fun i _ => arrivalFinding?_allowing ht hnames m.location i

theorem memberBlocks_allowing (ms : List (Member g.Handle)) :
    g.memberBlocks (c.allowing [g.nameOf t]) owner ms =
      withoutReports (g.nameOf t) (g.memberBlocks c owner ms) := by
  unfold withoutReports memberBlocks
  rw [List.filter_flatMap]
  congr 1
  funext ⟨earlier, m⟩
  have hrules : withoutReports (g.nameOf t) (g.ruleFindings c owner earlier m) =
      g.ruleFindings c owner earlier m :=
    withoutReports_of_subject_ne fun d hd => by simp [subject_of_mem_ruleFindings hd]
  unfold memberBlock
  rw [ruleFindings_of_allowsMore (Config.allowsMore_allowing c [g.nameOf t]),
    nestedFindings_allowing ht hnames, List.filter_append]
  congr 1
  · exact hrules.symm
  · split <;> rfl

/-- A root that is annotated keeps its findings, but for the reports about the offender. -/
theorem analyze_allowing (hkind : (g.typeAt root).form.kind.isComposite = true)
    (hannotated : (g.typeAt root).formattable = true) :
    AllowedAway (g.typeAt root) (g.nameOf t) (g.analyze c root)
      (g.analyze (c.allowing [g.nameOf t]) root) := by
  have hname : (g.typeAt root).name ≠ g.nameOf t := by
    intro heq
    rw [hnames heq] at hannotated
    cases ht with
    | unannotated _ hunannotated => simp [hunannotated] at hannotated
  have hterminal : (c.allowing [g.nameOf t]).isTerminal (g.typeAt root).name =
      c.isTerminal (g.typeAt root).name := by
    rw [Config.isTerminal_allowing, decide_eq_false hname, Bool.or_false]
  rcases root_cases (c := c) hkind with hroot | ⟨hroot, fault, hfault⟩ | henumerates
  · rw [analyze_of_terminal hroot, analyze_of_terminal (hterminal.trans hroot)]
    exact .inl rfl
  · rw [analyze_of_fault hroot hkind hfault, analyze_of_fault (hterminal.trans hroot) hkind hfault]
    left
    simp [withoutReports, TypeFault.reportsUnannotated_finding, site, hname]
  · have henumerates' : g.EnumeratesMembers (c.allowing [g.nameOf t]) root :=
      ⟨hterminal.trans henumerates.nonterminal, hkind, hannotated, henumerates.constructible⟩
    rw [analyze_eq_append_layoutFindings henumerates,
      analyze_eq_append_layoutFindings henumerates', memberBlocks_allowing ht hnames]
    generalize (g.typeAt root).membersInCheckOrder = ms
    by_cases hclean : g.memberBlocks c root ms = []
    · have hlayout : g.layoutFindings (c.allowing [g.nameOf t]) root ms =
          g.layoutFindings c root ms := by
        apply layoutFindings_congr hkind
        rw [memberBlocks_allowing ht hnames, hclean]
        rfl
      have hkeep : withoutReports (g.nameOf t) (g.layoutFindings c root ms) =
          g.layoutFindings c root ms :=
        withoutReports_of_subject_ne fun d hd => by simp [subject_of_mem_layoutFindings hd]
      left
      rw [hclean, hlayout]
      exact hkeep.symm
    · rw [layoutFindings_of_found hclean, List.append_nil]
      by_cases hkept : withoutReports (g.nameOf t) (g.memberBlocks c root ms) = []
      · rcases layoutFindings_cases (c.allowing [g.nameOf t]) root ms with
          hnone | ⟨hstruct, d, hd, hrule⟩
        · left
          rw [hnone, List.append_nil]
        · right
          refine ⟨hstruct, hclean, hkept, d, ?_, hrule⟩
          rw [hkept, hd]
          rfl
      · have hfound : g.memberBlocks (c.allowing [g.nameOf t]) root ms ≠ [] := by
          rwa [memberBlocks_allowing ht hnames]
        left
        rw [layoutFindings_of_found hfound, List.append_nil]

end Offender

/-- Who reports that a type is not annotated has found it behind its members. -/
theorem exists_offender_of_reported (hkind : (g.typeAt root).form.kind.isComposite = true)
    (hannotated : (g.typeAt root).formattable = true) {x : Diagnostic} {name : String}
    (hx : x ∈ g.analyze c root) (hreports : x.reportsUnannotated name = true) :
    ∃ t, g.nameOf t = name ∧ g.Offends c t .unannotated := by
  rcases root_cases (c := c) hkind with hroot | ⟨hroot, fault, hfault⟩ | henumerates
  · simp [analyze_of_terminal hroot] at hx
  · rw [analyze_of_fault hroot hkind hfault, List.mem_singleton] at hx
    rw [hx, TypeFault.reportsUnannotated_finding, decide_eq_true_iff] at hreports
    rw [hreports.1, fault?_eq_unannotated_iff, hannotated] at hfault
    cases hfault
  · rw [analyze_eq_append_layoutFindings henumerates] at hx
    rcases List.mem_append.mp hx with hblock | hlayout
    · have hsubject : x.rule.subject = .type := by
        rw [(Diagnostic.reportsUnannotated_iff.mp hreports).1]
        rfl
      obtain ⟨m, _, t, fault, hoffends, _, rfl⟩ := reached_of_type_finding hblock hsubject
      rw [TypeFault.reportsUnannotated_finding, decide_eq_true_iff] at hreports
      exact ⟨t, hreports.2, hreports.1 ▸ hoffends⟩
    · have hsubject : x.rule.subject ≠ .type := by simp [subject_of_mem_layoutFindings hlayout]
      rw [Diagnostic.reportsUnannotated_of_subject_ne hsubject] at hreports
      cases hreports

theorem of_mem_formattableRoots (h : root ∈ g.formattableRoots) :
    (g.typeAt root).form.kind.isComposite = true ∧ (g.typeAt root).formattable = true := by
  have hroot : (g.typeAt root).isFormattableRoot = true := (List.mem_filter.mp h).2
  unfold TypeDef.isFormattableRoot at hroot
  cases hform : (g.typeAt root).form <;>
    simp_all [TypeForm.kind, TypeKind.isComposite]

/-- A type of a graph that is not terminal is declared. -/
theorem nameOf_mem_names {d : GraphDescription} (hg : build d c.allowed.toList = .ok g)
    (hname : c.isTerminal (g.nameOf t) = false) : g.nameOf t ∈ d.names := by
  have hknown := (exists_nameOf_iff hg).mp ⟨t, rfl⟩
  simp only [Config.isTerminal, Bool.or_eq_false_iff, decide_eq_false_iff_not] at hname
  simp only [GraphDescription.knownNames, List.mem_append] at hknown
  rcases hknown with (hdeclared | hscalar) | hallowed
  · exact hdeclared
  · exact absurd hscalar hname.1
  · exact absurd hallowed hname.2

theorem ofText_eq_ok_iff {text : String} {implicit : List String} :
    ofText text implicit = .ok g ↔
      ∃ d, GraphDescription.ofText? text = some d ∧ build d implicit = .ok g := by
  unfold ofText
  cases GraphDescription.ofText? text <;> simp

/-- The name of a declared type can be allowed without a trace in the graph. -/
theorem ofText_allowing {text : String} (hg : ofText text c.allowed.toList = .ok g)
    (hname : c.isTerminal (g.nameOf t) = false) :
    ofText text (c.allowing [g.nameOf t]).allowed.toList = .ok g := by
  obtain ⟨d, hd, hbuild⟩ := ofText_eq_ok_iff.mp hg
  have hentries := entries_allowing (nameOf_mem_names hbuild hname) c
  refine ofText_eq_ok_iff.mpr ⟨d, hd, ?_⟩
  rw [build_eq_ok_iff] at hbuild ⊢
  rwa [hentries]

/-- To allow the name of a type that is reported as not annotated is accepted and does what it is
meant to: the graph and its roots stay, the reports about this type are gone from all of them, and
nothing else changes, except that a struct about which nothing else was found may turn out to have
no layout. -/
theorem allowing_reported_name_removes_reports {text : String}
    (hg : ofText text c.allowed.toList = .ok g) {r : RootReport g.Handle} (hr : r ∈ g.check c)
    {x : Diagnostic} (hx : x ∈ r.diagnostics) {name : String}
    (hreports : x.reportsUnannotated name = true) :
    ofText text (c.allowing [name]).allowed.toList = .ok g ∧
      (∀ e : Emitter, checkText text (c.allowing [name]) e =
        .ok (.ofReports (g.check (c.allowing [name])),
          e.output (emission (g.check (c.allowing [name]))))) ∧
      (g.check (c.allowing [name])).map (·.root) = (g.check c).map (·.root) ∧
      List.Forall₂ (fun before after =>
          AllowedAway (g.typeAt before.root) name before.diagnostics after.diagnostics)
        (g.check c) (g.check (c.allowing [name])) := by
  obtain ⟨root, hroot, rfl⟩ := List.mem_map.mp hr
  obtain ⟨hkind, hannotated⟩ := of_mem_formattableRoots hroot
  obtain ⟨t, rfl, ht⟩ := exists_offender_of_reported hkind hannotated hx hreports
  obtain ⟨d, -, hbuild⟩ := ofText_eq_ok_iff.mp hg
  have hg' : ofText text (c.allowing [g.nameOf t]).allowed.toList = .ok g := by
    cases ht with
    | unannotated hself => exact ofText_allowing hg hself.nonterminal
  refine ⟨hg', ?_, ?_, ?_⟩
  · intro e
    rw [checkText, hg']
    rfl
  · simp only [check, analyzeAll, List.map_map, Function.comp_def]
  · unfold check analyzeAll
    rw [List.forall₂_map_left_iff, List.forall₂_map_right_iff, List.forall₂_same]
    intro i hi
    obtain ⟨hkind, hannotated⟩ := of_mem_formattableRoots hi
    exact analyze_allowing ht (nameOf_injective hbuild) hkind hannotated

/-- A box with a lid of a type that is not annotated. -/
def boxText : String :=
  "\x7b\"types\": [\x7b\"name\": \"Box\", \"kind\": \"struct\", \"formattable\": true, " ++
    "\"members\": [\x7b\"name\": \"Lid\", \"type\": \"Cover\", \"index\": 0\x7d]\x7d, " ++
    "\x7b\"name\": \"Cover\", \"kind\": \"class\"\x7d]\x7d"

def box : GraphDescription where
  types := [
    TypeDescription.ofKind .structType "Box"
      |>.asFormattable
      |>.withMember ((MemberDescription.property "Lid" "Cover").indexed 0),
    .ofKind .classType "Cover"]

theorem ofText?_boxText : GraphDescription.ofText? boxText = some box := by decide +kernel

def boxGraph : TypeGraph := (build box []).toOption.get (by decide +kernel)

/-- Once covers are allowed, it shows that no constructor takes one. -/
theorem box_without_report_lacks_constructor :
    ofText boxText [] = .ok boxGraph ∧
      (boxGraph.check {}).map (·.diagnostics.map (·.rule)) = [[.typeMustBeAnnotated]] ∧
      ofText boxText (Config.allowing {} ["Cover"]).allowed.toList = .ok boxGraph ∧
      (boxGraph.check (.allowing {} ["Cover"])).map (·.diagnostics.map (·.rule)) =
        [[.layoutNeedsMatchingConstructor]] ∧
      List.Forall₂ (fun before after =>
          AllowedAway (boxGraph.typeAt before.root) "Cover" before.diagnostics
            after.diagnostics)
        (boxGraph.check {}) (boxGraph.check (.allowing {} ["Cover"])) := by
  have hg : ofText boxText ({} : Config).allowed.toList = .ok boxGraph :=
    ofText_eq_ok_iff.mpr ⟨box, ofText?_boxText, rfl⟩
  have hfound : ∃ r ∈ boxGraph.check {}, ∃ x ∈ r.diagnostics,
      x.reportsUnannotated "Cover" = true := by
    decide +kernel
  obtain ⟨r, hr, x, hx, hreports⟩ := hfound
  obtain ⟨hg', -, -, haway⟩ := allowing_reported_name_removes_reports hg hr hx hreports
  exact ⟨hg, by decide +kernel, hg', by decide +kernel, haway⟩

end TypeGraph
end LayoutContract
