import LayoutContract.Proofs.AlikeDefinitions
import LayoutContract.Proofs.Extensions
import LayoutContract.Proofs.TransparentWrappers
import Mathlib.Logic.Relation

/-!
Descriptions in which the types of members are wrapped. A new type is declared that leads to the
type of a member, and takes its place at this member. The new type is known to nobody else, so all
other types look as before, and the check of the owner goes on as if there were no wrapper. Only
the layout of a struct can tell the difference, as its constructors take the types of its members.
-/
namespace LayoutContract

namespace TypeDescription

/-- One member with the type named `x` has the type named `w` instead. -/
def Retypes (x w : String) (t t' : TypeDescription) : Prop :=
  ∃ before m after, t.members = before ++ m :: after ∧ m.type = x ∧
    t' = { t with members := before ++ { m with type := w } :: after }

/-- This happens in the type named `root`, and other types stay. -/
def RetypesIn (root x w : String) (t t' : TypeDescription) : Prop :=
  if t.name = root then t.Retypes x w t' else t' = t

variable {root x w : String} {t t' : TypeDescription}

theorem Retypes.normalized (h : t.Retypes x w t') : t.normalized.Retypes x w t'.normalized := by
  obtain ⟨before, m, after, hmembers, htype, rfl⟩ := h
  have hm : { m with type := w }.normalized = { m.normalized with type := w } := by
    cases hkind : m.kind <;> simp [MemberDescription.normalized, hkind]
  have htype' : m.normalized.type = x := by
    cases hkind : m.kind <;> simp [MemberDescription.normalized, hkind, htype]
  refine ⟨before.map (·.normalized), m.normalized, after.map (·.normalized), ?_, htype', ?_⟩
  · simp [TypeDescription.normalized, hmembers]
  · simp only [TypeDescription.normalized, List.map_append, List.map_cons, hm]

theorem RetypesIn.iff_of_eq (hroot : t.name = root) :
    t.RetypesIn root x w t' ↔ t.Retypes x w t' := by
  rw [RetypesIn, if_pos hroot]

theorem RetypesIn.iff_of_ne (hroot : t.name ≠ root) : t.RetypesIn root x w t' ↔ t' = t := by
  rw [RetypesIn, if_neg hroot]

theorem RetypesIn.name (h : t.RetypesIn root x w t') : t'.name = t.name := by
  by_cases hroot : t.name = root
  · obtain ⟨before, m, after, -, -, rfl⟩ := (RetypesIn.iff_of_eq hroot).mp h
    rfl
  · rw [(RetypesIn.iff_of_ne hroot).mp h]

theorem RetypesIn.normalized (h : t.RetypesIn root x w t') :
    t.normalized.RetypesIn root x w t'.normalized := by
  by_cases hroot : t.name = root
  · have hretypes := ((RetypesIn.iff_of_eq hroot).mp h).normalized
    rwa [RetypesIn.iff_of_eq (by rwa [name_normalized])]
  · rw [RetypesIn.iff_of_ne (by rwa [name_normalized]), (RetypesIn.iff_of_ne hroot).mp h]

end TypeDescription

namespace TypeDef

variable {ι : Type} {t t' : TypeDef ι} {before after : List (Member ι)} {m : Member ι} {w : ι}

/-- A member of a description stands for one of the definition. -/
theorem exists_member_of_retypes {nameOf : ι → String} (hnames : Function.Injective nameOf)
    {x : String} (h : (t.map nameOf).describe.Retypes x (nameOf w) (t'.map nameOf).describe) :
    ∃ before m after, t.members = before ++ m :: after ∧ nameOf m.type = x ∧
      t' = { t with members := before ++ m.ofType w :: after } := by
  obtain ⟨before, m, after, hmembers, htype, hrest⟩ := h
  have hdescribed : t.members.map (fun m => (m.map nameOf).describe) = before ++ m :: after := by
    simpa [describe, map, Function.comp_def] using hmembers
  obtain ⟨before, later, hsplit, rfl, hlater⟩ := List.map_eq_append_iff.mp hdescribed
  obtain ⟨m, after, rfl, rfl, rfl⟩ := List.map_eq_cons_iff.mp hlater
  refine ⟨before, m, after, hsplit, htype, describe_map_injective hnames (hrest.trans ?_)⟩
  simp [describe, map, Function.comp_def, Member.map, Member.describe, Member.ofType]

/-- A walk sees no difference in members. -/
theorem seenAlike_of_members (h : t' = { t with members := t'.members }) : t.SeenAlike t' where
  interfaces := .of_eq (congrArg (·.interfaces) h).symm
  constructible _ := congrArg (·.constructors.any List.isEmpty) h
  rest := by rw [h]

/-- The order of a check does not depend on types. -/
theorem exists_membersInCheckOrder_ofType (h : t.members = before ++ m :: after)
    (h' : t'.members = before ++ m.ofType w :: after) :
    ∃ first last, t.membersInCheckOrder = first ++ m :: last ∧
      t'.membersInCheckOrder = first ++ m.ofType w :: last := by
  have hform : (m.ofType w).form = m.form := rfl
  unfold membersInCheckOrder
  rw [h, h']
  cases hproperty : m.form.isProperty with
  | true =>
    refine ⟨before.filter (·.form.isProperty), after.filter (·.form.isProperty) ++
      (before.filter (!·.form.isProperty) ++ after.filter (!·.form.isProperty)), ?_, ?_⟩ <;>
      simp [hproperty, hform]
  | false =>
    refine ⟨before.filter (·.form.isProperty) ++ after.filter (·.form.isProperty) ++
      before.filter (!·.form.isProperty), after.filter (!·.form.isProperty), ?_, ?_⟩ <;>
      simp [hproperty, hform]

end TypeDef

namespace TypeGraph

/-- The graph `g'` has one more type `w`, which is the type of one member of `root` and wraps the
type that this member has in `g`. -/
structure RetypesMember (g g' : TypeGraph) (c : Config) (φ : g.Handle → g'.Handle)
    (root : g.Handle) (w : g'.Handle) : Prop extends g.SeenAlike g' φ where
  apart : ∀ i, φ i ≠ w
  member : ∃ before m after, ((g.typeAt root).map φ).members = before ++ m :: after ∧
    (g'.typeAt (φ root)).members = before ++ m.ofType w :: after ∧ g'.Wraps c w m.type

variable {g g' : TypeGraph} {c : Config} {φ : g.Handle → g'.Handle} {root : g.Handle}
  {w : g'.Handle}

namespace RetypesMember

variable (h : g.RetypesMember g' c φ root w)
include h

/-- Nothing leads to the new type before it is the type of a member. -/
theorem memberBlocks (hkind : (g.typeAt root).form.kind.isComposite = true) :
    g'.memberBlocks c (φ root) (g'.typeAt (φ root)).membersInCheckOrder =
      g.memberBlocks c root (g.typeAt root).membersInCheckOrder := by
  have hkind' : (g'.typeAt (φ root)).form.kind.isComposite = true := by
    rwa [h.form root, TypeForm.kind_map]
  have hwalks := h.walksAlike c
  have hjudges := h.judgesAlike c root
  obtain ⟨before, m, after, hmembers, hmembers', hwraps⟩ := h.member
  obtain ⟨first, last, horder, horder'⟩ :=
    TypeDef.exists_membersInCheckOrder_ofType hmembers hmembers'
  have hmapped := (membersInCheckOrder_map φ (g.typeAt root)).symm.trans horder
  have hapart : w ∉ g'.visitedBy c (φ root) (first ++ m :: last) := by
    rw [← hmapped, hwalks.visitedBy_map hjudges hkind hkind', List.mem_map]
    rintro ⟨i, -, hi⟩
    exact h.apart i hi
  rw [horder', (hwraps.passesAround first last hapart).blocks, ← hmapped,
    hwalks.memberBlocks_map hjudges hkind hkind']

theorem enumeratesMembers (henumerates : g.EnumeratesMembers c root) :
    g'.EnumeratesMembers c (φ root) := by
  have hkind' : (g'.typeAt (φ root)).form.kind.isComposite = true := by
    rw [h.form root, TypeForm.kind_map]
    exact henumerates.composite
  have hfault : (g'.typeAt (φ root)).fault? = none := by
    rw [h.fault? root]
    exact henumerates.fault?_eq_none
  obtain ⟨hannotated, hconstructible⟩ := (fault?_eq_none_iff hkind').mp hfault
  exact ⟨by rw [h.name root]; exact henumerates.nonterminal, hkind', hannotated, hconstructible⟩

end RetypesMember

/-- What is left when the findings about the layout are dropped. -/
def withoutLayout (found : List Diagnostic) : List Diagnostic :=
  found.filter fun x =>
    x.rule ≠ .indicesMustBeSequential ∧ x.rule ≠ .layoutNeedsMatchingConstructor

/-- The same is found about `root` in `g` and about `root'` in `g'`, except for the layouts of
structs. -/
structure FindsTheSame (g g' : TypeGraph) (c : Config) (root : g.Handle) (root' : g'.Handle) :
    Prop where
  name : g'.nameOf root' = g.nameOf root
  kind : (g'.typeAt root').form.kind = (g.typeAt root).form.kind
  reference : (g.typeAt root).form.kind ≠ .structType → g'.analyze c root' = g.analyze c root
  layout : withoutLayout (g'.analyze c root') = withoutLayout (g.analyze c root)

theorem FindsTheSame.refl (g : TypeGraph) (c : Config) (root : g.Handle) :
    g.FindsTheSame g c root root := ⟨rfl, rfl, fun _ => rfl, rfl⟩

theorem FindsTheSame.trans {g₁ g₂ g₃ : TypeGraph} {root₁ : g₁.Handle} {root₂ : g₂.Handle}
    {root₃ : g₃.Handle} (h : g₁.FindsTheSame g₂ c root₁ root₂)
    (h' : g₂.FindsTheSame g₃ c root₂ root₃) : g₁.FindsTheSame g₃ c root₁ root₃ where
  name := h'.name.trans h.name
  kind := h'.kind.trans h.kind
  reference hkind := (h'.reference (h.kind ▸ hkind)).trans (h.reference hkind)
  layout := h'.layout.trans h.layout

theorem withoutLayout_filter (p : Diagnostic → Bool) (found : List Diagnostic) :
    withoutLayout (found.filter p) = (withoutLayout found).filter p :=
  List.filter_comm _ _ _

theorem withoutLayout_append_layoutFinding? (found : List Diagnostic) {caller : Location}
    {i : g.Handle} {ledger : IndexLedger g.Handle} {p : Prop} [Decidable p] :
    withoutLayout (found ++ if p then (g.layoutFinding? caller i ledger).toList else []) =
      withoutLayout found := by
  unfold withoutLayout
  rw [List.filter_append, List.append_right_eq_self, List.filter_eq_nil_iff]
  intro x hx
  split at hx
  · have hsubject := (subject_of_layoutFinding (Option.mem_toList.mp hx)).1
    rcases (Rule.subject_eq_layout_iff _).mp hsubject with hrule | hrule <;> simp [hrule]
  · simp at hx

/-- At every turn of a check the outcome is that of the check without the wrapper. -/
theorem RetypesMember.findsTheSame (h : g.RetypesMember g' c φ root w)
    (hkind : (g.typeAt root).form.kind.isComposite = true) :
    g.FindsTheSame g' c root (φ root) := by
  have hkind' : (g'.typeAt (φ root)).form.kind = (g.typeAt root).form.kind := by
    rw [h.form root, TypeForm.kind_map]
  have hname : c.isTerminal (g'.typeAt (φ root)).name = c.isTerminal (g.typeAt root).name := by
    rw [h.name root]
  have hsame (heq : g'.analyze c (φ root) = g.analyze c root) : g.FindsTheSame g' c root (φ root) :=
    ⟨h.name root, hkind', fun _ => heq, congrArg withoutLayout heq⟩
  rcases root_cases (c := c) hkind with hterminal | ⟨hnonterminal, fault, hfault⟩ | henumerates
  · exact hsame (by rw [analyze_of_terminal hterminal, analyze_of_terminal (hname.trans hterminal)])
  · refine hsame ?_
    rw [analyze_of_fault hnonterminal hkind hfault, analyze_of_fault (hname.trans hnonterminal)
      (hkind' ▸ hkind) ((h.fault? root).trans hfault), h.site root]
    exact congrArg (fun l => [fault.finding l (g.site root)]) ((h.walksAlike c).location root)
  · have henumerates' := h.enumeratesMembers henumerates
    have hblocks := h.memberBlocks hkind
    refine ⟨h.name root, hkind', fun hstruct => ?_, ?_⟩
    · have hform : (g.typeAt root).form ≠ .structType := fun hform => hstruct (by rw [hform]; rfl)
      have hform' : (g'.typeAt (φ root)).form ≠ .structType :=
        fun hform => hstruct (by rw [← hkind', hform]; rfl)
      rw [analyze_eq_memberBlocks_append henumerates, analyze_eq_memberBlocks_append henumerates',
        if_neg fun hlayout => hform' hlayout.1, if_neg fun hlayout => hform hlayout.1, hblocks]
    · rw [analyze_eq_memberBlocks_append henumerates, analyze_eq_memberBlocks_append henumerates',
        withoutLayout_append_layoutFinding?, withoutLayout_append_layoutFinding?, hblocks]

end TypeGraph

/-- The type `w`, which is not known in `d`, is declared as well and becomes the type of one member
of `root` that has the type named `x`. -/
def GraphDescription.RetypesMember (root x : String) (w : TypeDescription) (implicit : List String)
    (d d' : GraphDescription) : Prop :=
  root ∈ d.names ∧ w.name ∉ d.knownNames implicit ∧
    ∃ kept, List.Forall₂ (TypeDescription.RetypesIn root x w.name) d.types kept ∧
      d'.types.Perm (kept ++ [w])

/-- The type of one member of `root` is wrapped by a new type. -/
def GraphDescription.WrapsMember (c : Config) (root : String) (implicit : List String)
    (d d' : GraphDescription) : Prop :=
  ∃ x w, d.RetypesMember root x w implicit d' ∧
    ∃ g', TypeGraph.build d' implicit = .ok g' ∧
      ∃ i j, g'.lookup w.name = some i ∧ g'.lookup x = some j ∧ g'.Wraps c i j

namespace TypeGraph

variable {d d' : GraphDescription} {implicit : List String} {g g' : TypeGraph} {c : Config}

/-- The types of `g` are types of `g'`, and the owner of the member is retyped. -/
theorem exists_handleMap_of_retypesMember {root x : String} {w : TypeDescription}
    (hg : build d implicit = .ok g) (hg' : build d' implicit = .ok g')
    (h : d.RetypesMember root x w implicit d') :
    ∃ φ : g.Handle → g'.Handle, Function.Injective φ ∧ (∀ i, g'.nameOf (φ i) = g.nameOf i) ∧
      ∀ i, (g.describe i).RetypesIn root x w.name (g'.describe (φ i)) := by
  obtain ⟨hroot, hfresh, kept, hkept, htypes⟩ := h
  have hextends : d.Extends (TypeDescription.RetypesIn root x w.name) implicit d' :=
    ⟨kept, [w], htypes, hkept, by simpa using hfresh⟩
  -- The owner is declared, so it is none of the names that only stand for themselves.
  have himplicit : ∀ name ∈ newNames d.names (builtinScalars ++ implicit),
      (TypeDescription.implicit name).RetypesIn root x w.name (.implicit name) := by
    intro name hnew
    have hname : name ≠ root := fun heq => (mem_newNames_iff.mp hnew).2 (heq ▸ hroot)
    exact (TypeDescription.RetypesIn.iff_of_ne hname).mpr rfl
  exact exists_handleMap hg hg' TypeDescription.RetypesIn.name TypeDescription.RetypesIn.normalized
    fun _ => hextends.exists_entry TypeDescription.RetypesIn.name himplicit

/-- What descriptions say about the member, their graphs do. -/
theorem exists_retypesMember {root : g.Handle} {x : String} {w : TypeDescription}
    {i j : g'.Handle} (hg : build d implicit = .ok g) (hg' : build d' implicit = .ok g')
    (h : d.RetypesMember (g.nameOf root) x w implicit d') (hi : g'.lookup w.name = some i)
    (hj : g'.lookup x = some j) (hwraps : g'.Wraps c i j) :
    ∃ φ : g.Handle → g'.Handle, g.RetypesMember g' c φ root i := by
  obtain ⟨φ, hinjective, hnames, hφ⟩ := exists_handleMap_of_retypesMember hg hg' h
  have hdistinct := nameOf_injective hg'
  have hother (k : g.Handle) (hk : k ≠ root) : g'.typeAt (φ k) = (g.typeAt k).map φ := by
    have hname : (g.describe k).name ≠ g.nameOf root := fun heq => hk (nameOf_injective hg heq)
    apply TypeDef.describe_map_injective hdistinct
    rw [describe_of_nameOf hnames k]
    exact (TypeDescription.RetypesIn.iff_of_ne hname).mp (hφ k)
  have hretypes : (g.describe root).Retypes x (g'.nameOf i) (g'.describe (φ root)) := by
    rw [nameOf_of_lookup hi]
    exact (TypeDescription.RetypesIn.iff_of_eq rfl).mp (hφ root)
  rw [← describe_of_nameOf hnames root] at hretypes
  obtain ⟨before, m, after, hmembers, htype, hrest⟩ :=
    TypeDef.exists_member_of_retypes hdistinct hretypes
  have hj' : m.type = j := hdistinct (htype.trans (nameOf_of_lookup hj).symm)
  refine ⟨φ, ⟨hinjective, fun k => ?_⟩, fun k hk => ?_, before, m, after, hmembers, ?_,
    hj' ▸ hwraps⟩
  · by_cases hk : k = root
    · subst hk
      exact TypeDef.seenAlike_of_members (by rw [hrest])
    · exact TypeDef.seenAlike_of_members (by rw [hother k hk])
  · refine h.2.1 ((exists_nameOf_iff hg).mp ⟨k, ?_⟩)
    rw [← hnames k, hk, nameOf_of_lookup hi]
  · rw [hrest]

/-- Wrapped once, and found to be the same. -/
theorem findsTheSame_of_wrapsMember {root : g.Handle} (hg : build d implicit = .ok g)
    (hkind : (g.typeAt root).form.kind.isComposite = true)
    (h : d.WrapsMember c (g.nameOf root) implicit d') :
    ∃ g', build d' implicit = .ok g' ∧ ∃ root', g.FindsTheSame g' c root root' := by
  obtain ⟨x, w, hretypes, g', hg', i, j, hi, hj, hwraps⟩ := h
  obtain ⟨φ, hφ⟩ := exists_retypesMember hg hg' hretypes hi hj hwraps
  exact ⟨g', hg', φ root, hφ.findsTheSame hkind⟩

/-- Arrays and wrappers are transparent. However often the types of members are wrapped, members
of wrapped types again, nothing else is found about their owner; only what is found about the
layout of a struct may differ. -/
theorem wrapping_members_changes_no_finding {root : g.Handle} (hg : build d implicit = .ok g)
    (hkind : (g.typeAt root).form.kind.isComposite = true)
    (h : Relation.ReflTransGen (GraphDescription.WrapsMember c (g.nameOf root) implicit) d d') :
    ∃ g', build d' implicit = .ok g' ∧ ∃ root', g'.lookup (g.nameOf root) = some root' ∧
      ((g.typeAt root).form ≠ .structType → g'.analyze c root' = g.analyze c root) ∧
      withoutLayout (g'.analyze c root') = withoutLayout (g.analyze c root) := by
  have hfinds : ∃ g', build d' implicit = .ok g' ∧ ∃ root', g.FindsTheSame g' c root root' := by
    induction h with
    | refl => exact ⟨g, hg, root, .refl g c root⟩
    | tail _ hstep ih =>
      obtain ⟨g₁, hg₁, root₁, hsame⟩ := ih
      have hkind₁ : (g₁.typeAt root₁).form.kind.isComposite = true := hsame.kind ▸ hkind
      obtain ⟨g₂, hg₂, root₂, hsame'⟩ :=
        findsTheSame_of_wrapsMember hg₁ hkind₁ (hsame.name ▸ hstep)
      exact ⟨g₂, hg₂, root₂, hsame.trans hsame'⟩
  obtain ⟨g', hg', root', hsame⟩ := hfinds
  have hreference (hform : (g.typeAt root).form ≠ .structType) :
      (g.typeAt root).form.kind ≠ .structType := by
    cases hroot : (g.typeAt root).form <;> simp_all [TypeForm.kind]
  exact ⟨g', hg', root', (lookup_eq_some_iff (nameOf_injective hg')).mpr hsame.name,
    fun hform => hsame.reference (hreference hform), hsame.layout⟩

/-- An overridable property in the given line. -/
def propertyAt (line : Nat) (name type : String) (index : Int) : MemberDescription :=
  ((MemberDescription.property name type).indexed index).asOverridable.declaredAt { line }

/-- A basket with a member of the given type beside a spare fruit, and with the types behind it. -/
def basketOf (type : String) (types : List TypeDescription) : GraphDescription where
  types := [
    TypeDescription.ofKind .classType "Basket"
      |>.asFormattable
      |>.withConstructor []
      |>.withMember (propertyAt 2 "Fruits" type 0)
      |>.withMember (propertyAt 3 "Spare" "Fruit" 1),
    .ofKind .classType "Fruit"] ++ types

def fruits : TypeDescription := .array "Fruit[]" "Fruit"

def stock : TypeDescription :=
  .generic "Stock" .interfaceType "System.Collections.Generic.IDictionary<,>" ["string", "Fruit[]"]

theorem retypesMember_basketOf {old : String} {types : List TypeDescription} {w : TypeDescription}
    (htypes : ∀ t ∈ types, t.name ≠ "Basket")
    (hfresh : w.name ∉ (basketOf old types).knownNames []) :
    (basketOf old types).RetypesMember "Basket" old w [] (basketOf w.name (types ++ [w])) := by
  refine ⟨List.mem_cons_self, hfresh, (basketOf w.name types).types, ?_, .refl _⟩
  refine .cons ((TypeDescription.RetypesIn.iff_of_eq rfl).mpr ⟨[], _, _, rfl, rfl, rfl⟩)
    (.cons ((TypeDescription.RetypesIn.iff_of_ne (by decide)).mpr rfl) ?_)
  rw [List.forall₂_same]
  exact fun t ht => (TypeDescription.RetypesIn.iff_of_ne (htypes t ht)).mpr rfl

def basketGraph : TypeGraph := (build (basketOf "Fruit" []) []).toOption.get (by decide +kernel)

def arrayGraph : TypeGraph :=
  (build (basketOf "Fruit[]" [fruits]) []).toOption.get (by decide +kernel)

def stockGraph : TypeGraph :=
  (build (basketOf "Stock" [fruits, stock]) []).toOption.get (by decide +kernel)

def basket : basketGraph.Handle := (basketGraph.lookup "Basket").get (by decide +kernel)

/-- A basket of fruits has a stock of fruits, an array for each of their names. -/
theorem basket_wraps_stock :
    Relation.ReflTransGen (GraphDescription.WrapsMember {} "Basket" []) (basketOf "Fruit" [])
      (basketOf "Stock" [fruits, stock]) := by
  have harray : arrayGraph.Wraps {}
      ((arrayGraph.lookup "Fruit[]").get (by decide +kernel))
      ((arrayGraph.lookup "Fruit").get (by decide +kernel)) :=
    .array (by decide +kernel) (by decide +kernel)
  have hstock : stockGraph.Wraps {}
      ((stockGraph.lookup "Stock").get (by decide +kernel))
      ((stockGraph.lookup "Fruit[]").get (by decide +kernel)) :=
    .wrapper (by decide +kernel) (by decide +kernel) (Option.some_get (by decide +kernel)).symm
      (by decide +kernel) (by decide +kernel) (by decide +kernel)
  refine .tail (.single ⟨"Fruit", fruits, retypesMember_basketOf (by decide) (by decide +kernel),
    arrayGraph, rfl, _, _, (Option.some_get _).symm, (Option.some_get _).symm, harray⟩) ?_
  exact ⟨"Fruit[]", stock, retypesMember_basketOf (by decide +kernel) (by decide +kernel),
    stockGraph, rfl, _, _, (Option.some_get _).symm, (Option.some_get _).symm, hstock⟩

/-- The fruit in the stock is still found at the first member. -/
theorem basket_found_alike_with_stock :
    build (basketOf "Fruit" []) [] = .ok basketGraph ∧
      Relation.ReflTransGen (GraphDescription.WrapsMember {} "Basket" []) (basketOf "Fruit" [])
        (basketOf "Stock" [fruits, stock]) ∧
      basketGraph.analyze {} basket = [.typeMustBeAnnotated { line := 2 } ⟨"Fruit", {}⟩] ∧
      ∃ g', build (basketOf "Stock" [fruits, stock]) [] = .ok g' ∧ ∃ root',
        g'.lookup "Basket" = some root' ∧
        g'.analyze {} root' = basketGraph.analyze {} basket := by
  have hname : basketGraph.nameOf basket = "Basket" := by decide +kernel
  have hclass : (basketGraph.typeAt basket).form ≠ .structType := by decide +kernel
  have hkind : (basketGraph.typeAt basket).form.kind.isComposite = true := by decide +kernel
  obtain ⟨g', hg', root', hroot', hsame, -⟩ :=
    wrapping_members_changes_no_finding rfl hkind (hname ▸ basket_wraps_stock)
  exact ⟨rfl, basket_wraps_stock, by decide +kernel, g', hg', root', hname ▸ hroot', hsame hclass⟩

end TypeGraph
end LayoutContract
