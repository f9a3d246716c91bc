import LayoutContract.Description.Reader
import LayoutContract.Proofs.Json.Printing
import LayoutContract.Proofs.Json.Records

/-!
The texts that a description is read from. A graph, a type, a member and a location are records,
and what is left out of a record has its default. A text renders a description when it spells a
value that is written for it. These texts are the ones that are accepted, each for its own
description, and there is one for every description with numbers of 32 bits: nothing is lost, and
nothing else is taken.
-/
namespace LayoutContract

open Json

namespace Location

/-- The fields in the order of their declaration. -/
def fields (l : Location) : List Field :=
  [.optional "file" none (Nullable IsString) l.file,
    .optional "line" 0 IsNat32 l.line,
    .optional "column" 0 IsNat32 l.column]

theorem fields_keys (l : Location) : l.fields.map (·.key) = keys := rfl

theorem keys_nodup : keys.Nodup := by decide

def Rendered (l : Location) (v : Json) : Prop := RecordOf l.fields v

theorem reads_ofJson? : Reads ofJson? Rendered := by
  intro l v
  rw [Rendered, recordOf_iff l.fields_keys keys_nodup]
  simp only [fields, List.forall_mem_cons,
    ← Field.optional_eq_some_iff (reads_nullable? reads_string? rfl),
    ← Field.optional_eq_some_iff reads_nat32?]
  simp only [ofJson?, ↓bind_eq_some_iff, Option.pure_def, Option.some.injEq]
  constructor
  · rintro ⟨r, hr, _, hfile, _, hline, _, hcolumn, rfl⟩
    exact ⟨r, hr, hfile, hline, hcolumn, List.forall_mem_nil _⟩
  · rintro ⟨r, hr, hfile, hline, hcolumn, -⟩
    exact ⟨r, hr, _, hfile, _, hline, _, hcolumn, rfl⟩

/-- The numbers of a location have 32 bits. -/
def InRange (l : Location) : Prop := l.line ≤ 0xffffffff ∧ l.column ≤ 0xffffffff

theorem exists_rendered {l : Location} (h : l.InRange) : ∃ v, l.Rendered v := by
  refine exists_recordOf l.fields_keys keys_nodup ?_
  simp only [fields, List.forall_mem_cons]
  exact ⟨.inl (exists_nullable fun s _ => exists_isString s), .inl ⟨_, rfl, h.1⟩, .inl ⟨_, rfl,
    h.2⟩,
    List.forall_mem_nil _⟩

end Location

section Names

theorem TypeKind.ofName?_eq_some_iff (s : String) (k : TypeKind) :
    ofName? s = some k ↔ s = k.name := by
  unfold ofName?
  split <;> cases k <;> simp_all [name]

theorem MemberKind.ofName?_eq_some_iff (s : String) (k : MemberKind) :
    ofName? s = some k ↔ s = k.name := by
  unfold ofName?
  split <;> cases k <;> simp_all [name]

theorem Accessibility.ofName?_eq_some_iff (s : String) (a : Accessibility) :
    ofName? s = some a ↔ s = a.name := by
  unfold ofName?
  split <;> cases a <;> simp_all [name]

end Names

namespace IndexMark

/-- Null or a number. -/
def IsArgument (v : Json) : Prop := ∃ a, Nullable IsInt32 a v

/-- A mark that is given. Of a list of arguments the first decides. -/
inductive Rendered : IndexMark → Json → Prop
  | null : Rendered .null .null
  | value {n : Int} {v : Json} (hn : IsInt32 n v) : Rendered (.value n) v
  | empty : Rendered .empty (.array [])
  | nullFirst {items : List Json} (hitems : ∀ v ∈ items, IsArgument v) :
    Rendered .null (.array (.null :: items))
  | valueFirst {n : Int} {v : Json} {items : List Json} (hn : IsInt32 n v)
      (hitems : ∀ v ∈ items, IsArgument v) : Rendered (.value n) (.array (v :: items))

theorem reads_argument : Reads (nullable? int32?) (Nullable IsInt32) :=
  reads_nullable? reads_int32? rfl

theorem forall_isArgument_iff {items : List Json} :
    (∀ v ∈ items, IsArgument v) ↔
      ∃ arguments, items.mapM (nullable? int32?) = some arguments := by
  induction items with
  | nil => simp
  | cons v items ih =>
    rw [List.forall_mem_cons, ih]
    simp only [IsArgument, ← reads_argument _ _, List.mapM_cons, bind_eq_some_iff,
      Option.pure_def, Option.some.injEq]
    constructor
    · rintro ⟨⟨a, ha⟩, arguments, harguments⟩
      exact ⟨a :: arguments, a, ha, arguments, harguments, rfl⟩
    · rintro ⟨_, a, ha, arguments, harguments, -⟩
      exact ⟨⟨a, ha⟩, arguments, harguments⟩

theorem ofJson?_array_eq_some_iff {items : List Json} {mark : IndexMark} :
    ofJson? (.array items) = some mark ↔ Rendered mark (.array items) := by
  rw [ofJson?, bind_eq_some_iff]
  constructor
  · rintro ⟨arguments, harguments, hmark⟩
    cases items with
    | nil =>
      obtain rfl := Option.some.inj harguments
      obtain rfl := Option.some.inj hmark
      exact .empty
    | cons v items =>
      simp only [List.mapM_cons, bind_eq_some_iff] at harguments
      obtain ⟨a, ha, rest, hrest, heq⟩ := harguments
      obtain rfl := Option.some.inj heq
      have hitems := forall_isArgument_iff.mpr ⟨rest, hrest⟩
      have hfirst := (reads_argument a v).mp ha
      cases a with
      | none =>
        obtain rfl := Option.some.inj hmark
        obtain rfl : v = .null := hfirst
        exact .nullFirst hitems
      | some n =>
        obtain rfl := Option.some.inj hmark
        exact .valueFirst hfirst hitems
  · intro h
    cases h with
    | value hn => cases hn.1
    | empty => exact ⟨[], rfl, rfl⟩
    | nullFirst hitems =>
      obtain ⟨arguments, harguments⟩ := forall_isArgument_iff.mp hitems
      refine ⟨none :: arguments, ?_, rfl⟩
      rw [List.mapM_cons, harguments]
      rfl
    | @valueFirst n v items hn hitems =>
      obtain ⟨arguments, harguments⟩ := forall_isArgument_iff.mp hitems
      have hfirst := (reads_argument (some n) v).mpr hn
      refine ⟨some n :: arguments, ?_, rfl⟩
      rw [List.mapM_cons, hfirst, harguments]
      rfl

theorem reads_ofJson? : Reads ofJson? Rendered := by
  intro mark v
  by_cases harray : ∃ items, v = .array items
  · obtain ⟨items, rfl⟩ := harray
    exact ofJson?_array_eq_some_iff
  unfold ofJson?
  split
  · constructor
    · intro h
      obtain rfl := Option.some.inj h
      exact .null
    · intro h
      cases h with
      | null => rfl
      | value hn => cases hn.1
  · exact absurd ⟨_, rfl⟩ harray
  · rename_i hnull _
    rw [Option.map_eq_some_iff]
    constructor
    · rintro ⟨n, hn, rfl⟩
      exact .value ((reads_int32? n v).mp hn)
    · intro h
      cases h with
      | null => exact absurd rfl hnull
      | value hn => exact ⟨_, (reads_int32? _ v).mpr hn, rfl⟩
      | _ => exact absurd ⟨_, rfl⟩ harray

/-- The index, if the mark has one, is a number of 32 bits. -/
def InRange : IndexMark → Prop
  | .value n => -0x80000000 ≤ n ∧ n ≤ 0x7fffffff
  | _ => True

theorem exists_rendered {mark : IndexMark} (h : mark.InRange) :
    (∃ v, Rendered mark v) ∨ mark = .missing := by
  cases mark with
  | missing => exact .inr rfl
  | empty => exact .inl ⟨_, .empty⟩
  | null => exact .inl ⟨_, .null⟩
  | value n => exact .inl ⟨_, .value ⟨rfl, h⟩⟩

end IndexMark

namespace MemberDescription

def fields (m : MemberDescription) : List Field :=
  let access (a : Accessibility) := IsVariant a.name
  [.required "name" IsString m.name,
    .optional "kind" .property (fun k => IsVariant k.name) m.kind,
    .required "type" IsString m.type,
    .optional "accessibility" .publicAccess access m.accessibility,
    .optional "virtual" false IsBool m.overridable,
    .optional "ignored" false IsBool m.ignored,
    .optional "getter" (some .publicAccess) (Nullable access) m.getter,
    .optional "setter" (some .publicAccess) (Nullable access) m.setter,
    .optional "index" .missing IndexMark.Rendered m.index,
    .optional "location" .unknown Location.Rendered m.location]

theorem fields_keys (m : MemberDescription) : m.fields.map (·.key) = keys := rfl

theorem keys_nodup : keys.Nodup := by decide

def Rendered (m : MemberDescription) (v : Json) : Prop := RecordOf m.fields v

theorem reads_ofJson? : Reads ofJson? Rendered := by
  intro m v
  rw [Rendered, recordOf_iff m.fields_keys keys_nodup]
  have haccess := reads_variant? Accessibility.ofName?_eq_some_iff
  simp only [fields, List.forall_mem_cons,
    ← Field.required_eq_some_iff reads_string?,
    ← Field.optional_eq_some_iff (reads_variant? MemberKind.ofName?_eq_some_iff),
    ← Field.optional_eq_some_iff haccess,
    ← Field.optional_eq_some_iff reads_bool?,
    ← Field.optional_eq_some_iff (reads_nullable? haccess rfl),
    ← Field.optional_eq_some_iff IndexMark.reads_ofJson?,
    ← Field.optional_eq_some_iff Location.reads_ofJson?]
  simp only [ofJson?, ↓bind_eq_some_iff, Option.pure_def, Option.some.injEq]
  constructor
  · rintro ⟨r, hr, _, hname, _, hkind, _, htype, _, haccess, _, hvirtual, _, hignored, _, hgetter,
      _, hsetter, _, hindex, _, hlocation, rfl⟩
    exact ⟨r, hr, hname, hkind, htype, haccess, hvirtual, hignored, hgetter, hsetter, hindex,
      hlocation, List.forall_mem_nil _⟩
  · rintro ⟨r, hr, hname, hkind, htype, haccess, hvirtual, hignored, hgetter, hsetter, hindex,
      hlocation, -⟩
    exact ⟨r, hr, _, hname, _, hkind, _, htype, _, haccess, _, hvirtual, _, hignored, _, hgetter, _,
      hsetter, _, hindex, _, hlocation, rfl⟩

def InRange (m : MemberDescription) : Prop := m.index.InRange ∧ m.location.InRange

theorem exists_rendered {m : MemberDescription} (h : m.InRange) : ∃ v, m.Rendered v := by
  refine exists_recordOf m.fields_keys keys_nodup ?_
  simp only [fields, List.forall_mem_cons]
  have haccess (a : Option Accessibility) : ∃ v, Nullable (fun a => IsVariant a.name) a v :=
    exists_nullable fun a _ => exists_isVariant a.name
  exact ⟨.inl (exists_isString _), .inl (exists_isVariant _), .inl (exists_isString _),
    .inl (exists_isVariant _), .inl (exists_isBool _), .inl (exists_isBool _),
    .inl (haccess _), .inl (haccess _), IndexMark.exists_rendered h.1,
    .inl (Location.exists_rendered h.2), List.forall_mem_nil _⟩

end MemberDescription

namespace TypeDescription

def fields (t : TypeDescription) : List Field :=
  let names := IsList IsString
  [.required "name" IsString t.name,
    .optional "qualified_name" none (Nullable IsString) t.qualifiedName,
    .required "kind" (fun k => IsVariant k.name) t.kind,
    .optional "formattable" false IsBool t.formattable,
    .optional "element" none (Nullable IsString) t.element,
    .optional "generic_definition" none (Nullable IsString) t.genericDefinition,
    .optional "type_arguments" [] names t.typeArguments,
    .optional "interfaces" [] names t.interfaces,
    .optional "constructors" [] (IsList names) t.constructors,
    .optional "members" [] (IsList MemberDescription.Rendered) t.members,
    .optional "location" .unknown Location.Rendered t.location]

theorem fields_keys (t : TypeDescription) : t.fields.map (·.key) = keys := rfl

theorem keys_nodup : keys.Nodup := by decide

def Rendered (t : TypeDescription) (v : Json) : Prop := RecordOf t.fields v

theorem reads_ofJson? : Reads ofJson? Rendered := by
  intro t v
  rw [Rendered, recordOf_iff t.fields_keys keys_nodup]
  have hnames := reads_list? reads_string?
  simp only [fields, List.forall_mem_cons,
    ← Field.required_eq_some_iff reads_string?,
    ← Field.optional_eq_some_iff (reads_nullable? reads_string? rfl),
    ← Field.required_eq_some_iff (reads_variant? TypeKind.ofName?_eq_some_iff),
    ← Field.optional_eq_some_iff reads_bool?,
    ← Field.optional_eq_some_iff hnames,
    ← Field.optional_eq_some_iff (reads_list? hnames),
    ← Field.optional_eq_some_iff (reads_list? MemberDescription.reads_ofJson?),
    ← Field.optional_eq_some_iff Location.reads_ofJson?]
  simp only [ofJson?, ↓bind_eq_some_iff, Option.pure_def, Option.some.injEq]
  constructor
  · rintro ⟨r, hr, _, hname, _, hqualified, _, hkind, _, hformattable, _, helement, _, hdefinition,
      _, harguments, _, hinterfaces, _, hconstructors, _, hmembers, _, hlocation, rfl⟩
    exact ⟨r, hr, hname, hqualified, hkind, hformattable, helement, hdefinition, harguments,
      hinterfaces, hconstructors, hmembers, hlocation, List.forall_mem_nil _⟩
  · rintro ⟨r, hr, hname, hqualified, hkind, hformattable, helement, hdefinition, harguments,
      hinterfaces, hconstructors, hmembers, hlocation, -⟩
    exact ⟨r, hr, _, hname, _, hqualified, _, hkind, _, hformattable, _, helement, _, hdefinition,
      _, harguments, _, hinterfaces, _, hconstructors, _, hmembers, _, hlocation, rfl⟩

def InRange (t : TypeDescription) : Prop := (∀ m ∈ t.members, m.InRange) ∧ t.location.InRange

theorem exists_rendered {t : TypeDescription} (h : t.InRange) : ∃ v, t.Rendered v := by
  refine exists_recordOf t.fields_keys keys_nodup ?_
  simp only [fields, List.forall_mem_cons]
  have hoptional (s : Option String) : ∃ v, Nullable IsString s v :=
    exists_nullable fun s _ => exists_isString s
  have hnames (names : List String) : ∃ v, IsList IsString names v :=
    exists_isList fun s _ => exists_isString s
  have hconstructors := exists_isList fun names (_ : names ∈ t.constructors) => hnames names
  have hmembers := exists_isList fun m hm => MemberDescription.exists_rendered (h.1 m hm)
  exact ⟨.inl (exists_isString _), .inl (hoptional _), .inl (exists_isVariant _),
    .inl (exists_isBool _),
    .inl (hoptional _), .inl (hoptional _), .inl (hnames _), .inl (hnames _),
    .inl hconstructors, .inl hmembers, .inl (Location.exists_rendered h.2),
    List.forall_mem_nil _⟩

end TypeDescription

namespace GraphDescription

def fields (d : GraphDescription) : List Field :=
  [.optional "types" [] (IsList TypeDescription.Rendered) d.types]

theorem fields_keys (d : GraphDescription) : d.fields.map (·.key) = keys := rfl

theorem keys_nodup : keys.Nodup := by decide

def Rendered (d : GraphDescription) (v : Json) : Prop := RecordOf d.fields v

/-- The text spells a value that is written for the description. -/
def RenderedBy (d : GraphDescription) (text : String) : Prop :=
  ∃ v : Json, v.SpelledBy text ∧ d.Rendered v

theorem reads_ofJson? : Reads ofJson? Rendered := by
  intro d v
  rw [Rendered, recordOf_iff d.fields_keys keys_nodup]
  simp only [fields, List.forall_mem_cons,
    ← Field.optional_eq_some_iff (reads_list? TypeDescription.reads_ofJson?)]
  simp only [ofJson?, ↓bind_eq_some_iff, Option.pure_def, Option.some.injEq]
  constructor
  · rintro ⟨r, hr, _, htypes, rfl⟩
    exact ⟨r, hr, htypes, List.forall_mem_nil _⟩
  · rintro ⟨r, hr, htypes, -⟩
    exact ⟨r, hr, _, htypes, rfl⟩

/-- A description is read from the texts that render it, and from no other text. -/
theorem ofText?_eq_some_iff (text : String) (d : GraphDescription) :
    ofText? text = some d ↔ d.RenderedBy text := by
  simp only [ofText?, RenderedBy, Option.bind_eq_some_iff, parse?_eq_some_iff, reads_ofJson? d _]

/-- Records written as arrays, and a name written as an object. -/
example : RenderedBy { types := [{ name := "B", kind := .enumType }] }
    "[[[\"B\", null, \x7b\"enum\": null\x7d]]]" :=
  ⟨_, parse?_eq_some_iff.mp rfl, (reads_ofJson? _ _).mp rfl⟩

/-- All numbers of the description have 32 bits. -/
def InRange (d : GraphDescription) : Prop := ∀ t ∈ d.types, t.InRange

/-- There is a text for every description with numbers of 32 bits. -/
theorem exists_renderedBy {d : GraphDescription} (h : d.InRange) : ∃ text, d.RenderedBy text := by
  have htypes := exists_isList fun t ht => TypeDescription.exists_rendered (h t ht)
  have hvalue : ∃ v, d.Rendered v := by
    refine exists_recordOf d.fields_keys keys_nodup ?_
    simp only [fields, List.forall_mem_cons]
    exact ⟨.inl htypes, List.forall_mem_nil _⟩
  obtain ⟨v, hv⟩ := hvalue
  exact ⟨v.written, v, spelledBy_written v, hv⟩

end GraphDescription
end LayoutContract
