import LayoutContract.Json.Record
import Mathlib.Data.List.Forall2
import Mathlib.Data.List.Nodup

/-!
Which values a decoder takes for which data. A record is given by its fields: each has a key, the
values that it may be given with, and a condition under which it may be left out. An object gives
the fields under their keys, in any order and among other keys; an array gives them in their fixed
order and leaves out the last ones. Every decoder of this library reads exactly the values that
are allowed for its result.
-/
namespace LayoutContract.Json

/-- The decoder reads a value as `a` exactly when the value may stand for `a`. -/
def Reads {α : Type} (decode : Json → Option α) (stands : α → Json → Prop) : Prop :=
  ∀ a v, decode v = some a ↔ stands a v

/-- As `Option.bind_eq_some_iff`, in the notation that decoders are written in. -/
theorem bind_eq_some_iff {α β : Type} {x : Option α} {f : α → Option β} {b : β} :
    (x >>= f) = some b ↔ ∃ a, x = some a ∧ f a = some b :=
  Option.bind_eq_some_iff

section Values

def IsString (s : String) (v : Json) : Prop := v = .string s

def IsBool (b : Bool) (v : Json) : Prop := v = .bool b

/-- A signed number of 32 bits, written as an integer. -/
def IsInt32 (n : Int) (v : Json) : Prop := v = .int n ∧ -0x80000000 ≤ n ∧ n ≤ 0x7fffffff

/-- An unsigned number of 32 bits, written as an integer. -/
def IsNat32 (n : Nat) (v : Json) : Prop := v = .int n ∧ n ≤ 0xffffffff

/-- A name, alone or as the only key of an object with null under it. -/
def IsVariant (name : String) (v : Json) : Prop := v = .string name ∨ v = .record [(name, .null)]

variable {α : Type} {decode : Json → Option α} {stands : α → Json → Prop}

/-- Null stands for nothing. -/
def Nullable (stands : α → Json → Prop) : Option α → Json → Prop
  | none, v => v = .null
  | some a, v => stands a v

def IsList (stands : α → Json → Prop) (as : List α) (v : Json) : Prop :=
  ∃ items, v = .array items ∧ List.Forall₂ stands as items

theorem reads_string? : Reads string? IsString := by
  intro s v
  unfold string? IsString
  split <;> simp_all

theorem reads_bool? : Reads bool? IsBool := by
  intro b v
  unfold bool? IsBool
  split
  · simp [eq_comm]
  · rename_i hv
    simp only [reduceCtorEq, false_iff]
    exact hv b

theorem intIn?_eq_some_iff {lowest highest n : Int} {v : Json} :
    intIn? lowest highest v = some n ↔ v = .int n ∧ lowest ≤ n ∧ n ≤ highest := by
  unfold intIn?
  split
  · rename_i k
    constructor
    · intro h
      split at h
      · rename_i hbounds
        obtain rfl := Option.some.inj h
        exact ⟨rfl, hbounds⟩
      · cases h
    · rintro ⟨heq, hbounds⟩
      cases heq
      exact if_pos hbounds
  · simp_all

theorem reads_int32? : Reads int32? IsInt32 :=
  fun _ _ => intIn?_eq_some_iff

theorem reads_nat32? : Reads nat32? IsNat32 := by
  intro n v
  simp only [nat32?, Option.map_eq_some_iff, intIn?_eq_some_iff, IsNat32]
  constructor
  · rintro ⟨k, ⟨rfl, hlow, hhigh⟩, rfl⟩
    refine ⟨by rw [Int.toNat_of_nonneg hlow], ?_⟩
    omega
  · rintro ⟨rfl, hn⟩
    refine ⟨n, ⟨rfl, ?_⟩, Int.toNat_natCast n⟩
    omega

theorem reads_variant? {named? : String → Option α} {name : α → String}
    (hnamed : ∀ s a, named? s = some a ↔ s = name a) :
    Reads (variant? named?) fun a => IsVariant (name a) := by
  intro a v
  unfold variant? IsVariant record
  split <;> simp_all

theorem reads_nullable? (h : Reads decode stands) (hnull : decode .null = none) :
    Reads (nullable? decode) (Nullable stands) := by
  intro a v
  unfold nullable?
  cases a with
  | none =>
    rw [Nullable]
    split <;> simp_all
  | some a =>
    rw [Nullable, ← h a v]
    split <;> simp_all

theorem mapM_eq_some_iff {β : Type} {f : β → Option α} {as : List α} {bs : List β} :
    bs.mapM f = some as ↔ List.Forall₂ (fun a b => f b = some a) as bs := by
  induction bs generalizing as with
  | nil =>
    rw [List.mapM_nil, List.forall₂_nil_right_iff, Option.pure_def, Option.some.injEq]
    exact eq_comm
  | cons b bs ih =>
    simp only [List.mapM_cons, bind_eq_some_iff, Option.pure_def, Option.some.injEq, ih]
    constructor
    · rintro ⟨a, ha, as', has', rfl⟩
      exact .cons ha has'
    · intro h
      cases h with
      | cons ha has' => exact ⟨_, ha, _, has', rfl⟩

theorem reads_list? (h : Reads decode stands) : Reads (list? decode) (IsList stands) := by
  intro as v
  unfold list? IsList
  split
  · rename_i items
    rw [mapM_eq_some_iff]
    simp only [h _ _, Json.array.injEq, exists_eq_left']
  · rename_i hv
    simp only [reduceCtorEq, false_iff, not_exists, not_and]
    rintro items rfl
    exact absurd rfl (hv items)

theorem exists_isString (s : String) : ∃ v, IsString s v := ⟨_, rfl⟩

theorem exists_isBool (b : Bool) : ∃ v, IsBool b v := ⟨_, rfl⟩

theorem exists_isVariant (name : String) : ∃ v, IsVariant name v := ⟨_, .inl rfl⟩

theorem exists_nullable {a : Option α} (h : ∀ b ∈ a, ∃ v, stands b v) :
    ∃ v, Nullable stands a v := by
  cases a with
  | none => exact ⟨.null, rfl⟩
  | some a => exact h a rfl

theorem exists_isList {as : List α} (h : ∀ a ∈ as, ∃ v, stands a v) : ∃ v, IsList stands as v := by
  have hitems : ∃ items, List.Forall₂ stands as items := by
    induction as with
    | nil => exact ⟨[], .nil⟩
    | cons a as ih =>
      rw [List.forall_mem_cons] at h
      obtain ⟨v, hv⟩ := h.1
      obtain ⟨items, hitems⟩ := ih h.2
      exact ⟨v :: items, .cons hv hitems⟩
  obtain ⟨items, hitems⟩ := hitems
  exact ⟨_, items, rfl, hitems⟩

end Values

/-- A field of a record, where its content is known. -/
structure Field where
  key : String
  /-- What may be given for it. -/
  given : Json → Prop
  /-- Whether it may be left out. -/
  omitted : Prop

namespace Field

/-- A field that has to be given. -/
def required {α : Type} (key : String) (stands : α → Json → Prop) (a : α) : Field :=
  ⟨key, stands a, False⟩

/-- A field that may be left out when it has its default. -/
def optional {α : Type} (key : String) (default : α) (stands : α → Json → Prop) (a : α) : Field :=
  ⟨key, stands a, a = default⟩

/-- What the entries of an object give under a key, however often. -/
def valuesUnder (key : String) (entries : Fields) : List Json :=
  (entries.filter (·.1 = key)).map (·.2)

/-- The entries of an object give the field once, or they leave it out. -/
def IsAmong (f : Field) (entries : Fields) : Prop :=
  (∃ v, valuesUnder f.key entries = [v] ∧ f.given v) ∨
    valuesUnder f.key entries = [] ∧ f.omitted

end Field

/-- The items of an array give the fields in their order; those at the end may be missing. -/
inductive InOrder : List Field → List Json → Prop
  | tail {fs : List Field} (h : ∀ f ∈ fs, f.omitted) : InOrder fs []
  | item {f : Field} {fs : List Field} {v : Json} {items : List Json} (hf : f.given v)
      (h : InOrder fs items) : InOrder (f :: fs) (v :: items)

/-- The values that a record with these fields may be written as. -/
inductive RecordOf (fs : List Field) : Json → Prop
  | object {entries : Fields} (h : ∀ f ∈ fs, f.IsAmong entries) : RecordOf fs (.record entries)
  | array {items : List Json} (h : InOrder fs items) : RecordOf fs (.array items)

namespace Field

variable {α : Type} {f : Field} {key : String} {entries r : Fields}

/-- What was found under the key, if anything, is right for the field. -/
def HeldBy (f : Field) (r : Fields) : Prop :=
  match r.lookup f.key with
  | some v => f.given v
  | none => f.omitted

theorem key_ne_of_mem {fs : List Field} {g : Field} (hf : f.key ∉ fs.map (·.key)) (hg : g ∈ fs) :
    g.key ≠ f.key := by
  intro heq
  refine hf ?_
  rw [← heq]
  exact List.mem_map_of_mem hg

theorem valuesUnder_cons_self (key : String) (v : Json) (entries : Fields) :
    valuesUnder key ((key, v) :: entries) = v :: valuesUnder key entries := by
  simp [valuesUnder]

theorem valuesUnder_cons_of_ne {key' : String} {v : Json} (hne : key ≠ key') :
    valuesUnder key ((key', v) :: entries) = valuesUnder key entries := by
  simp [valuesUnder, hne.symm]

theorem lookup_eq_head?_valuesUnder (key : String) (entries : Fields) :
    entries.lookup key = (valuesUnder key entries).head? := by
  induction entries with
  | nil => rfl
  | cons entry entries ih =>
    obtain ⟨k, v⟩ := entry
    rw [List.lookup_cons]
    by_cases hk : key = k
    · subst hk
      rw [valuesUnder_cons_self, beq_self_eq_true]
      rfl
    · rw [valuesUnder_cons_of_ne hk, beq_eq_false_iff_ne.mpr hk]
      exact ih

theorem valuesUnder_filter {keys : List String} (h : key ∈ keys) :
    valuesUnder key (entries.filter (isKnown keys)) = valuesUnder key entries := by
  rw [valuesUnder, valuesUnder, List.filter_filter]
  congr 1
  refine List.filter_congr fun entry _ => ?_
  by_cases hkey : entry.1 = key <;> simp [isKnown, hkey, h]

theorem count_eq_length_valuesUnder (key : String) (entries : Fields) :
    (entries.map (·.1)).count key = (valuesUnder key entries).length := by
  rw [valuesUnder, List.length_map, List.count, List.countP_map, List.countP_eq_length_filter]
  rfl

theorem heldBy_filter {keys : List String} (h : f.key ∈ keys) :
    f.HeldBy (entries.filter (isKnown keys)) ↔ f.HeldBy entries := by
  rw [HeldBy, HeldBy, lookup_eq_head?_valuesUnder, lookup_eq_head?_valuesUnder,
    valuesUnder_filter h]

theorem isAmong_iff :
    f.IsAmong entries ↔ (valuesUnder f.key entries).length ≤ 1 ∧ f.HeldBy entries := by
  rw [IsAmong, HeldBy, lookup_eq_head?_valuesUnder]
  match valuesUnder f.key entries with
  | [] => simp
  | [v] => simp
  | _ :: _ :: _ => simp

theorem required_eq_some_iff {decode : Json → Option α} {stands : α → Json → Prop}
    (h : Reads decode stands) {a : α} :
    r.required key decode = some a ↔ (required key stands a).HeldBy r := by
  rw [Fields.required, HeldBy, required]
  cases r.lookup key with
  | none => simp
  | some v => exact h a v

theorem optional_eq_some_iff {decode : Json → Option α} {stands : α → Json → Prop}
    (h : Reads decode stands) {default a : α} :
    r.optional key default decode = some a ↔ (optional key default stands a).HeldBy r := by
  rw [Fields.optional, HeldBy, optional]
  cases r.lookup key with
  | none => simp [eq_comm]
  | some v => exact h a v

end Field

section Records

variable {fs : List Field}

theorem mapM_properField?_eq_some_iff {fields : List (Text × Json)} {entries : Fields} :
    fields.mapM properField? = some entries ↔ Json.object fields = .record entries := by
  have hproper (e : String × Json) (p : Text × Json) :
      properField? p = some e ↔ (some e.1, e.2) = p := by
    obtain ⟨key | key, v⟩ := p <;> obtain ⟨k, w⟩ := e <;> simp [properField?, eq_comm]
  simp only [mapM_eq_some_iff, hproper, record, Json.object.injEq]
  rw [← List.forall₂_map_left_iff, List.forall₂_eq_eq_eq]
  exact eq_comm

theorem nodup_knownFields_iff {keys : List String} {entries : Fields} :
    ((entries.filter (isKnown keys)).map (·.1)).Nodup ↔
      ∀ key ∈ keys, (Field.valuesUnder key entries).length ≤ 1 := by
  rw [List.nodup_iff_count_le_one]
  constructor
  · intro h key hkey
    rw [← Field.valuesUnder_filter hkey, ← Field.count_eq_length_valuesUnder]
    exact h key
  · intro h key
    by_cases hkey : key ∈ keys
    · rw [Field.count_eq_length_valuesUnder, Field.valuesUnder_filter hkey]
      exact h key hkey
    · have hnone : key ∉ (entries.filter (isKnown keys)).map (·.1) := by
        simp only [List.mem_map, List.mem_filter, isKnown, not_exists, not_and]
        rintro entry ⟨-, hknown⟩ rfl
        exact hkey (by simpa using hknown)
      rw [List.count_eq_zero_of_not_mem hnone]
      exact Nat.zero_le 1

/-- Keys that are not known do not matter in an object. -/
theorem knownFields?_iff {entries : Fields} :
    (∃ r, knownFields? (fs.map (·.key)) .ignored entries = some r ∧ ∀ f ∈ fs, f.HeldBy r) ↔
      ∀ f ∈ fs, f.IsAmong entries := by
  have hheld : (∀ f ∈ fs, f.HeldBy (entries.filter (isKnown (fs.map (·.key))))) ↔
      ∀ f ∈ fs, f.HeldBy entries :=
    forall₂_congr fun f hf => Field.heldBy_filter (List.mem_map_of_mem hf)
  have honce : ((entries.filter (isKnown (fs.map (·.key)))).map (·.1)).Nodup ↔
      ∀ f ∈ fs, (Field.valuesUnder f.key entries).length ≤ 1 := by
    rw [nodup_knownFields_iff, List.forall_mem_map]
  simp only [Field.isAmong_iff, forall_and, ← hheld, ← honce]
  constructor
  · rintro ⟨r, hr, hfields⟩
    simp only [knownFields?, reduceCtorEq, false_and, if_false] at hr
    split at hr
    · rename_i hnodup
      obtain rfl := Option.some.inj hr
      exact ⟨hnodup, hfields⟩
    · cases hr
  · rintro ⟨hnodup, hfields⟩
    refine ⟨_, ?_, hfields⟩
    simp [knownFields?, hnodup]

theorem inOrder_nil_iff : InOrder fs [] ↔ ∀ f ∈ fs, f.omitted := by
  constructor
  · rintro ⟨h⟩
    exact h
  · exact .tail

theorem inOrder_cons_iff {f : Field} {v : Json} {items : List Json} :
    InOrder (f :: fs) (v :: items) ↔ f.given v ∧ InOrder fs items := by
  constructor
  · rintro (_ | ⟨hf, h⟩)
    exact ⟨hf, h⟩
  · rintro ⟨hf, h⟩
    exact .item hf h

/-- The items of an array belong to the keys in their order. -/
theorem inOrder_iff {items : List Json} (hkeys : (fs.map (·.key)).Nodup) :
    InOrder fs items ↔
      items.length ≤ fs.length ∧ ∀ f ∈ fs, f.HeldBy ((fs.map (·.key)).zip items) := by
  induction items generalizing fs with
  | nil =>
    rw [List.zip_nil_right, inOrder_nil_iff]
    exact (and_iff_right (Nat.zero_le _)).symm
  | cons v items ih =>
    cases fs with
    | nil =>
      constructor
      · intro h
        cases h
      · rintro ⟨h, -⟩
        cases h
    | cons f fs =>
      rw [List.map_cons, List.nodup_cons] at hkeys
      obtain ⟨hf, hkeys⟩ := hkeys
      -- The first item is found under the first key, and every other key behind it.
      have hfirst : f.HeldBy (((f :: fs).map (·.key)).zip (v :: items)) ↔ f.given v := by
        simp [Field.HeldBy]
      have hrest (g : Field) (hg : g ∈ fs) :
          g.HeldBy (((f :: fs).map (·.key)).zip (v :: items)) ↔
            g.HeldBy ((fs.map (·.key)).zip items) := by
        have hne : (g.key == f.key) = false := beq_eq_false_iff_ne.mpr (Field.key_ne_of_mem hf hg)
        rw [Field.HeldBy, Field.HeldBy, List.map_cons, List.zip_cons_cons, List.lookup_cons, hne]
      rw [List.forall_mem_cons, hfirst, forall₂_congr hrest, List.length_cons, List.length_cons,
        Nat.add_le_add_iff_right, inOrder_cons_iff, ih hkeys]
      exact and_left_comm

/-- A record is read off a value with all its fields exactly when it may be written so. -/
theorem recordOf_iff {keys : List String} {v : Json} (hfs : fs.map (·.key) = keys)
    (hkeys : keys.Nodup) :
    RecordOf fs v ↔ ∃ r, v.fields? keys .ignored = some r ∧ ∀ f ∈ fs, f.HeldBy r := by
  subst hfs
  constructor
  · rintro (@⟨entries, h⟩ | @⟨items, h⟩)
    · have hentries := mapM_properField?_eq_some_iff.mpr (rfl : record entries = record entries)
      rw [record, fields?, hentries, Option.bind_some]
      exact knownFields?_iff.mpr h
    · obtain ⟨hlength, hfields⟩ := (inOrder_iff hkeys).mp h
      refine ⟨_, ?_, hfields⟩
      rw [fields?, List.length_map, if_pos hlength]
  · rintro ⟨r, hr, hfields⟩
    match v, hr with
    | .array items, hr =>
      rw [fields?, List.length_map] at hr
      split at hr
      · rename_i hlength
        obtain rfl := Option.some.inj hr
        exact .array ((inOrder_iff hkeys).mpr ⟨hlength, hfields⟩)
      · cases hr
    | .object fields, hr =>
      obtain ⟨entries, hentries, hknown⟩ := Option.bind_eq_some_iff.mp hr
      rw [mapM_properField?_eq_some_iff.mp hentries]
      exact .object (knownFields?_iff.mp ⟨r, hknown, hfields⟩)

/-- Entries for the fields that can be given, and none under any other key. -/
theorem exists_entries (hkeys : (fs.map (·.key)).Nodup)
    (h : ∀ f ∈ fs, (∃ v, f.given v) ∨ f.omitted) :
    ∃ entries : Fields, (∀ f ∈ fs, f.IsAmong entries) ∧
      ∀ key ∉ fs.map (·.key), Field.valuesUnder key entries = [] := by
  induction fs with
  | nil => exact ⟨[], by simp [Field.valuesUnder]⟩
  | cons f fs ih =>
    rw [List.map_cons, List.nodup_cons] at hkeys
    rw [List.forall_mem_cons] at h
    obtain ⟨entries, hamong, hothers⟩ := ih hkeys.2 h.2
    simp only [List.map_cons, List.mem_cons, not_or]
    obtain ⟨v, hv⟩ | homitted := h.1
    · refine ⟨(f.key, v) :: entries, ?_, ?_⟩
      · rintro g (rfl | hg)
        · exact .inl ⟨v, by rw [Field.valuesUnder_cons_self, hothers _ hkeys.1], hv⟩
        · rw [Field.IsAmong, Field.valuesUnder_cons_of_ne (Field.key_ne_of_mem hkeys.1 hg)]
          exact hamong g hg
      · rintro key ⟨hne, hkey⟩
        rw [Field.valuesUnder_cons_of_ne hne]
        exact hothers key hkey
    · refine ⟨entries, ?_, fun key hkey => hothers key hkey.2⟩
      rintro g (rfl | hg)
      · exact .inr ⟨hothers _ hkeys.1, homitted⟩
      · exact hamong g hg

/-- A record can be written when each of its fields can be given or left out. -/
theorem exists_recordOf {keys : List String} (hfs : fs.map (·.key) = keys) (hkeys : keys.Nodup)
    (h : ∀ f ∈ fs, (∃ v, f.given v) ∨ f.omitted) : ∃ v, RecordOf fs v := by
  subst hfs
  obtain ⟨entries, hamong, -⟩ := exists_entries hkeys h
  exact ⟨_, .object hamong⟩

end Records

end LayoutContract.Json
