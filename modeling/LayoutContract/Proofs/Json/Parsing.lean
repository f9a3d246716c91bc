import LayoutContract.Json.Parser

/-!
Lexical units and values. At each moment the units read so far can be told from what is open and
what comes next, so a list of units that is accepted is the list that its value is written with;
and the units of a value are read as that value, whatever is open around it.
-/
namespace LayoutContract.Json

section Runs

variable {σ τ : Type} {step : σ → τ → Option σ} {s s' : σ} {input rest : List τ}

theorem foldlM_of_step {a : τ} (h : step s a = some s') (rest : List τ) :
    (a :: rest).foldlM step s = rest.foldlM step s' := by
  rw [List.foldlM_cons, h]
  rfl

/-- What each step keeps of the input read so far and the state, a whole run keeps. -/
theorem invariant_foldlM (Invariant : List τ → σ → Prop)
    (hstep : ∀ input s a s', Invariant input s → step s a = some s' → Invariant (input ++ [a]) s')
    (h : Invariant input s) (hrun : rest.foldlM step s = some s') :
    Invariant (input ++ rest) s' := by
  induction rest generalizing input s with
  | nil =>
    obtain rfl := Option.some.inj hrun
    rwa [List.append_nil]
  | cons a rest ih =>
    rw [List.foldlM_cons] at hrun
    obtain ⟨next, hnext, hrest⟩ := Option.bind_eq_some_iff.mp hrun
    rw [List.append_cons]
    exact ih (hstep _ _ _ _ h hnext) hrest

end Runs

/-- The units of an item and the comma behind it. -/
def closedItem (item : Json) : List Token := item.tokens ++ [.comma]

/-- The units of a key and the colon behind it. -/
def keyTokens (key : Text) : List Token := [.scalar (.text key), .colon]

/-- The units of a field and the comma behind it. -/
def closedField (field : Text × Json) : List Token := keyTokens field.1 ++ closedItem field.2

/-- The units read of an array or object that is still open. -/
def Frame.consumed : Frame → List Token
  | .array items => .openArray :: items.reverse.flatMap closedItem
  | .object fields key =>
    .openObject :: (fields.reverse.flatMap closedField ++ keyTokens key)

/-- The units read that belong to nothing that is open. -/
def Expectation.consumed : Expectation → List Token
  | .value => []
  | .itemOrClose => [.openArray]
  | .keyOrClose => [.openObject]
  | .key fields => .openObject :: fields.reverse.flatMap closedField
  | .colon fields latest =>
    .openObject :: (fields.reverse.flatMap closedField ++ [.scalar (.text latest)])
  | .after v => v.tokens

/-- The units read so far. -/
def Parser.consumed (p : Parser) : List Token :=
  p.frames.reverse.flatMap Frame.consumed ++ p.next.consumed

section Tokens

theorem append_itemTokens (first : Json) (items : List Json) (last : Json) :
    first.tokens ++ itemTokens (items ++ [last]) =
      (first :: items).flatMap closedItem ++ (last.tokens ++ [.closeArray]) := by
  induction items generalizing first with
  | nil => simp [itemTokens, closedItem]
  | cons item items ih =>
    rw [List.cons_append, itemTokens, ih item, List.flatMap_cons]
    simp [closedItem]

/-- The units of an array, seen from its end. -/
theorem tokens_array_concat (items : List Json) (last : Json) :
    (Json.array (items ++ [last])).tokens =
      .openArray :: (items.flatMap closedItem ++ (last.tokens ++ [.closeArray])) := by
  cases items with
  | nil => simp [tokens, itemTokens]
  | cons first items => rw [List.cons_append, tokens, append_itemTokens]

theorem append_fieldTokens (first : Json) (fields : List (Text × Json)) (key : Text)
    (last : Json) :
    first.tokens ++ fieldTokens (fields ++ [(key, last)]) =
      closedItem first ++
        (fields.flatMap closedField ++ (keyTokens key ++ (last.tokens ++ [.closeObject]))) := by
  induction fields generalizing first with
  | nil => simp [fieldTokens, closedItem, keyTokens]
  | cons field fields ih =>
    obtain ⟨fieldKey, value⟩ := field
    rw [List.cons_append, fieldTokens, ih value, List.flatMap_cons, closedField]
    simp [closedItem, keyTokens]

/-- The units of an object, seen from its end. -/
theorem tokens_object_concat (fields : List (Text × Json)) (key : Text) (last : Json) :
    (Json.object (fields ++ [(key, last)])).tokens =
      .openObject ::
        (fields.flatMap closedField ++ (keyTokens key ++ (last.tokens ++ [.closeObject]))) := by
  cases fields with
  | nil => simp [tokens, fieldTokens, keyTokens]
  | cons first fields =>
    obtain ⟨firstKey, value⟩ := first
    rw [List.cons_append, tokens, append_fieldTokens, List.flatMap_cons, closedField]
    simp [keyTokens]

end Tokens

namespace Parser

variable {outer : List Frame} {p p' : Parser} {t : Token}

theorem consumed_begin (h : begin outer t = some p') :
    p'.consumed = outer.reverse.flatMap Frame.consumed ++ [t] := by
  cases t <;> simp only [begin, Option.some.injEq, reduceCtorEq] at h <;> subst h <;>
    simp [consumed, Expectation.consumed, tokens]

theorem consumed_step_after {v : Json} (h : step ⟨outer, .after v⟩ t = some p') :
    p'.consumed = (Parser.mk outer (.after v)).consumed ++ [t] := by
  match outer, t, h with
  | .array items :: outer, .comma, h =>
    obtain rfl := Option.some.inj h
    simp [consumed, Frame.consumed, Expectation.consumed, closedItem]
  | .array items :: outer, .closeArray, h =>
    obtain rfl := Option.some.inj h
    simp [consumed, Frame.consumed, Expectation.consumed, tokens_array_concat]
  | .object fields key :: outer, .comma, h =>
    obtain rfl := Option.some.inj h
    simp [consumed, Frame.consumed, Expectation.consumed, closedField, closedItem]
  | .object fields key :: outer, .closeObject, h =>
    obtain rfl := Option.some.inj h
    simp [consumed, Frame.consumed, Expectation.consumed, tokens_object_concat]

/-- Each step consumes its unit. -/
theorem consumed_step (h : p.step t = some p') : p'.consumed = p.consumed ++ [t] := by
  obtain ⟨outer, next⟩ := p
  cases next with
  | value =>
    rw [consumed_begin h]
    simp [consumed, Expectation.consumed]
  | itemOrClose =>
    by_cases ht : t = .closeArray
    · subst ht
      obtain rfl := Option.some.inj h
      simp [consumed, Expectation.consumed, tokens]
    · simp only [step] at h
      rw [consumed_begin h]
      simp [consumed, Frame.consumed, Expectation.consumed]
  | keyOrClose =>
    match t, h with
    | .closeObject, h =>
      obtain rfl := Option.some.inj h
      simp [consumed, Expectation.consumed, tokens]
    | .scalar (.text key), h =>
      obtain rfl := Option.some.inj h
      simp [consumed, Expectation.consumed]
  | key fields =>
    match t, h with
    | .scalar (.text key), h =>
      obtain rfl := Option.some.inj h
      simp [consumed, Expectation.consumed]
  | colon fields key =>
    match t, h with
    | .colon, h =>
      obtain rfl := Option.some.inj h
      simp [consumed, Frame.consumed, Expectation.consumed, keyTokens]
  | after v => exact consumed_step_after h

theorem consumed_foldlM {ts : List Token} (h : ts.foldlM step p = some p') :
    p'.consumed = p.consumed ++ ts := by
  refine invariant_foldlM (fun input q => q.consumed = input) ?_ rfl h
  rintro input q t q' rfl ht
  exact consumed_step ht

/-- The first item of an array is read as if the array had been open for it. -/
theorem foldlM_first_item (outer : List Frame) (v : Json) (rest : List Token) :
    (v.tokens ++ rest).foldlM step ⟨outer, .itemOrClose⟩ =
      (v.tokens ++ rest).foldlM step ⟨.array [] :: outer, .value⟩ := by
  have hstep (t : Token) (ht : t ≠ .closeArray) :
      step ⟨outer, .itemOrClose⟩ t = step ⟨.array [] :: outer, .value⟩ t := by
    simp only [step]
  have hfirst : ∃ t ts, v.tokens = t :: ts ∧ t ≠ .closeArray := by
    match v with
    | .scalar s => exact ⟨_, _, rfl, by simp⟩
    | .array [] => exact ⟨_, _, rfl, by simp⟩
    | .array (item :: items) => exact ⟨_, _, rfl, by simp⟩
    | .object [] => exact ⟨_, _, rfl, by simp⟩
    | .object ((key, value) :: fields) => exact ⟨_, _, rfl, by simp⟩
  obtain ⟨t, ts, htokens, ht⟩ := hfirst
  rw [htokens, List.cons_append, List.foldlM_cons, List.foldlM_cons, hstep t ht]

mutual

/-- The units of a value are read as that value. -/
theorem foldlM_tokens (outer : List Frame) (rest : List Token) : (v : Json) →
    (v.tokens ++ rest).foldlM step ⟨outer, .value⟩ = rest.foldlM step ⟨outer, .after v⟩
  | .scalar _ => rfl
  | .array [] => rfl
  | .array (item :: items) => by
    have hopen : step ⟨outer, .value⟩ .openArray = some ⟨outer, .itemOrClose⟩ := rfl
    rw [tokens, List.cons_append, List.append_assoc, foldlM_of_step hopen, foldlM_first_item,
      foldlM_tokens _ _ item, foldlM_itemTokens]
    rfl
  | .object [] => rfl
  | .object ((key, value) :: fields) => by
    have hopen : step ⟨outer, .value⟩ .openObject = some ⟨outer, .keyOrClose⟩ := rfl
    have hkey : step ⟨outer, .keyOrClose⟩ (.scalar (.text key)) = some ⟨outer, .colon [] key⟩ := rfl
    have hcolon : step ⟨outer, .colon [] key⟩ .colon = some ⟨.object [] key :: outer, .value⟩ := rfl
    simp only [tokens, List.cons_append, List.append_assoc]
    rw [foldlM_of_step hopen, foldlM_of_step hkey, foldlM_of_step hcolon, foldlM_tokens _ _ value,
      foldlM_fieldTokens]
    rfl

theorem foldlM_itemTokens (outer : List Frame) (rest : List Token) (before : List Json)
    (v : Json) : (items : List Json) →
      (itemTokens items ++ rest).foldlM step ⟨.array before :: outer, .after v⟩ =
        rest.foldlM step ⟨outer, .after (.array (before.reverse ++ v :: items))⟩
  | [] => by
    have hclose : step ⟨.array before :: outer, .after v⟩ .closeArray =
        some ⟨outer, .after (.array (v :: before).reverse)⟩ := rfl
    rw [itemTokens, List.singleton_append, foldlM_of_step hclose, List.reverse_cons]
  | item :: items => by
    have hcomma : step ⟨.array before :: outer, .after v⟩ .comma =
        some ⟨.array (v :: before) :: outer, .value⟩ := rfl
    rw [itemTokens, List.cons_append, List.append_assoc, foldlM_of_step hcomma,
      foldlM_tokens _ _ item, foldlM_itemTokens, List.reverse_cons, List.append_assoc]
    rfl

theorem foldlM_fieldTokens (outer : List Frame) (rest : List Token)
    (before : List (Text × Json)) (latest : Text) (v : Json) : (fields : List (Text × Json)) →
      (fieldTokens fields ++ rest).foldlM step ⟨.object before latest :: outer, .after v⟩ =
        rest.foldlM step ⟨outer, .after (.object (before.reverse ++ (latest, v) :: fields))⟩
  | [] => by
    have hclose : step ⟨.object before latest :: outer, .after v⟩ .closeObject =
        some ⟨outer, .after (.object ((latest, v) :: before).reverse)⟩ := rfl
    rw [fieldTokens, List.singleton_append, foldlM_of_step hclose, List.reverse_cons]
  | (key, value) :: fields => by
    have hcomma : step ⟨.object before latest :: outer, .after v⟩ .comma =
        some ⟨outer, .key ((latest, v) :: before)⟩ := rfl
    have hkey : step ⟨outer, .key ((latest, v) :: before)⟩ (.scalar (.text key)) =
        some ⟨outer, .colon ((latest, v) :: before) key⟩ := rfl
    have hcolon : step ⟨outer, .colon ((latest, v) :: before) key⟩ .colon =
        some ⟨.object ((latest, v) :: before) key :: outer, .value⟩ := rfl
    simp only [fieldTokens, List.cons_append, List.append_assoc]
    rw [foldlM_of_step hcomma, foldlM_of_step hkey, foldlM_of_step hcolon,
      foldlM_tokens _ _ value, foldlM_fieldTokens, List.reverse_cons, List.append_assoc]
    rfl

end

end Parser

/-- A list of units is accepted as a value exactly when the value is written with these units. -/
theorem ofTokens?_eq_some_iff {ts : List Token} {v : Json} :
    ofTokens? ts = some v ↔ ts = v.tokens := by
  unfold ofTokens?
  constructor
  · intro h
    obtain ⟨p, hp, hresult⟩ := Option.bind_eq_some_iff.mp h
    have hconsumed := Parser.consumed_foldlM hp
    unfold Parser.result? at hresult
    split at hresult
    · rename_i v' hframes hnext
      obtain rfl := Option.some.inj hresult
      simpa [Parser.consumed, Parser.start, Expectation.consumed, hframes, hnext]
        using hconsumed.symm
    · cases hresult
  · rintro rfl
    have hread := Parser.foldlM_tokens [] [] v
    rw [List.append_nil] at hread
    rw [Parser.start, hread]
    rfl

end LayoutContract.Json
