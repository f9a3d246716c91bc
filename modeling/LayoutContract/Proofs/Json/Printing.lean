import LayoutContract.Json.Printer
import LayoutContract.Proofs.Json.Lexing

/-!
The written form of a value is one of its spellings, so every value is read back from what is
written for it.
-/
namespace LayoutContract.Json

section Strings

theorem ofUnit_toNat {c : Char} (h : c.toNat < 0x20) : Piece.ofUnit c.toNat = .char c := by
  rw [Piece.ofUnit, if_neg (by omega), Char.ofNat_toNat]

theorem hexValue?_control : ∀ n < 0x20,
    hexValue? ['0', '0', hexDigit (n / 16), hexDigit (n % 16)] = some n := by
  decide

theorem spells_escape (c : Char) : (Piece.char c).Spells (escape c) := by
  by_cases hletter : c ∈ ['"', '\\', '\x08', '\x0c', '\n', '\r', '\t']
  · simp only [List.mem_cons, List.not_mem_nil, or_false] at hletter
    obtain rfl | rfl | rfl | rfl | rfl | rfl | rfl := hletter <;> exact .letter rfl
  · simp only [List.mem_cons, List.not_mem_nil, or_false, not_or] at hletter
    by_cases hcontrol : c.toNat < 0x20
    · have hcode := Piece.Spells.code rfl (hexValue?_control c.toNat hcontrol)
      rw [ofUnit_toNat hcontrol] at hcode
      simpa [escape, hletter, hcontrol] using hcode
    · have hplain := Piece.Spells.plain hletter.1 hletter.2.1 (Nat.le_of_not_lt hcontrol)
      simpa [escape, hletter, hcontrol] using hplain

theorem allSpell_escape (cs : List Char) :
    Piece.AllSpell (cs.map .char) (cs.flatMap escape) := by
  induction cs with
  | nil => exact .nil
  | cons c cs ih => exact .cons (spells_escape c) ih

theorem chars?_map_char (cs : List Char) : Piece.chars? (cs.map .char) = some cs := by
  induction cs with
  | nil => rfl
  | cons c cs ih => rw [List.map_cons, Piece.chars?, ih, Option.map_some]

theorem spells_quote (t : Text) : (Scalar.text t).Spells (quote t) := by
  cases t with
  | none =>
    have hvalue : hexValue? ['d', '8', '0', '0'] = some 0xD800 := by decide
    exact .text (.cons (.code rfl hvalue) .nil)
  | some s =>
    have hspelled := Scalar.Spells.text (allSpell_escape s.toList)
    rwa [Piece.text, chars?_map_char, Option.map_some, String.ofList_toList] at hspelled

theorem spells_written (s : Scalar) : s.Spells s.written := by
  match s with
  | .null => exact .null
  | .bool true => exact .true
  | .bool false => exact .false
  | .int n => exact .int n
  | .real r => exact .real r
  | .text t => exact spells_quote t

end Strings

section Layout

variable {ts : List Token} {cs : List Char}

theorem isBlank_space : Lexer.isBlank ' ' = true := rfl

theorem spelled_keyed (key : Text) (h : Spelled ts cs) :
    Spelled (.scalar (.text key) :: .colon :: ts) (quote key ++ ':' :: ' ' :: cs) :=
  .unit (.scalar (spells_quote key)) (.unit .colon (.blank isBlank_space h))

theorem spelled_newline (level : Nat) (h : Spelled ts cs) :
    Spelled ts (newline level ++ cs) := by
  have hspaces (n : Nat) : Spelled ts (List.replicate n ' ' ++ cs) := by
    induction n with
    | zero => exact h
    | succ n ih => exact .blank isBlank_space ih
  exact .blank rfl (hspaces (2 * level))

end Layout

mutual

theorem spelled_writtenAt {ts : List Token} {cs : List Char} (level : Nat) (h : Spelled ts cs) :
    (v : Json) → Spelled (v.tokens ++ ts) (v.writtenAt level ++ cs)
  | .scalar s => .unit (.scalar (spells_written s)) h
  | .array [] => by
    simp only [tokens, writtenAt, List.cons_append, List.nil_append]
    exact .unit .openArray (.unit .closeArray h)
  | .array (item :: items) => by
    simp only [tokens, writtenAt, List.cons_append, List.append_assoc]
    have hitem := spelled_writtenAt (level + 1) (spelled_writtenItems level h items) item
    exact .unit .openArray (spelled_newline _ hitem)
  | .object [] => by
    simp only [tokens, writtenAt, List.cons_append, List.nil_append]
    exact .unit .openObject (.unit .closeObject h)
  | .object ((key, value) :: fields) => by
    simp only [tokens, writtenAt, List.cons_append, List.append_assoc]
    have hvalue := spelled_writtenAt (level + 1) (spelled_writtenFields level h fields) value
    exact .unit .openObject (spelled_newline _ (spelled_keyed key hvalue))

theorem spelled_writtenItems {ts : List Token} {cs : List Char} (level : Nat)
    (h : Spelled ts cs) :
    (items : List Json) → Spelled (itemTokens items ++ ts) (writtenItems level items ++ cs)
  | [] => by
    simp only [itemTokens, writtenItems, List.append_assoc]
    exact spelled_newline _ (.unit .closeArray h)
  | item :: items => by
    simp only [itemTokens, writtenItems, List.cons_append, List.append_assoc]
    have hitem := spelled_writtenAt (level + 1) (spelled_writtenItems level h items) item
    exact .unit .comma (spelled_newline _ hitem)

theorem spelled_writtenFields {ts : List Token} {cs : List Char} (level : Nat)
    (h : Spelled ts cs) :
    (fields : List (Text × Json)) →
      Spelled (fieldTokens fields ++ ts) (writtenFields level fields ++ cs)
  | [] => by
    simp only [fieldTokens, writtenFields, List.append_assoc]
    exact spelled_newline _ (.unit .closeObject h)
  | (key, value) :: fields => by
    simp only [fieldTokens, writtenFields, List.cons_append, List.append_assoc]
    have hvalue := spelled_writtenAt (level + 1) (spelled_writtenFields level h fields) value
    exact .unit .comma (spelled_newline _ (spelled_keyed key hvalue))

end

theorem spelledBy_written (v : Json) : v.SpelledBy v.written := by
  have hwritten := spelled_writtenAt 0 .nil v
  rw [List.append_nil, List.append_nil] at hwritten
  rwa [SpelledBy, written, String.toList_ofList]

/-- Every value is read back from its written form. -/
theorem parse?_written (v : Json) : parse? v.written = some v :=
  parse?_eq_some_iff.mpr (spelledBy_written v)

end LayoutContract.Json
