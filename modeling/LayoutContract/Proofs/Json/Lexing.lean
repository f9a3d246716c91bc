import LayoutContract.Proofs.Json.Numerals
import LayoutContract.Proofs.Json.Parsing
import LayoutContract.Proofs.Json.Spelling
import Mathlib.Data.List.Chain
import Mathlib.Tactic.IntervalCases

/-!
The lexer and the parser read exactly the texts that spell a value. At each moment the characters
read so far spell the units found so far and the beginning of the next one. Conversely a spelled
unit is found again: words and numerals are the only units whose end does not show by itself, and
in the units of a value no two of them meet.
-/
namespace LayoutContract.Json

namespace Lexer

/-- The characters that were read when the lexer came to its state. -/
inductive HasRead : List Char → Lexer → Prop
  | blank {tokens : List Token} {cs : List Char} (h : Spelled tokens.reverse cs) :
    HasRead cs ⟨tokens, .blank⟩
  | word {tokens : List Token} {cs : List Char} (h : Spelled tokens.reverse cs)
      (letters : List Char) : HasRead (cs ++ letters.reverse) ⟨tokens, .word letters⟩
  | numeral {tokens : List Token} {cs : List Char} (h : Spelled tokens.reverse cs)
      (digits : List Char) : HasRead (cs ++ digits.reverse) ⟨tokens, .numeral digits⟩
  | quoted {tokens : List Token} {cs body : List Char} {pieces : List Piece}
      (h : Spelled tokens.reverse cs) (hbody : Piece.AllSpell pieces.reverse body) :
    HasRead (cs ++ '"' :: body) ⟨tokens, .quoted pieces⟩
  | escape {tokens : List Token} {cs body : List Char} {pieces : List Piece}
      (h : Spelled tokens.reverse cs) (hbody : Piece.AllSpell pieces.reverse body) :
    HasRead (cs ++ '"' :: (body ++ ['\\'])) ⟨tokens, .escape pieces⟩
  | code {tokens : List Token} {cs body digits : List Char} {pieces : List Piece}
      {unit missing : Nat} (h : Spelled tokens.reverse cs)
      (hbody : Piece.AllSpell pieces.reverse body) (hlength : digits.length + missing = 3)
      (hvalue : hexValue? digits = some unit) :
    HasRead (cs ++ '"' :: (body ++ '\\' :: 'u' :: digits)) ⟨tokens, .code pieces unit missing⟩

variable {l l' : Lexer} {tokens : List Token} {cs : List Char} {c : Char}

theorem spells_of_wordScalar? {letters : List Char} {s : Scalar}
    (h : wordScalar? letters = some s) : s.Spells letters := by
  unfold wordScalar? at h
  split at h
  · rename_i hletters
    rw [hletters, ← Option.some.inj h]
    exact .null
  split at h
  · rename_i hletters
    rw [hletters, ← Option.some.inj h]
    exact .true
  split at h
  · rename_i hletters
    rw [hletters, ← Option.some.inj h]
    exact .false
  · cases h

theorem spells_of_numeralScalar? {digits : List Char} {s : Scalar}
    (h : numeralScalar? digits = some s) : s.Spells digits := by
  unfold numeralScalar? at h
  split at h
  · rename_i n hn
    rw [Numeral.integer?_eq_some_iff.mp hn, ← Option.some.inj h]
    exact .int n
  · split at h
    · rw [← Option.some.inj h]
      exact .real ⟨digits, _⟩
    · cases h

/-- A unit of one character. -/
theorem hasRead_unit {t : Token} (h : Spelled tokens.reverse cs) (ht : t.Spells [c]) :
    HasRead (cs ++ [c]) ⟨t :: tokens, .blank⟩ := by
  refine .blank ?_
  rw [List.reverse_cons]
  exact h.concat ht

theorem hasRead_begin (h : Spelled tokens.reverse cs) (hbegin : begin tokens c = some l') :
    HasRead (cs ++ [c]) l' := by
  unfold begin at hbegin
  obtain ⟨rfl, ⟨⟩⟩ | ⟨-, hbegin⟩ := ite_eq_iff.mp hbegin
  · exact hasRead_unit h .openArray
  obtain ⟨rfl, ⟨⟩⟩ | ⟨-, hbegin⟩ := ite_eq_iff.mp hbegin
  · exact hasRead_unit h .closeArray
  obtain ⟨rfl, ⟨⟩⟩ | ⟨-, hbegin⟩ := ite_eq_iff.mp hbegin
  · exact hasRead_unit h .openObject
  obtain ⟨rfl, ⟨⟩⟩ | ⟨-, hbegin⟩ := ite_eq_iff.mp hbegin
  · exact hasRead_unit h .closeObject
  obtain ⟨rfl, ⟨⟩⟩ | ⟨-, hbegin⟩ := ite_eq_iff.mp hbegin
  · exact hasRead_unit h .comma
  obtain ⟨rfl, ⟨⟩⟩ | ⟨-, hbegin⟩ := ite_eq_iff.mp hbegin
  · exact hasRead_unit h .colon
  obtain ⟨rfl, ⟨⟩⟩ | ⟨-, hbegin⟩ := ite_eq_iff.mp hbegin
  · exact .quoted h .nil
  obtain ⟨hblank, ⟨⟩⟩ | ⟨-, hbegin⟩ := ite_eq_iff.mp hbegin
  · exact .blank (h.concat_blank hblank)
  obtain ⟨-, ⟨⟩⟩ | ⟨-, hbegin⟩ := ite_eq_iff.mp hbegin
  · exact .word h [c]
  obtain ⟨-, ⟨⟩⟩ | ⟨-, hbegin⟩ := ite_eq_iff.mp hbegin
  · exact .numeral h [c]
  · cases hbegin

theorem hasRead_inQuotes {body : List Char} {pieces : List Piece} (h : Spelled tokens.reverse cs)
    (hbody : Piece.AllSpell pieces.reverse body) (hstep : inQuotes tokens pieces c = some l') :
    HasRead (cs ++ '"' :: (body ++ [c])) l' := by
  unfold inQuotes at hstep
  split_ifs at hstep with hquote hbackslash hcontrol <;> obtain rfl := Option.some.inj hstep
  · subst hquote
    refine .blank ?_
    rw [List.reverse_cons]
    exact h.concat (.scalar (.text hbody))
  · subst hbackslash
    exact .escape h hbody
  · have hconcat := hbody.concat (.plain hquote hbackslash (Nat.le_of_not_lt hcontrol))
    rw [← List.reverse_cons] at hconcat
    exact .quoted h hconcat

theorem hasRead_inEscape {body : List Char} {pieces : List Piece} (h : Spelled tokens.reverse cs)
    (hbody : Piece.AllSpell pieces.reverse body) (hstep : inEscape tokens pieces c = some l') :
    HasRead (cs ++ '"' :: (body ++ ['\\', c])) l' := by
  unfold inEscape at hstep
  split at hstep
  · rename_i hc
    subst hc
    obtain rfl := Option.some.inj hstep
    exact .code h hbody rfl rfl
  · obtain ⟨e, he, rfl⟩ := Option.map_eq_some_iff.mp hstep
    have hconcat := hbody.concat (.letter he)
    rw [← List.reverse_cons] at hconcat
    exact .quoted h hconcat

theorem hasRead_inCode {body digits : List Char} {pieces : List Piece} {unit missing : Nat}
    (h : Spelled tokens.reverse cs) (hbody : Piece.AllSpell pieces.reverse body)
    (hlength : digits.length + missing = 3) (hvalue : hexValue? digits = some unit)
    (hstep : inCode tokens pieces unit missing c = some l') :
    HasRead (cs ++ '"' :: (body ++ '\\' :: 'u' :: (digits ++ [c]))) l' := by
  obtain ⟨d, hd, hl⟩ := Option.map_eq_some_iff.mp hstep
  have hlonger := hexValue?_concat hvalue hd
  cases missing with
  | zero =>
    obtain rfl := hl
    have hfour : (digits ++ [c]).length = 4 := by simpa using hlength
    have hconcat := hbody.concat (.code hfour hlonger)
    rw [← List.reverse_cons] at hconcat
    exact .quoted h hconcat
  | succ missing =>
    obtain rfl := hl
    refine .code h hbody ?_ hlonger
    rw [List.length_append, List.length_singleton]
    omega

theorem hasRead_step (h : HasRead cs l) (hstep : l.step c = some l') :
    HasRead (cs ++ [c]) l' := by
  cases h with
  | blank h => exact hasRead_begin h hstep
  | word h letters =>
    simp only [step] at hstep
    split at hstep
    · obtain rfl := Option.some.inj hstep
      rw [List.append_assoc, ← List.reverse_cons]
      exact .word h (c :: letters)
    · obtain ⟨s, hs, hbegin⟩ := Option.bind_eq_some_iff.mp hstep
      refine hasRead_begin ?_ hbegin
      rw [List.reverse_cons]
      exact h.concat (.scalar (spells_of_wordScalar? hs))
  | numeral h digits =>
    simp only [step] at hstep
    split at hstep
    · obtain rfl := Option.some.inj hstep
      rw [List.append_assoc, ← List.reverse_cons]
      exact .numeral h (c :: digits)
    · obtain ⟨s, hs, hbegin⟩ := Option.bind_eq_some_iff.mp hstep
      refine hasRead_begin ?_ hbegin
      rw [List.reverse_cons]
      exact h.concat (.scalar (spells_of_numeralScalar? hs))
  | quoted h hbody => simpa using hasRead_inQuotes h hbody hstep
  | escape h hbody => simpa using hasRead_inEscape h hbody hstep
  | code h hbody hlength hvalue => simpa using hasRead_inCode h hbody hlength hvalue hstep

theorem spelled_of_result? {ts : List Token} (h : HasRead cs l) (hresult : l.result? = some ts) :
    Spelled ts cs := by
  cases h with
  | blank h =>
    obtain rfl := Option.some.inj hresult
    exact h
  | word h letters =>
    obtain ⟨s, hs, rfl⟩ := Option.map_eq_some_iff.mp hresult
    rw [List.reverse_cons]
    exact h.concat (.scalar (spells_of_wordScalar? hs))
  | numeral h digits =>
    obtain ⟨s, hs, rfl⟩ := Option.map_eq_some_iff.mp hresult
    rw [List.reverse_cons]
    exact h.concat (.scalar (spells_of_numeralScalar? hs))
  | quoted _ _ => cases hresult
  | escape _ _ => cases hresult
  | code _ _ _ _ => cases hresult

end Lexer

theorem spelled_of_lex? {cs : List Char} {ts : List Token} (h : lex? cs = some ts) :
    Spelled ts cs := by
  obtain ⟨l, hrun, hresult⟩ := Option.bind_eq_some_iff.mp h
  have hstart : Lexer.HasRead [] Lexer.start := .blank .nil
  have hread := invariant_foldlM Lexer.HasRead (fun _ _ _ _ => Lexer.hasRead_step) hstart hrun
  exact Lexer.spelled_of_result? hread hresult

section Numerals

open Numeral

theorem isNumber_ofInt (n : Int) : IsNumber (ofInt n) := by
  have hnothing : IsTail [] := ⟨[], [], rfl, .inl rfl, .inl rfl⟩
  cases n with
  | ofNat n =>
    have hnumber := IsNumber.intro (.inl rfl) (isWhole_toDigits n) hnothing
    rwa [List.append_nil] at hnumber
  | negSucc n =>
    have hnumber := IsNumber.intro (.inr rfl) (isWhole_toDigits (n + 1)) hnothing
    rwa [List.append_nil] at hnumber

theorem isNumber_real (r : Real) : IsNumber r.digits := by
  have hreal := r.isReal
  rw [isReal, Bool.and_eq_true] at hreal
  exact isNumeral_iff.mp hreal.1

theorem isNumeralChar_of_isDigit {c : Char} (h : c.isDigit = true) :
    Lexer.isNumeralChar c = true := by
  simp [Lexer.isNumeralChar, h]

theorem isNumeralChar_of_mem_tail {cs : List Char} (h : IsTail cs) :
    ∀ c ∈ cs, Lexer.isNumeralChar c = true := by
  have hdigit {digits : List Char} (h : isDigits digits = true) :
      ∀ c ∈ digits, Lexer.isNumeralChar c = true :=
    fun c hc => isNumeralChar_of_isDigit ((isDigits_iff.mp h).2 c hc)
  obtain ⟨fraction, exponent, rfl, hfraction, hexponent⟩ := h
  refine List.forall_mem_append.mpr ⟨?_, ?_⟩
  · obtain rfl | ⟨digits, rfl, hdigits⟩ := hfraction
    · simp
    · exact List.forall_mem_cons.mpr ⟨rfl, hdigit hdigits⟩
  · obtain rfl | ⟨mark, sign, digits, rfl, hmark, hsign, hdigits⟩ := hexponent
    · simp
    · refine List.forall_mem_cons.mpr ⟨?_, List.forall_mem_append.mpr ⟨?_, hdigit hdigits⟩⟩
      · obtain rfl | rfl := hmark <;> rfl
      · obtain rfl | rfl | rfl := hsign <;> simp [Lexer.isNumeralChar]

/-- A numeral starts with a digit or a minus sign. -/
theorem exists_cons_of_isNumber {cs : List Char} (h : IsNumber cs) :
    ∃ c rest, cs = c :: rest ∧ (c = '-' ∨ c.isDigit = true) ∧
      ∀ d ∈ rest, Lexer.isNumeralChar d = true := by
  obtain @⟨sign, whole, tail, hsign, hwhole, htail⟩ := h
  have hdigits := isDigit_of_mem_isWhole hwhole
  have hwholeChars : ∀ c ∈ whole, Lexer.isNumeralChar c = true :=
    fun c hc => isNumeralChar_of_isDigit (hdigits c hc)
  have htailChars := isNumeralChar_of_mem_tail htail
  obtain rfl | rfl := hsign
  · cases whole with
    | nil => simp [isWhole, isDigits] at hwhole
    | cons c whole =>
      refine ⟨c, whole ++ tail, rfl, .inr (hdigits c List.mem_cons_self), ?_⟩
      exact List.forall_mem_append.mpr ⟨(List.forall_mem_cons.mp hwholeChars).2, htailChars⟩
  · exact ⟨'-', whole ++ tail, rfl, .inl rfl, List.forall_mem_append.mpr ⟨hwholeChars, htailChars⟩⟩

theorem numeralScalar?_ofInt (n : Int) : Lexer.numeralScalar? (ofInt n) = some (.int n) := by
  rw [Lexer.numeralScalar?, integer?_eq_some_iff.mpr rfl]

theorem numeralScalar?_real (r : Real) : Lexer.numeralScalar? r.digits = some (.real r) := by
  have hreal := r.isReal
  rw [isReal, Bool.and_eq_true, Option.isNone_iff_eq_none] at hreal
  rw [Lexer.numeralScalar?, hreal.2]
  exact dif_pos r.isReal

end Numerals

namespace Lexer

variable {l : Lexer} {tokens : List Token} {cs : List Char} {c : Char}

/-- All units are read, latest first, the latest perhaps without its end having been seen. -/
inductive HasFound : List Token → Lexer → Prop
  | blank (tokens : List Token) : HasFound tokens ⟨tokens, .blank⟩
  | word {tokens : List Token} {letters : List Char} {s : Scalar}
      (h : wordScalar? letters.reverse = some s) :
    HasFound (.scalar s :: tokens) ⟨tokens, .word letters⟩
  | numeral {tokens : List Token} {digits : List Char} {s : Scalar}
      (h : numeralScalar? digits.reverse = some s) :
    HasFound (.scalar s :: tokens) ⟨tokens, .numeral digits⟩

theorem result?_of_hasFound (h : HasFound tokens l) : l.result? = some tokens.reverse := by
  cases h with
  | blank => rfl
  | word h => simp [result?, h]
  | numeral h => simp [result?, h]

/-- A character that continues neither a word nor a numeral starts something new. -/
theorem step_of_hasFound (h : HasFound tokens l) (hword : c.isLower = false)
    (hnumeral : isNumeralChar c = false) : l.step c = begin tokens c := by
  cases h with
  | blank => rfl
  | word h => simp [step, hword, h]
  | numeral h => simp [step, hnumeral, h]

theorem step_blank_of_hasFound (h : HasFound tokens l) (hc : isBlank c = true) :
    l.step c = some ⟨tokens, .blank⟩ := by
  simp only [isBlank, Bool.or_eq_true, beq_iff_eq, or_assoc] at hc
  obtain rfl | rfl | rfl | rfl := hc <;> exact step_of_hasFound h rfl rfl

theorem foldlM_numeralChars (h : ∀ c ∈ cs, isNumeralChar c = true) (digits : List Char) :
    cs.foldlM step ⟨tokens, .numeral digits⟩ = some ⟨tokens, .numeral (cs.reverse ++ digits)⟩ := by
  induction cs generalizing digits with
  | nil => rfl
  | cons c cs ih =>
    obtain ⟨hc, hcs⟩ := List.forall_mem_cons.mp h
    have hstep : step ⟨tokens, .numeral digits⟩ c = some ⟨tokens, .numeral (c :: digits)⟩ :=
      if_pos hc
    rw [foldlM_of_step hstep, ih hcs, List.reverse_cons, List.append_assoc]
    rfl

theorem foldlM_numeral (h : Numeral.IsNumber cs) :
    cs.foldlM step ⟨tokens, .blank⟩ = some ⟨tokens, .numeral cs.reverse⟩ := by
  obtain ⟨c, rest, rfl, hc, hrest⟩ := exists_cons_of_isNumber h
  have hstep : step ⟨tokens, .blank⟩ c = some ⟨tokens, .numeral [c]⟩ := by
    obtain rfl | hdigit := hc
    · rfl
    · obtain ⟨hlt, hchar⟩ := Numeral.digitChar_of_isDigit hdigit
      rw [← hchar]
      generalize c.toNat - '0'.toNat = k at hlt
      interval_cases k <;> rfl
  rw [foldlM_of_step hstep, foldlM_numeralChars hrest, List.reverse_cons]

theorem foldlM_code {digits : List Char} {pieces : List Piece} {unit unit' missing : Nat}
    (hlength : digits.length = missing + 1)
    (hvalue : digits.foldlM (fun value c => (hexDigit? c).map (16 * value + ·)) unit =
      some unit') :
    digits.foldlM step ⟨tokens, .code pieces unit missing⟩ =
      some ⟨tokens, .quoted (.ofUnit unit' :: pieces)⟩ := by
  induction digits generalizing unit missing with
  | nil => cases hlength
  | cons c digits ih =>
    rw [List.foldlM_cons] at hvalue
    obtain ⟨next, hnext, hrest⟩ := Option.bind_eq_some_iff.mp hvalue
    obtain ⟨d, hd, rfl⟩ := Option.map_eq_some_iff.mp hnext
    cases missing with
    | zero =>
      have hdigits : digits = [] := by simpa using hlength
      subst hdigits
      obtain rfl := Option.some.inj hrest
      have hstep : step ⟨tokens, .code pieces unit 0⟩ c =
          some ⟨tokens, .quoted (.ofUnit (16 * unit + d) :: pieces)⟩ := by
        simp [step, inCode, hd]
      rw [foldlM_of_step hstep]
      rfl
    | succ missing =>
      have hstep : step ⟨tokens, .code pieces unit (missing + 1)⟩ c =
          some ⟨tokens, .code pieces (16 * unit + d) missing⟩ := by
        simp [step, inCode, hd]
      rw [foldlM_of_step hstep]
      exact ih (by simpa using hlength) hrest

theorem foldlM_piece {p : Piece} (h : p.Spells cs) (pieces : List Piece) :
    cs.foldlM step ⟨tokens, .quoted pieces⟩ = some ⟨tokens, .quoted (p :: pieces)⟩ := by
  have hbackslash : step ⟨tokens, .quoted pieces⟩ '\\' = some ⟨tokens, .escape pieces⟩ := rfl
  cases h with
  | @plain c hquote hback hcontrol =>
    have hstep : step ⟨tokens, .quoted pieces⟩ c = some ⟨tokens, .quoted (.char c :: pieces)⟩ := by
      simp [step, inQuotes, hquote, hback, Nat.not_lt.mpr hcontrol]
    rw [foldlM_of_step hstep]
    rfl
  | @letter l c h =>
    have hletter : l ≠ 'u' := by
      rintro rfl
      cases h
    have hstep : step ⟨tokens, .escape pieces⟩ l = some ⟨tokens, .quoted (.char c :: pieces)⟩ := by
      simp [step, inEscape, hletter, h]
    rw [foldlM_of_step hbackslash, foldlM_of_step hstep]
    rfl
  | code hlength hvalue =>
    have hcode : step ⟨tokens, .escape pieces⟩ 'u' = some ⟨tokens, .code pieces 0 3⟩ := rfl
    rw [foldlM_of_step hbackslash, foldlM_of_step hcode]
    exact foldlM_code hlength hvalue

theorem foldlM_pieces {ps : List Piece} (h : Piece.AllSpell ps cs) (pieces : List Piece) :
    cs.foldlM step ⟨tokens, .quoted pieces⟩ = some ⟨tokens, .quoted (ps.reverse ++ pieces)⟩ := by
  induction h generalizing pieces with
  | nil => rfl
  | @cons p ps spelling cs hp _ ih =>
    rw [List.foldlM_append, foldlM_piece hp, List.reverse_cons, List.append_assoc]
    exact ih (p :: pieces)

/-- A scalar is found where nothing else has been begun. -/
theorem exists_hasFound_scalar {s : Scalar} (h : s.Spells cs) :
    ∃ l, cs.foldlM step ⟨tokens, .blank⟩ = some l ∧ HasFound (.scalar s :: tokens) l := by
  cases h with
  | null => exact ⟨_, rfl, .word rfl⟩
  | true => exact ⟨_, rfl, .word rfl⟩
  | false => exact ⟨_, rfl, .word rfl⟩
  | int n =>
    refine ⟨_, foldlM_numeral (isNumber_ofInt n), .numeral ?_⟩
    rw [List.reverse_reverse, numeralScalar?_ofInt]
  | real r =>
    refine ⟨_, foldlM_numeral (isNumber_real r), .numeral ?_⟩
    rw [List.reverse_reverse, numeralScalar?_real]
  | @text ps cs h =>
    have hopen : step ⟨tokens, .blank⟩ '"' = some ⟨tokens, .quoted []⟩ := rfl
    have hclose : step ⟨tokens, .quoted ps.reverse⟩ '"' =
        some ⟨.scalar (.text (Piece.text ps)) :: tokens, .blank⟩ := by
      simp [step, inQuotes]
    refine ⟨_, ?_, .blank _⟩
    rw [foldlM_of_step hopen, List.foldlM_append, foldlM_pieces h, List.append_nil]
    exact foldlM_of_step hclose []

end Lexer

def Token.isScalar : Token → Bool
  | .scalar _ => true
  | _ => false

/-- One of two units that follow each other is no scalar, so the end of the first shows. -/
def Token.Apart (t u : Token) : Prop := t.isScalar = false ∨ u.isScalar = false

theorem Token.not_apart_scalar (s s' : Scalar) : ¬ Token.Apart (.scalar s) (.scalar s') := by
  simp [Apart, isScalar]

section Apart

open List (IsChain)

variable {t : Token} {ts : List Token}

theorem isChain_apart_cons (ht : t.isScalar = false) (h : IsChain Token.Apart ts) :
    IsChain Token.Apart (t :: ts) :=
  List.isChain_cons.mpr ⟨fun _ _ => .inl ht, h⟩

theorem isChain_apart_cons_cons (s : Scalar) (ht : t.isScalar = false)
    (h : IsChain Token.Apart ts) : IsChain Token.Apart (.scalar s :: t :: ts) :=
  List.isChain_cons_cons.mpr ⟨.inr ht, isChain_apart_cons ht h⟩

mutual

/-- The units of a value are apart, and apart from what may stand behind a scalar. -/
theorem isChain_apart_tokens {rest : List Token}
    (hrest : ∀ s, IsChain Token.Apart (.scalar s :: rest)) :
    (v : Json) → IsChain Token.Apart (v.tokens ++ rest)
  | .scalar s => hrest s
  | .array [] => isChain_apart_cons rfl (isChain_apart_cons rfl (hrest .null).tail)
  | .array (item :: items) => by
    rw [tokens, List.cons_append, List.append_assoc]
    exact isChain_apart_cons rfl (isChain_apart_tokens (isChain_apart_itemTokens hrest items) item)
  | .object [] => isChain_apart_cons rfl (isChain_apart_cons rfl (hrest .null).tail)
  | .object ((key, value) :: fields) => by
    simp only [tokens, List.cons_append, List.append_assoc]
    have hvalue := isChain_apart_tokens (isChain_apart_fieldTokens hrest fields) value
    exact isChain_apart_cons rfl (isChain_apart_cons_cons _ rfl hvalue)

theorem isChain_apart_itemTokens {rest : List Token}
    (hrest : ∀ s, IsChain Token.Apart (.scalar s :: rest)) :
    (items : List Json) → ∀ s, IsChain Token.Apart (.scalar s :: (itemTokens items ++ rest))
  | [], s => isChain_apart_cons_cons s rfl (hrest .null).tail
  | item :: items, s => by
    rw [itemTokens, List.cons_append, List.append_assoc]
    exact isChain_apart_cons_cons s rfl
      (isChain_apart_tokens (isChain_apart_itemTokens hrest items) item)

theorem isChain_apart_fieldTokens {rest : List Token}
    (hrest : ∀ s, IsChain Token.Apart (.scalar s :: rest)) :
    (fields : List (Text × Json)) →
      ∀ s, IsChain Token.Apart (.scalar s :: (fieldTokens fields ++ rest))
  | [], s => isChain_apart_cons_cons s rfl (hrest .null).tail
  | (key, value) :: fields, s => by
    simp only [fieldTokens, List.cons_append, List.append_assoc]
    have hvalue := isChain_apart_tokens (isChain_apart_fieldTokens hrest fields) value
    exact isChain_apart_cons_cons s rfl (isChain_apart_cons_cons _ rfl hvalue)

end

end Apart

namespace Lexer

variable {l : Lexer} {tokens ts : List Token} {cs : List Char}

/-- Spelled units are found one after the other, if they are apart. -/
theorem exists_hasFound (hspelled : Spelled ts cs) (hfound : HasFound tokens l)
    (hapart : List.IsChain Token.Apart (tokens.head?.toList ++ ts)) :
    ∃ l', cs.foldlM step l = some l' ∧ HasFound (ts.reverse ++ tokens) l' := by
  induction hspelled generalizing tokens l with
  | nil => exact ⟨l, rfl, hfound⟩
  | blank hc _ ih =>
    rw [foldlM_of_step (step_blank_of_hasFound hfound hc)]
    exact ih (.blank tokens) hapart
  | @unit t ts spelling cs ht _ ih =>
    have hread : ∃ l', spelling.foldlM step l = some l' ∧ HasFound (t :: tokens) l' := by
      cases ht with
      | scalar hs =>
        -- Characters of a scalar would go on a word or a numeral that has not ended.
        cases hfound with
        | blank => exact exists_hasFound_scalar hs
        | word _ | numeral _ =>
          exact absurd (List.isChain_cons_cons.mp hapart).1 (Token.not_apart_scalar _ _)
      | _ => exact ⟨_, foldlM_of_step (step_of_hasFound hfound rfl rfl) [], .blank _⟩
    obtain ⟨next, hnext, hfound⟩ := hread
    have htail : List.IsChain Token.Apart (t :: ts) := hapart.right_of_append
    obtain ⟨l', hl', hfound'⟩ := ih hfound htail
    refine ⟨l', ?_, ?_⟩
    · rw [List.foldlM_append, hnext]
      exact hl'
    · rw [List.reverse_cons, List.append_assoc]
      exact hfound'

end Lexer

theorem lex?_of_spelled {ts : List Token} {cs : List Char} (h : Spelled ts cs)
    (hapart : List.IsChain Token.Apart ts) : lex? cs = some ts := by
  obtain ⟨l, hrun, hfound⟩ := Lexer.exists_hasFound h (.blank []) hapart
  rw [lex?, Lexer.start, hrun, Option.bind_some, Lexer.result?_of_hasFound hfound, List.append_nil,
    List.reverse_reverse]

/-- A text is read as a value exactly when it spells the value. -/
theorem parse?_eq_some_iff {text : String} {v : Json} :
    parse? text = some v ↔ v.SpelledBy text := by
  unfold parse?
  constructor
  · intro h
    obtain ⟨ts, hlex, hparse⟩ := Option.bind_eq_some_iff.mp h
    rw [SpelledBy, ← ofTokens?_eq_some_iff.mp hparse]
    exact spelled_of_lex? hlex
  · intro h
    have hapart := isChain_apart_tokens (fun s => List.isChain_singleton (Token.scalar s)) v
    rw [List.append_nil] at hapart
    rw [lex?_of_spelled h hapart]
    exact ofTokens?_eq_some_iff.mpr rfl

end LayoutContract.Json
