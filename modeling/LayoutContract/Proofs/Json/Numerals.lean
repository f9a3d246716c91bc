import LayoutContract.Json.Numeral
import Mathlib.Data.List.Basic

/-!
The numerals of JSON. Reading an integer and writing it are inverse to each other, so an integer
has the one numeral that it is written with. What is read as a numeral at all is told by the
grammar of JSON: a whole part behind a sign or none, a fraction or none, an exponent or none.
-/
namespace LayoutContract.Json.Numeral

/-- A fraction, or nothing at all. -/
def IsFractionPart (cs : List Char) : Prop :=
  cs = [] ∨ ∃ digits, cs = '.' :: digits ∧ isDigits digits = true

/-- An exponent, or nothing at all. -/
def IsExponentPart (cs : List Char) : Prop :=
  cs = [] ∨ ∃ mark sign digits, cs = mark :: (sign ++ digits) ∧ (mark = 'e' ∨ mark = 'E') ∧
    (sign = [] ∨ sign = ['+'] ∨ sign = ['-']) ∧ isDigits digits = true

/-- What may follow the whole part. -/
def IsTail (cs : List Char) : Prop :=
  ∃ fraction exponent, cs = fraction ++ exponent ∧ IsFractionPart fraction ∧
    IsExponentPart exponent

/-- A numeral of the grammar of JSON. -/
inductive IsNumber : List Char → Prop
  | intro {sign whole tail : List Char} (hsign : sign = [] ∨ sign = ['-'])
      (hwhole : isWhole whole = true) (htail : IsTail tail) : IsNumber (sign ++ (whole ++ tail))

section Digits

variable {cs digits rest : List Char} {c : Char}

theorem isDigits_iff : isDigits cs = true ↔ cs ≠ [] ∧ ∀ c ∈ cs, c.isDigit = true := by
  simp [isDigits]

theorem digitChar_of_isDigit (h : c.isDigit = true) :
    c.toNat - '0'.toNat < 10 ∧ Nat.digitChar (c.toNat - '0'.toNat) = c := by
  have hbounds : 48 ≤ c.toNat ∧ c.toNat ≤ 57 := by
    simp only [Char.isDigit, Bool.and_eq_true, decide_eq_true_eq] at h
    exact h
  have hzero : '0'.toNat = 48 := rfl
  have hlt : c.toNat - '0'.toNat < 10 := by omega
  refine ⟨hlt, Char.toNat_inj.mp ?_⟩
  rw [Nat.toNat_digitChar_of_lt_ten hlt]
  omega

/-- Digits behind a number that is not zero go on where the number ends. -/
theorem toDigits_append {n : Nat} (hn : 0 < n) (h : ∀ c ∈ cs, c.isDigit = true) :
    Nat.toDigits 10 n ++ cs = Nat.toDigits 10 (Nat.ofDigitChars 10 cs n) := by
  induction cs generalizing n with
  | nil => rw [List.append_nil, Nat.ofDigitChars_nil]
  | cons c cs ih =>
    obtain ⟨hc, hcs⟩ := List.forall_mem_cons.mp h
    obtain ⟨hlt, hchar⟩ := digitChar_of_isDigit hc
    have hlonger : Nat.toDigits 10 n ++ [c] = Nat.toDigits 10 (10 * n + (c.toNat - '0'.toNat)) := by
      rw [← Nat.toDigits_append_toDigits (by decide) hn hlt, Nat.toDigits_of_lt_base hlt, hchar]
    rw [List.append_cons, hlonger, Nat.ofDigitChars_cons, ih (by omega) hcs]

theorem isWhole_iff :
    isWhole cs = true ↔ cs = ['0'] ∨ isDigits cs = true ∧ cs.head? ≠ some '0' := by
  simp [isWhole]

/-- Digits without a leading zero are those of their value. -/
theorem eq_toDigits_of_isWhole (h : isWhole cs = true) :
    cs = Nat.toDigits 10 (Nat.ofDigitChars 10 cs 0) := by
  rcases isWhole_iff.mp h with rfl | ⟨hdigits, hhead⟩
  · decide
  · obtain ⟨hne, hall⟩ := isDigits_iff.mp hdigits
    cases cs with
    | nil => exact absurd rfl hne
    | cons c cs =>
      obtain ⟨hc, hcs⟩ := List.forall_mem_cons.mp hall
      obtain ⟨hlt, hchar⟩ := digitChar_of_isDigit hc
      have hpos : 0 < c.toNat - '0'.toNat := by
        by_contra hzero
        rw [Nat.eq_zero_of_not_pos hzero] at hchar
        exact hhead (by rw [← hchar]; rfl)
      have hfirst := toDigits_append hpos hcs
      rw [Nat.toDigits_of_lt_base hlt, hchar] at hfirst
      rw [Nat.ofDigitChars_cons, Nat.mul_zero, Nat.zero_add, ← hfirst]
      rfl

theorem head?_toDigits_ne {n : Nat} (hn : 0 < n) : (Nat.toDigits 10 n).head? ≠ some '0' := by
  induction n using Nat.strongRecOn with
  | ind n ih =>
    rw [Nat.toDigits_eq_if (by decide)]
    split
    · rw [List.head?_cons, ne_eq, Option.some.injEq, Nat.digitChar_eq_zero]
      omega
    · have hfirst := ih (n / 10) (by omega) (by omega)
      rwa [List.head?_append_of_ne_nil _ Nat.toDigits_ne_nil]

theorem isWhole_toDigits (n : Nat) : isWhole (Nat.toDigits 10 n) = true := by
  rw [isWhole_iff]
  rcases Nat.eq_zero_or_pos n with rfl | hn
  · exact .inl (Nat.toDigits_zero 10)
  · refine .inr ⟨isDigits_iff.mpr ⟨Nat.toDigits_ne_nil, fun c hc => ?_⟩, head?_toDigits_ne hn⟩
    exact Nat.isDigit_of_mem_toDigits (by decide) (by decide) hc

theorem natural?_eq_some_iff {n : Nat} : natural? cs = some n ↔ cs = Nat.toDigits 10 n := by
  unfold natural?
  constructor
  · intro h
    split at h
    · rename_i hwhole
      rw [← Option.some.inj h]
      exact eq_toDigits_of_isWhole hwhole
    · cases h
  · rintro rfl
    rw [if_pos (isWhole_toDigits n), Nat.ofDigitChars_toDigits (by decide) (by decide)]

theorem isDigit_of_mem_toDigits {n : Nat} (h : c ∈ Nat.toDigits 10 n) : c.isDigit = true :=
  Nat.isDigit_of_mem_toDigits (by decide) (by decide) h

/-- An integer is read from the one numeral that it is written with. -/
theorem integer?_eq_some_iff {n : Int} : integer? cs = some n ↔ cs = ofInt n := by
  constructor
  · intro h
    unfold integer? at h
    split at h
    · rename_i rest
      cases hrest : natural? rest with
      | none => simp [hrest] at h
      | some k =>
        cases k with
        | zero => simp [hrest] at h
        | succ k =>
          simp only [hrest, Option.some.injEq] at h
          rw [← h, natural?_eq_some_iff.mp hrest]
          rfl
    · obtain ⟨k, hk, rfl⟩ := Option.map_eq_some_iff.mp h
      exact natural?_eq_some_iff.mp hk
  · rintro rfl
    cases n with
    | ofNat n =>
      have hdigits : natural? (Nat.toDigits 10 n) = some n := natural?_eq_some_iff.mpr rfl
      rw [ofInt]
      unfold integer?
      split
      · rename_i rest heq
        have hminus : '-' ∈ Nat.toDigits 10 n := heq ▸ List.mem_cons_self
        exact absurd (isDigit_of_mem_toDigits hminus) (by decide)
      · rw [hdigits]
        rfl
    | negSucc n =>
      have hdigits : natural? (Nat.toDigits 10 (n + 1)) = some (n + 1) :=
        natural?_eq_some_iff.mpr rfl
      rw [ofInt, integer?, hdigits]

end Digits

section Grammar

variable {cs digits rest : List Char}

theorem span_digits (hdigits : ∀ c ∈ digits, c.isDigit = true)
    (hrest : ∀ c ∈ rest.head?, c.isDigit = false) :
    (digits ++ rest).takeWhile Char.isDigit = digits ∧
      (digits ++ rest).dropWhile Char.isDigit = rest := by
  induction digits with
  | nil =>
    cases rest with
    | nil => exact ⟨rfl, rfl⟩
    | cons c rest =>
      have hc : c.isDigit = false := hrest c rfl
      simp [hc]
  | cons c digits ih =>
    obtain ⟨hc, hdigits⟩ := List.forall_mem_cons.mp hdigits
    obtain ⟨htake, hdrop⟩ := ih hdigits
    rw [List.cons_append, List.takeWhile_cons_of_pos hc, List.dropWhile_cons_of_pos hc, htake]
    exact ⟨rfl, hdrop⟩

theorem isDigits_unsigned_iff :
    isDigits (unsigned cs) = true ↔
      ∃ sign digits, cs = sign ++ digits ∧ (sign = [] ∨ sign = ['+'] ∨ sign = ['-']) ∧
        isDigits digits = true := by
  constructor
  · intro h
    unfold unsigned at h
    split at h
    · exact ⟨['+'], _, rfl, by simp, h⟩
    · exact ⟨['-'], _, rfl, by simp, h⟩
    · exact ⟨[], cs, rfl, by simp, h⟩
  · rintro ⟨sign, digits, rfl, rfl | rfl | rfl, h⟩
    · have hall := (isDigits_iff.mp h).2
      rw [List.nil_append]
      unfold unsigned
      split
      · exact absurd (hall '+' List.mem_cons_self) (by decide)
      · exact absurd (hall '-' List.mem_cons_self) (by decide)
      · exact h
    · exact h
    · exact h

theorem isExponent_iff : isExponent cs = true ↔ IsExponentPart cs := by
  unfold IsExponentPart
  cases cs with
  | nil => simp [isExponent]
  | cons c cs =>
    simp only [isExponent, Bool.and_eq_true, Bool.or_eq_true, beq_iff_eq, isDigits_unsigned_iff]
    constructor
    · rintro ⟨hmark, sign, digits, rfl, hsign, hdigits⟩
      exact .inr ⟨c, sign, digits, rfl, hmark, hsign, hdigits⟩
    · rintro (h | ⟨mark, sign, digits, heq, hmark, hsign, hdigits⟩)
      · cases h
      · obtain ⟨rfl, rfl⟩ := List.cons.inj heq
        exact ⟨hmark, sign, digits, rfl, hsign, hdigits⟩

theorem isDigit_of_mem_isWhole (h : isWhole cs = true) : ∀ c ∈ cs, c.isDigit = true := by
  rcases isWhole_iff.mp h with rfl | ⟨hdigits, _⟩
  · exact List.forall_mem_singleton.mpr rfl
  · exact (isDigits_iff.mp hdigits).2

theorem head?_exponent (h : IsExponentPart cs) : ∀ c ∈ cs.head?, c = 'e' ∨ c = 'E' := by
  rcases h with rfl | ⟨mark, sign, digits, rfl, hmark, _⟩
  · simp
  · simpa using hmark

theorem isTail_iff : isTail cs = true ↔ IsTail cs := by
  constructor
  · intro h
    unfold isTail at h
    split at h
    · rename_i cs
      rw [Bool.and_eq_true, isExponent_iff] at h
      refine ⟨'.' :: cs.takeWhile Char.isDigit, cs.dropWhile Char.isDigit, ?_, ?_, h.2⟩
      · rw [List.cons_append, List.takeWhile_append_dropWhile]
      · exact .inr ⟨_, rfl, h.1⟩
    · exact ⟨[], cs, rfl, .inl rfl, isExponent_iff.mp h⟩
  · rintro ⟨fraction, exponent, rfl, rfl | ⟨digits, rfl, hdigits⟩, hexponent⟩
    · rw [List.nil_append]
      unfold isTail
      split
      · have hpoint := head?_exponent hexponent '.' rfl
        simp at hpoint
      · exact isExponent_iff.mpr hexponent
    · have hrest : ∀ c ∈ exponent.head?, c.isDigit = false := by
        intro c hc
        rcases head?_exponent hexponent c hc with rfl | rfl <;> decide
      obtain ⟨htake, hdrop⟩ := span_digits (isDigits_iff.mp hdigits).2 hrest
      rw [List.cons_append, isTail, htake, hdrop, hdigits, isExponent_iff.mpr hexponent]
      rfl

theorem head?_tail (h : IsTail cs) : ∀ c ∈ cs.head?, c.isDigit = false := by
  obtain ⟨fraction, exponent, rfl, rfl | ⟨digits, rfl, _⟩, hexponent⟩ := h
  · intro c hc
    rcases head?_exponent hexponent c hc with rfl | rfl <;> decide
  · simp

theorem isPositive_iff :
    isPositive cs = true ↔
      ∃ whole tail, cs = whole ++ tail ∧ isWhole whole = true ∧ IsTail tail := by
  unfold isPositive
  rw [Bool.and_eq_true, isTail_iff]
  constructor
  · rintro ⟨hwhole, htail⟩
    exact ⟨_, _, (List.takeWhile_append_dropWhile).symm, hwhole, htail⟩
  · rintro ⟨whole, tail, rfl, hwhole, htail⟩
    obtain ⟨htake, hdrop⟩ := span_digits (isDigit_of_mem_isWhole hwhole) (head?_tail htail)
    rw [htake, hdrop]
    exact ⟨hwhole, htail⟩

/-- What is read as a numeral is what the grammar of JSON has as one. -/
theorem isNumeral_iff : isNumeral cs = true ↔ IsNumber cs := by
  constructor
  · intro h
    unfold isNumeral at h
    split at h
    · obtain ⟨whole, tail, rfl, hwhole, htail⟩ := isPositive_iff.mp h
      exact .intro (.inr rfl) hwhole htail
    · obtain ⟨whole, tail, rfl, hwhole, htail⟩ := isPositive_iff.mp h
      exact .intro (.inl rfl) hwhole htail
  · rintro ⟨rfl | rfl, hwhole, htail⟩
    · rename_i whole tail
      rw [List.nil_append]
      unfold isNumeral
      split
      · rename_i rest heq
        cases whole with
        | nil => simp [isWhole, isDigits] at hwhole
        | cons c whole =>
          obtain ⟨rfl, -⟩ := List.cons.inj heq
          exact absurd (isDigit_of_mem_isWhole hwhole '-' List.mem_cons_self) (by decide)
      · exact isPositive_iff.mpr ⟨whole, tail, rfl, hwhole, htail⟩
    · rename_i whole tail
      exact isPositive_iff.mpr ⟨whole, tail, rfl, hwhole, htail⟩

end Grammar

end LayoutContract.Json.Numeral
