import Mathlib.Data.List.Basic

/-!
Lists in which of the elements with one key only the first is left, in the place where it stood.
-/
namespace LayoutContract

/-- Of the elements with the same key, the first one. -/
def firstOfEach {α κ : Type} [DecidableEq κ] (key : α → κ) : List α → List α
  | [] => []
  | a :: as => a :: (firstOfEach key as).filter (key · ≠ key a)

section FirstOfEach

variable {α β κ : Type} [DecidableEq κ]

/-- Behind other elements, those are left out whose key has occurred. -/
theorem firstOfEach_append (key : α → κ) (as bs : List α) :
    firstOfEach key (as ++ bs) =
      firstOfEach key as ++ (firstOfEach key bs).filter (key · ∉ as.map key) := by
  induction as with
  | nil => simp [firstOfEach]
  | cons a as ih =>
    simp only [List.cons_append, firstOfEach, ih, List.filter_append, List.filter_filter]
    congr 2
    apply List.filter_congr
    intro b _
    simp

/-- A further element is left if its key has not occurred. -/
theorem firstOfEach_concat (key : α → κ) (as : List α) (a : α) :
    firstOfEach key (as ++ [a]) =
      firstOfEach key as ++ if key a ∈ as.map key then [] else [a] := by
  have hsingle : firstOfEach key [a] = [a] := rfl
  rw [firstOfEach_append, hsingle]
  by_cases ha : key a ∈ as.map key
  · rw [if_pos ha, List.filter_cons_of_neg (by simpa using ha), List.filter_nil]
  · rw [if_neg ha, List.filter_cons_of_pos (by simpa using ha), List.filter_nil]

theorem mem_firstOfEach_id [DecidableEq α] {a : α} {as : List α} :
    a ∈ firstOfEach id as ↔ a ∈ as := by
  induction as with
  | nil => rfl
  | cons b as ih =>
    by_cases hab : a = b <;> simp [firstOfEach, ih, hab]

theorem firstOfEach_cons_of_not_mem [DecidableEq α] {a : α} {as : List α} (h : a ∉ as) :
    firstOfEach id (a :: as) = a :: firstOfEach id as := by
  rw [firstOfEach, List.filter_eq_self.mpr]
  intro b hb
  have hne : b ≠ a := fun heq => h (heq ▸ mem_firstOfEach_id.mp hb)
  simpa using hne

/-- Where equal keys come from equal elements, repetitions can be left out before or after. -/
theorem firstOfEach_filterMap [DecidableEq α] {key : β → κ} {f : α → Option β}
    (hkey : ∀ {a a' b b'}, f a = some b → f a' = some b' → (key b = key b' ↔ a = a'))
    (as : List α) : firstOfEach key (as.filterMap f) = (firstOfEach id as).filterMap f := by
  induction as with
  | nil => rfl
  | cons a as ih =>
    rw [firstOfEach]
    cases hb : f a with
    | none =>
      rw [List.filterMap_cons_none hb, List.filterMap_cons_none hb, ih, List.filterMap_filter]
      apply List.filterMap_congr
      intro a' _
      by_cases ha : a' = a <;> simp [ha, hb]
    | some b =>
      rw [List.filterMap_cons_some hb, List.filterMap_cons_some hb, firstOfEach, ih,
        List.filterMap_filter, List.filter_filterMap]
      congr 1
      apply List.filterMap_congr
      intro a' _
      cases hb' : f a' with
      | none => simp
      | some b' => by_cases ha : a' = a <;> simp [Option.filter_some, hkey hb' hb, ha]

end FirstOfEach

end LayoutContract
