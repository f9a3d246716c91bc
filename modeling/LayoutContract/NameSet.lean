/-!
Finite sets of names. The names are kept in strictly ascending order, so two sets with the same
members are equal and the order in which names were added leaves no trace.
-/
namespace LayoutContract

structure NameSet where
  toList : List String
  ascending : toList.Pairwise (· < ·)
  deriving DecidableEq

namespace NameSet

def empty : NameSet := ⟨[], .nil⟩

instance : Membership String NameSet := ⟨fun s name => name ∈ s.toList⟩

instance (name : String) (s : NameSet) : Decidable (name ∈ s) :=
  inferInstanceAs (Decidable (name ∈ s.toList))

def insertSorted (name : String) : List String → List String
  | [] => [name]
  | n :: ns =>
    if name < n then name :: n :: ns
    else if name = n then n :: ns
    else n :: insertSorted name ns

theorem mem_insertSorted {name n : String} {ns : List String} :
    n ∈ insertSorted name ns ↔ n = name ∨ n ∈ ns := by
  induction ns with
  | nil => simp [insertSorted]
  | cons m ms ih =>
    unfold insertSorted
    split
    · simp
    · split
      · rename_i h
        simp [h]
      · simp only [List.mem_cons, ih]
        grind

theorem pairwise_insertSorted {name : String} {ns : List String} (h : ns.Pairwise (· < ·)) :
    (insertSorted name ns).Pairwise (· < ·) := by
  induction ns with
  | nil => simp [insertSorted]
  | cons m ms ih =>
    have ⟨hm, hms⟩ := List.pairwise_cons.1 h
    unfold insertSorted
    split
    · rename_i hlt
      refine List.pairwise_cons.2 ⟨fun n hn => ?_, h⟩
      rcases List.mem_cons.1 hn with rfl | hn
      · exact hlt
      · exact String.lt_trans hlt (hm n hn)
    · split
      · exact h
      · rename_i hlt hne
        refine List.pairwise_cons.2 ⟨fun n hn => ?_, ih hms⟩
        rcases mem_insertSorted.1 hn with rfl | hn
        · exact Std.lt_of_le_of_ne (String.not_lt.1 hlt) (Ne.symm hne)
        · exact hm n hn

def insert (s : NameSet) (name : String) : NameSet :=
  ⟨insertSorted name s.toList, pairwise_insertSorted s.ascending⟩

def insertAll (s : NameSet) (names : List String) : NameSet := names.foldl insert s

def ofList (names : List String) : NameSet := empty.insertAll names

theorem mem_insert {s : NameSet} {name n : String} : n ∈ s.insert name ↔ n = name ∨ n ∈ s :=
  mem_insertSorted

theorem mem_insertAll {s : NameSet} {names : List String} {n : String} :
    n ∈ s.insertAll names ↔ n ∈ names ∨ n ∈ s := by
  induction names generalizing s with
  | nil => simp [insertAll]
  | cons m ms ih =>
    have : s.insertAll (m :: ms) = (s.insert m).insertAll ms := rfl
    rw [this, ih, mem_insert]
    simp only [List.mem_cons]
    grind

end NameSet
end LayoutContract
