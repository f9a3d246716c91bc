import LayoutContract.Proofs.FirstOccurrences
import LayoutContract.Proofs.LedgerVerdicts

/-!
Ledgers in use. Claims and reads follow each other in any order, and all that a ledger holds and
answers can be told from the claims so far: it holds the first claim of each index, and it refuses
the others. Reads leave no trace.
-/
namespace LayoutContract

/-- What a ledger is asked to do: to record a claim, or to be read in one of several ways. -/
inductive LedgerCall (ι : Type) where
  | record (e : IndexEntry ι)
  | entries
  | sorted
  | length
  | isEmpty
  | verdict (qualified : ι → String) (constructors : List (List ι))

inductive LedgerAnswer (ι : Type) where
  | recorded (free : Bool)
  | entries (es : List (IndexEntry ι))
  | length (n : Nat)
  | isEmpty (empty : Bool)
  | verdict (v : LayoutVerdict ι)

variable {ι : Type}

def LedgerCall.claim? : LedgerCall ι → Option (IndexEntry ι)
  | record e => some e
  | entries | sorted | length | isEmpty | verdict _ _ => none

/-- The claims among some calls. -/
def claimsOf (calls : List (LedgerCall ι)) : List (IndexEntry ι) :=
  calls.filterMap LedgerCall.claim?

/-- The answer that the claims before a call ask for. -/
inductive LedgerAnswer.Fits (claims : List (IndexEntry ι)) :
    LedgerCall ι → LedgerAnswer ι → Prop
  | accepted {e : IndexEntry ι} (h : e.index ∉ claims.map (·.index)) :
      Fits claims (.record e) (.recorded true)
  | refused {e : IndexEntry ι} (h : e.index ∈ claims.map (·.index)) :
      Fits claims (.record e) (.recorded false)
  | entries : Fits claims .entries (.entries (firstOfEach (·.index) claims))
  | sorted {es : List (IndexEntry ι)} (hperm : es.Perm (firstOfEach (·.index) claims))
      (hascending : (es.map (·.index)).Pairwise (· < ·)) : Fits claims .sorted (.entries es)
  | length : Fits claims .length (.length (claims.map (·.index)).toFinset.card)
  | isEmpty : Fits claims .isEmpty (.isEmpty claims.isEmpty)
  | verdict {qualified : ι → String} {constructors : List (List ι)} :
      Fits claims (.verdict qualified constructors)
        (.verdict ((IndexLedger.recording claims).verdict qualified constructors))

theorem claimsOf_concat (calls : List (LedgerCall ι)) (call : LedgerCall ι) :
    claimsOf (calls ++ [call]) = claimsOf calls ++ call.claim?.toList := by
  unfold claimsOf
  rw [List.filterMap_append]
  cases call <;> rfl

namespace IndexLedger

/-- What a ledger answers to a call, and the ledger from then on. -/
def answer (l : IndexLedger ι) : LedgerCall ι → LedgerAnswer ι × IndexLedger ι
  | .record e => (.recorded (l.record e).1, (l.record e).2)
  | .entries => (.entries l.entries, l)
  | .sorted => (.entries l.sorted, l)
  | .length => (.length l.length, l)
  | .isEmpty => (.isEmpty l.isEmpty, l)
  | .verdict qualified constructors => (.verdict (l.verdict qualified constructors), l)

/-- The answers to some calls, one after the other. -/
def answers (l : IndexLedger ι) : List (LedgerCall ι) → List (LedgerAnswer ι)
  | [] => []
  | call :: calls => (l.answer call).1 :: (l.answer call).2.answers calls

/-- The ledger once the calls are answered. -/
def after (l : IndexLedger ι) (calls : List (LedgerCall ι)) : IndexLedger ι :=
  calls.foldl (fun l call => (l.answer call).2) l

variable {l : IndexLedger ι} {claims : List (IndexEntry ι)}

theorem after_concat (l : IndexLedger ι) (calls : List (LedgerCall ι)) (call : LedgerCall ι) :
    l.after (calls ++ [call]) = ((l.after calls).answer call).2 := by
  simp [after]

theorem answers_concat (l : IndexLedger ι) (calls : List (LedgerCall ι)) (call : LedgerCall ι) :
    l.answers (calls ++ [call]) = l.answers calls ++ [((l.after calls).answer call).1] := by
  induction calls generalizing l with
  | nil => rfl
  | cons first calls ih =>
    rw [List.cons_append, answers, ih, answers, List.cons_append]
    rfl

/-- Reads leave no trace. -/
theorem after_eq_recording (calls : List (LedgerCall ι)) :
    empty.after calls = recording (claimsOf calls) := by
  induction calls using List.reverseRecOn with
  | nil => rfl
  | append_singleton calls call ih =>
    rw [after_concat, ih, claimsOf_concat]
    cases call with
    | record e => exact (recording_concat _ e).symm
    | _ => exact congrArg recording (List.append_nil _).symm

theorem answers_eq_map (calls : List (LedgerCall ι)) :
    empty.answers calls =
      (withEarlier calls).map fun x => ((recording (claimsOf x.1)).answer x.2).1 := by
  induction calls using List.reverseRecOn with
  | nil => rfl
  | append_singleton calls call ih =>
    rw [answers_concat, ih, after_eq_recording, withEarlier_concat, List.map_append]
    rfl

theorem mem_claimed_recording_iff {index : Int} :
    index ∈ (recording claims).claimed ↔ index ∈ claims.map (·.index) := by
  rw [(holdsEachOnce_recording claims).claimed, ← List.mem_toFinset, ← List.mem_toFinset,
    ← held_recording claims, held]

/-- An entry is the first claim of its index. -/
theorem entries_recording_eq_firstOfEach (claims : List (IndexEntry ι)) :
    (recording claims).entries = firstOfEach (·.index) claims := by
  induction claims using List.reverseRecOn with
  | nil => rfl
  | append_singleton claims e ih =>
    rw [recording_concat, firstOfEach_concat, ← ih]
    by_cases he : e.index ∈ claims.map (·.index)
    · rw [record_of_claimed (mem_claimed_recording_iff.mpr he), if_pos he, List.append_nil]
    · rw [record_of_free (mt mem_claimed_recording_iff.mp he), if_neg he]

theorem length_recording (claims : List (IndexEntry ι)) :
    (recording claims).length = (claims.map (·.index)).toFinset.card := by
  rw [← (holdsEachOnce_recording claims).card_held, held_recording]

theorem isEmpty_recording (claims : List (IndexEntry ι)) :
    (recording claims).isEmpty = claims.isEmpty := by
  rw [isEmpty, entries_recording_eq_firstOfEach]
  cases claims <;> rfl

theorem record_recording_fst (claims : List (IndexEntry ι)) (e : IndexEntry ι) :
    ((recording claims).record e).1 = decide (e.index ∉ claims.map (·.index)) := by
  by_cases he : e.index ∈ claims.map (·.index)
  · rw [record_of_claimed (mem_claimed_recording_iff.mpr he), decide_eq_false (not_not_intro he)]
  · rw [record_of_free (mt mem_claimed_recording_iff.mp he), decide_eq_true he]

/-- A refused claim changes nothing. -/
theorem record_eq_self_of_refused {e : IndexEntry ι} (h : (l.record e).1 = false) :
    (l.record e).2 = l := by
  by_cases he : e.index ∈ l.claimed
  · rw [record_of_claimed he]
  · simp [record_of_free he] at h

theorem fits_answer (claims : List (IndexEntry ι)) (call : LedgerCall ι) :
    LedgerAnswer.Fits claims call ((recording claims).answer call).1 := by
  cases call with
  | record e =>
    rw [answer, record_recording_fst]
    by_cases he : e.index ∈ claims.map (·.index)
    · rw [decide_eq_false (not_not_intro he)]
      exact .refused he
    · rw [decide_eq_true he]
      exact .accepted he
  | entries =>
    rw [answer, entries_recording_eq_firstOfEach]
    exact .entries
  | sorted =>
    refine .sorted ?_ (sorted_pairwise_lt (holdsEachOnce_recording claims).nodup)
    rw [← entries_recording_eq_firstOfEach]
    exact sorted_perm _
  | length =>
    rw [answer, length_recording]
    exact .length
  | isEmpty =>
    rw [answer, isEmpty_recording]
    exact .isEmpty
  | verdict => exact .verdict

/-- A ledger never gets out of step with its claims. However it is claimed from and read, it
refuses exactly the indices of its entries, of which there is one for each index; the entries are
the first claims of their indices in the order of the claims, put in ascending order without a loss
when they are sorted, and as many as there are different indices. The next claim is refused exactly
if its index was claimed before, and then leaves the ledger as it is. So every answer can be told
from the claims before it. -/
theorem ledger_holds_first_claims (calls : List (LedgerCall ι)) :
    let l := empty.after calls
    let claims := claimsOf calls
    (∀ index, index ∈ l.claimed ↔ index ∈ l.entries.map (·.index)) ∧
      (l.entries.map (·.index)).Nodup ∧
      l.entries = firstOfEach (·.index) claims ∧
      l.sorted.Perm l.entries ∧ (l.sorted.map (·.index)).Pairwise (· < ·) ∧
      l.length = (claims.map (·.index)).toFinset.card ∧
      (∀ e, ((l.record e).1 = false ↔ e.index ∈ claims.map (·.index)) ∧
        ((l.record e).1 = false → (l.record e).2 = l)) ∧
      List.Forall₂ (fun x answer => LedgerAnswer.Fits (claimsOf x.1) x.2 answer)
        (withEarlier calls) (empty.answers calls) := by
  intro l claims
  have hl : l = recording claims := after_eq_recording calls
  have hledger : l.HoldsEachOnce := hl ▸ holdsEachOnce_recording claims
  refine ⟨hledger.claimed, hledger.nodup, hl ▸ entries_recording_eq_firstOfEach claims,
    sorted_perm l, sorted_pairwise_lt hledger.nodup, hl ▸ length_recording claims, fun e => ?_, ?_⟩
  · refine ⟨?_, record_eq_self_of_refused⟩
    rw [hl, record_recording_fst]
    simp
  · rw [answers_eq_map, List.forall₂_map_right_iff]
    exact List.forall₂_same.mpr fun x _ => fits_answer (claimsOf x.1) x.2

/-- The second claim of the index 3 is refused, whatever is read in between. -/
example :
    let l := empty.after [.record ⟨3, 0, 1⟩, .sorted, .record ⟨3, 0, 2⟩, .length, .record ⟨1, 0, 2⟩]
    l.entries = [⟨3, 0, 1⟩, ⟨1, 0, 2⟩] ∧ l.sorted = [⟨1, 0, 2⟩, ⟨3, 0, 1⟩] := by
  decide

end IndexLedger
end LayoutContract
