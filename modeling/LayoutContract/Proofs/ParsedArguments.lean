import LayoutContract.Proofs.CheckArguments
import Mathlib.Data.List.Forall2
import Mathlib.Data.List.Induction

/-!
The options of a check as a function of what its arguments say, and its refusal as that of the
first argument that offends. Where an argument stands does not matter, except among those that
give a value to the same flag; and of names that are allowed even the order and the number do not.
-/
namespace LayoutContract

namespace CheckArgument

def path? : CheckArgument → Option String
  | graph path => some path
  | _ => none

def config? : CheckArgument → Option String
  | config path => some path
  | _ => none

def allowed? : CheckArgument → Option String
  | allow name => some name
  | _ => none

def format? : CheckArgument → Option OutputFormat
  | format f => some f
  | _ => none

def color? : CheckArgument → Option ColorMode
  | color mode => some mode
  | _ => none

/-- The flag before the value that is said. -/
def flag? : CheckArgument → Option String
  | config _ => some "--config="
  | allow _ => some "--allow="
  | .format _ => some "--format="
  | .color _ => some "--color="
  | denyWarnings | graph _ => none

theorem Says.hasFlag {argument flag : String} {a : CheckArgument} (h : Says argument a)
    (hflag : a.flag? = some flag) : HasFlag flag argument := by
  cases h with
  | denyWarnings | graph => cases hflag
  | _ => exact Option.some.inj hflag ▸ hasFlag_append _ _

end CheckArgument

namespace CheckOptions

open CheckArgument

/-- The options of a check of `graph` that is told `said`. -/
def ofSaid (graph : String) (said : List CheckArgument) : CheckOptions where
  graph
  config := (said.filterMap config?).getLast?
  allow := said.filterMap allowed?
  format := (said.filterMap format?).getLast?.getD .terminal
  color := (said.filterMap color?).getLast?.getD .auto
  denyWarnings := .denyWarnings ∈ said

/-- Why an argument is refused behind the `earlier` ones. There is one graph only. -/
inductive Offends (earlier : List String) : String → Refusal → Prop
  | alone {argument : String} {r : Refusal} (h : IsRefused argument r) : Offends earlier argument r
  | second {path other : String} (h : ¬ IsDashed path) (hearlier : other ∈ earlier)
      (hother : ¬ IsDashed other) : Offends earlier path (.unexpectedArgument path)

def OffendsAt (arguments : List String) (i : ℕ) (r : Refusal) : Prop :=
  ∃ argument, arguments[i]? = some argument ∧ Offends (arguments.take i) argument r

def IsFirstOffence (arguments : List String) (r : Refusal) : Prop :=
  ∃ i, OffendsAt arguments i r ∧ ∀ j < i, ∀ r', ¬ OffendsAt arguments j r'

variable {arguments earlier : List String} {said : List CheckArgument} {argument : String}
  {a : CheckArgument} {r : Refusal}

/-- What is said by the arguments that are not refused. -/
def heard (arguments : List String) : List CheckArgument :=
  arguments.filterMap fun argument => (read argument).toOption

theorem heard_cons (h : Says argument a) (arguments : List String) :
    heard (argument :: arguments) = a :: heard arguments := by
  have hmeaning : (read argument).toOption = some a := by rw [h.read]; rfl
  exact List.filterMap_cons_some hmeaning

theorem eq_heard (h : List.Forall₂ Says arguments said) : said = heard arguments := by
  induction h with
  | nil => rfl
  | cons hsays _ ih => rw [heard_cons hsays, ih]

theorem forall₂_heard (h : ∀ argument ∈ arguments, ∃ a, Says argument a) :
    List.Forall₂ Says arguments (heard arguments) := by
  induction arguments with
  | nil => exact .nil
  | cons argument arguments ih =>
    rw [List.forall_mem_cons] at h
    obtain ⟨⟨a, ha⟩, harguments⟩ := h
    rw [heard_cons ha]
    exact .cons ha (ih harguments)

/-- The paths that are said are the arguments without a dash. -/
theorem paths_eq (h : List.Forall₂ Says arguments said) :
    said.filterMap path? = arguments.filter (¬ IsDashed ·) := by
  induction h with
  | nil => rfl
  | cons hsays _ ih =>
    cases hsays with
    | graph hplain => simp [path?, hplain, ih]
    | denyWarnings => exact ih
    | _ =>
      rw [List.filter_cons_of_neg, List.filterMap_cons_none rfl, ih]
      simpa using isDashed_of_hasFlag (by decide) (hasFlag_append _ _)

theorem paths_eq_nil_iff (h : List.Forall₂ Says arguments said) :
    said.filterMap path? = [] ↔ ∀ argument ∈ arguments, IsDashed argument := by
  rw [paths_eq h, List.filter_eq_nil_iff]
  simp

section Reading

/-- What is known of the options once `said` is read. -/
def Draft.ofSaid (said : List CheckArgument) : Draft where
  graph? := (said.filterMap path?).head?
  options := CheckOptions.ofSaid "" said

theorem Draft.add_ofSaid (h : a.path? = none ∨ said.filterMap path? = []) :
    (Draft.ofSaid said).add a = .ok (Draft.ofSaid (said ++ [a])) := by
  cases a with
  | graph path =>
    have hnone : said.filterMap path? = [] := by simpa [path?] using h
    simp [Draft.add, Draft.ofSaid, CheckOptions.ofSaid, hnone, path?, config?, allowed?, format?,
      color?]
  | _ =>
    simp [Draft.add, Draft.ofSaid, CheckOptions.ofSaid, path?, config?, allowed?, format?, color?]

theorem Draft.add_graph_ofSaid (h : said.filterMap path? ≠ []) (path : String) :
    (Draft.ofSaid said).add (.graph path) = .error (.unexpectedArgument path) := by
  obtain ⟨first, rest, hpaths⟩ := List.exists_cons_of_ne_nil h
  simp [Draft.add, Draft.ofSaid, hpaths]

/-- Behind arguments that say something the next one does so too, or it offends. -/
theorem addText_cases (h : List.Forall₂ Says earlier said) (argument : String) :
    (∃ a, Says argument a ∧ (a.path? = none ∨ said.filterMap path? = []) ∧
        (∀ r, ¬ Offends earlier argument r) ∧
        (Draft.ofSaid said).addText argument = .ok (Draft.ofSaid (said ++ [a]))) ∨
      ∃ r, Offends earlier argument r ∧ (Draft.ofSaid said).addText argument = .error r := by
  have hpaths := paths_eq h
  cases hread : read argument with
  | error r =>
    refine .inr ⟨r, .alone (read_eq_error_iff.mp hread), ?_⟩
    rw [Draft.addText, hread]
    rfl
  | ok a =>
    have ha := read_eq_ok_iff.mp hread
    have hadd : (Draft.ofSaid said).addText argument = (Draft.ofSaid said).add a := by
      rw [Draft.addText, hread]
      rfl
    rw [hadd]
    by_cases hroom : a.path? = none ∨ said.filterMap path? = []
    · refine .inl ⟨a, ha, hroom, fun r hr => ?_, Draft.add_ofSaid hroom⟩
      cases hr with
      | alone hr => exact ha.not_isRefused hr
      | @second other hplain hearlier hother =>
        obtain rfl := (Says.graph hplain).eq ha
        have hnone : said.filterMap path? = [] := by simpa [path?] using hroom
        rw [hnone] at hpaths
        exact absurd hother (by simpa using List.filter_eq_nil_iff.mp hpaths.symm other hearlier)
    · rw [not_or] at hroom
      cases ha with
      | graph hplain =>
        obtain ⟨other, hother⟩ := List.exists_mem_of_ne_nil _ hroom.2
        rw [hpaths, List.mem_filter, decide_eq_true_eq] at hother
        exact .inr ⟨_, .second hplain hother.1 hother.2, Draft.add_graph_ofSaid hroom.2 argument⟩
      | _ => exact absurd rfl hroom.1

theorem offendsAt_concat {i : ℕ} : OffendsAt (earlier ++ [argument]) i r ↔
    OffendsAt earlier i r ∨ i = earlier.length ∧ Offends earlier argument r := by
  unfold OffendsAt
  rcases Nat.lt_trichotomy i earlier.length with hi | rfl | hi
  · rw [List.getElem?_append_left hi, List.take_append_of_le_length (Nat.le_of_lt hi)]
    simp [Nat.ne_of_lt hi]
  · simp
  · have hnone : (earlier ++ [argument])[i]? = none := by
      rw [List.getElem?_eq_none_iff, List.length_append, List.length_singleton]
      omega
    have hnone' : earlier[i]? = none := List.getElem?_eq_none_iff.mpr (Nat.le_of_lt hi)
    simp [hnone, hnone', Nat.ne_of_gt hi]

theorem IsFirstOffence.concat (h : IsFirstOffence earlier r) (argument : String) :
    IsFirstOffence (earlier ++ [argument]) r := by
  obtain ⟨i, hi, hfirst⟩ := h
  refine ⟨i, offendsAt_concat.mpr (.inl hi), fun j hj r' hr' => ?_⟩
  rcases offendsAt_concat.mp hr' with hr' | ⟨rfl, -⟩
  · exact hfirst j hj r' hr'
  · obtain ⟨argument', hargument', -⟩ := hi
    have := List.getElem?_eq_none_iff.mpr (Nat.le_of_lt hj)
    exact nomatch this.symm.trans hargument'

theorem foldlM_addText_concat (d : Draft) (earlier : List String) (argument : String) :
    (earlier ++ [argument]).foldlM Draft.addText d =
      (earlier.foldlM Draft.addText d).bind (·.addText argument) := by
  rw [List.foldlM_append]
  cases earlier.foldlM Draft.addText d with
  | error r => rfl
  | ok next => exact bind_pure (next.addText argument)

/-- Arguments are read to their end, or to the first that offends. -/
theorem foldlM_addText_cases (arguments : List String) :
    (∃ said, List.Forall₂ Says arguments said ∧ (said.filterMap path?).length ≤ 1 ∧
        (∀ i r, ¬ OffendsAt arguments i r) ∧
        arguments.foldlM Draft.addText {} = .ok (Draft.ofSaid said)) ∨
      ∃ r, IsFirstOffence arguments r ∧ arguments.foldlM Draft.addText {} = .error r := by
  induction arguments using List.reverseRecOn with
  | nil => exact .inl ⟨[], .nil, by simp, by simp [OffendsAt], rfl⟩
  | append_singleton earlier argument ih =>
    -- Whether the last argument offends depends on those before it, so the list grows at its end.
    rw [foldlM_addText_concat]
    rcases ih with ⟨said, hsaid, hone, hnone, hread⟩ | ⟨r, hr, hread⟩
    · rw [hread, Except.bind]
      rcases addText_cases hsaid argument with ⟨a, ha, hroom, hsound, hadd⟩ | ⟨r, hr, hadd⟩
      · refine .inl ⟨said ++ [a], List.rel_append hsaid (.cons ha .nil), ?_, fun i r hi => ?_, hadd⟩
        · rw [List.filterMap_append, List.length_append]
          rcases hroom with hroom | hroom
          · simpa [hroom] using hone
          · simpa [hroom] using List.length_filterMap_le path? [a]
        · rcases offendsAt_concat.mp hi with hi | ⟨-, hi⟩
          · exact hnone i r hi
          · exact hsound r hi
      · refine .inr ⟨r, ⟨earlier.length, ?_, fun j hj r' hr' => ?_⟩, hadd⟩
        · exact offendsAt_concat.mpr (.inr ⟨rfl, hr⟩)
        · rcases offendsAt_concat.mp hr' with hr' | ⟨hlength, -⟩
          · exact hnone j r' hr'
          · omega
    · rw [hread]
      exact .inr ⟨r, hr.concat argument, rfl⟩

theorem parse_cases (arguments : List String) :
    (∃ said graph, List.Forall₂ Says arguments said ∧ said.filterMap path? = [graph] ∧
        parse arguments = .ok (ofSaid graph said)) ∨
      (∃ r, IsFirstOffence arguments r ∧ parse arguments = .error r) ∨
      (∀ i r, ¬ OffendsAt arguments i r) ∧ (∀ argument ∈ arguments, IsDashed argument) ∧
        parse arguments = .error (.missingArgument "type graph path") := by
  unfold parse
  rcases foldlM_addText_cases arguments with ⟨said, hsaid, hone, hnone, hread⟩ | ⟨r, hr, hread⟩
  · rw [hread, Except.bind]
    rcases Nat.le_one_iff_eq_zero_or_eq_one.mp hone with hlength | hlength
    · have hpaths := List.length_eq_zero_iff.mp hlength
      refine .inr (.inr ⟨hnone, (paths_eq_nil_iff hsaid).mp hpaths, ?_⟩)
      simp [Draft.finish, Draft.ofSaid, hpaths]
    · obtain ⟨graph, hpaths⟩ := List.length_eq_one_iff.mp hlength
      refine .inl ⟨said, graph, hsaid, hpaths, ?_⟩
      simp [Draft.finish, Draft.ofSaid, hpaths, CheckOptions.ofSaid]
  · rw [hread]
    exact .inr (.inl ⟨r, hr, rfl⟩)

end Reading

section Exactness

theorem Offends.eq {r' : Refusal} (h : Offends earlier argument r)
    (h' : Offends earlier argument r') : r = r' := by
  cases h with
  | alone h =>
    cases h' with
    | alone h' => exact h.eq h'
    | second hplain => exact absurd h (Says.graph hplain).not_isRefused
  | second hplain =>
    cases h' with
    | alone h' => exact absurd h' (Says.graph hplain).not_isRefused
    | second => rfl

theorem IsFirstOffence.eq {r' : Refusal} (h : IsFirstOffence arguments r)
    (h' : IsFirstOffence arguments r') : r = r' := by
  obtain ⟨i, hi, hfirst⟩ := h
  obtain ⟨j, hj, hfirst'⟩ := h'
  rcases Nat.lt_trichotomy i j with hlt | rfl | hlt
  · exact absurd hi (hfirst' i hlt r)
  · obtain ⟨argument, hargument, hoffends⟩ := hi
    obtain ⟨argument', hargument', hoffends'⟩ := hj
    obtain rfl := Option.some.inj (hargument.symm.trans hargument')
    exact hoffends.eq hoffends'
  · exact absurd hj (hfirst j hlt r')

theorem exists_says (h : List.Forall₂ Says arguments said) (hmem : argument ∈ arguments) :
    ∃ a, Says argument a := by
  induction h with
  | nil => cases hmem
  | cons hsays _ ih =>
    rcases List.mem_cons.mp hmem with rfl | hmem
    · exact ⟨_, hsays⟩
    · exact ih hmem

theorem not_offendsAt {graph : String} (h : List.Forall₂ Says arguments said)
    (hpaths : said.filterMap path? = [graph]) (i : ℕ) (r : Refusal) :
    ¬ OffendsAt arguments i r := by
  rintro ⟨argument, hargument, hoffends⟩
  cases hoffends with
  | alone hr =>
    obtain ⟨a, ha⟩ := exists_says h (List.mem_of_getElem? hargument)
    exact ha.not_isRefused hr
  | second hplain hearlier hother =>
    have hlength := congrArg List.length ((paths_eq h).symm.trans hpaths)
    rw [← List.take_append_drop i arguments, List.drop_eq_getElem?_toList_append, hargument,
      List.filter_append, List.length_append] at hlength
    have hfirst : 0 < ((arguments.take i).filter (¬ IsDashed ·)).length :=
      List.length_pos_of_mem (List.mem_filter.mpr ⟨hearlier, decide_eq_true hother⟩)
    rw [Option.toList_some, List.singleton_append,
      List.filter_cons_of_pos (by simpa using hplain), List.length_cons,
      List.length_singleton] at hlength
    omega

theorem parse_eq_ok_iff {o : CheckOptions} : parse arguments = .ok o ↔
    ∃ said graph, List.Forall₂ Says arguments said ∧ said.filterMap path? = [graph] ∧
      o = ofSaid graph said := by
  constructor
  · intro h
    rcases parse_cases arguments with ⟨said, graph, hsaid, hpaths, hparse⟩ | ⟨r, -, hparse⟩ |
      ⟨-, -, hparse⟩
    · exact ⟨said, graph, hsaid, hpaths, Except.ok.inj (h.symm.trans hparse)⟩
    · exact nomatch h.symm.trans hparse
    · exact nomatch h.symm.trans hparse
  · rintro ⟨said, graph, hsaid, hpaths, rfl⟩
    rcases parse_cases arguments with ⟨said', graph', hsaid', hpaths', hparse⟩ |
      ⟨r, ⟨i, hi, -⟩, -⟩ | ⟨-, hdashed, -⟩
    · obtain rfl := (eq_heard hsaid).trans (eq_heard hsaid').symm
      obtain rfl := List.singleton_inj.mp (hpaths.symm.trans hpaths')
      exact hparse
    · exact absurd hi (not_offendsAt hsaid hpaths i r)
    · exact nomatch hpaths.symm.trans ((paths_eq_nil_iff hsaid).mpr hdashed)

theorem parse_eq_error_iff : parse arguments = .error r ↔
    IsFirstOffence arguments r ∨ (∀ i r', ¬ OffendsAt arguments i r') ∧
      (∀ argument ∈ arguments, IsDashed argument) ∧ r = .missingArgument "type graph path" := by
  constructor
  · intro h
    rcases parse_cases arguments with ⟨said, graph, -, -, hparse⟩ | ⟨r', hr', hparse⟩ |
      ⟨hnone, hdashed, hparse⟩
    · exact nomatch h.symm.trans hparse
    · exact .inl (Except.error.inj (h.symm.trans hparse) ▸ hr')
    · exact .inr ⟨hnone, hdashed, Except.error.inj (h.symm.trans hparse)⟩
  · intro h
    rcases parse_cases arguments with ⟨said, graph, hsaid, hpaths, -⟩ | ⟨r', hr', hparse⟩ |
      ⟨hnone, -, hparse⟩
    · rcases h with ⟨i, hi, -⟩ | ⟨-, hdashed, -⟩
      · exact absurd hi (not_offendsAt hsaid hpaths i r)
      · exact nomatch hpaths.symm.trans ((paths_eq_nil_iff hsaid).mpr hdashed)
    · rcases h with h | ⟨hnone, -, -⟩
      · exact h.eq hr' ▸ hparse
      · obtain ⟨i, hi, -⟩ := hr'
        exact absurd hi (hnone i r')
    · rcases h with ⟨i, hi, -⟩ | ⟨-, -, rfl⟩
      · exact absurd hi (hnone i r)
      · exact hparse

end Exactness

section Position

variable {arguments' : List String}

/-- Nothing is lost of what a flag gives when other arguments are passed over. -/
theorem filterMap_heard_filter {α : Type} {flag : String} {value? : CheckArgument → Option α}
    (hvalue : ∀ a, value? a ≠ none → a.flag? = some flag) (arguments : List String) :
    (heard (arguments.filter (HasFlag flag))).filterMap value? =
      (heard arguments).filterMap value? := by
  unfold heard
  rw [List.filterMap_filterMap, List.filterMap_filterMap, List.filterMap_filter]
  refine List.filterMap_congr fun argument _ => ?_
  by_cases hhas : HasFlag flag argument
  · rw [if_pos (decide_eq_true hhas)]
  · rw [if_neg (by simpa using hhas)]
    cases hread : read argument with
    | error r => rfl
    | ok a =>
      refine by_contra fun hsome => hhas ?_
      exact (read_eq_ok_iff.mp hread).hasFlag (hvalue a (Ne.symm hsome))

/-- Values of a flag come through a reordering that leaves its arguments in their order. -/
theorem filterMap_heard_eq {α : Type} {flag : String} {value? : CheckArgument → Option α}
    (hvalue : ∀ a, value? a ≠ none → a.flag? = some flag)
    (h : arguments'.filter (HasFlag flag) = arguments.filter (HasFlag flag)) :
    (heard arguments').filterMap value? = (heard arguments).filterMap value? := by
  rw [← filterMap_heard_filter hvalue, h, filterMap_heard_filter hvalue]

theorem ofSaid_heard_eq (hperm : arguments'.Perm arguments)
    (hflags : ∀ flag ∈ valueFlags,
      arguments'.filter (HasFlag flag) = arguments.filter (HasFlag flag)) (graph : String) :
    ofSaid graph (heard arguments') = ofSaid graph (heard arguments) := by
  have hconfig : (heard arguments').filterMap config? = (heard arguments).filterMap config? :=
    filterMap_heard_eq (fun a ha => by cases a <;> simp_all [config?, flag?])
      (hflags "--config=" (by decide))
  have hallow : (heard arguments').filterMap allowed? = (heard arguments).filterMap allowed? :=
    filterMap_heard_eq (fun a ha => by cases a <;> simp_all [allowed?, flag?])
      (hflags "--allow=" (by decide))
  have hformat : (heard arguments').filterMap format? = (heard arguments).filterMap format? :=
    filterMap_heard_eq (fun a ha => by cases a <;> simp_all [format?, flag?])
      (hflags "--format=" (by decide))
  have hcolor : (heard arguments').filterMap color? = (heard arguments).filterMap color? :=
    filterMap_heard_eq (fun a ha => by cases a <;> simp_all [color?, flag?])
      (hflags "--color=" (by decide))
  have hmem (a : CheckArgument) : a ∈ heard arguments' ↔ a ∈ heard arguments :=
    (hperm.filterMap _).mem_iff
  simp only [ofSaid, hconfig, hallow, hformat, hcolor, hmem]

/-- A reordering of arguments that are accepted is accepted, with the same options. -/
theorem parse_of_perm {o : CheckOptions} (hperm : arguments'.Perm arguments)
    (hflags : ∀ flag ∈ valueFlags,
      arguments'.filter (HasFlag flag) = arguments.filter (HasFlag flag))
    (h : parse arguments = .ok o) : parse arguments' = .ok o := by
  obtain ⟨said, graph, hsaid, hpaths, rfl⟩ := parse_eq_ok_iff.mp h
  have hsaid' : List.Forall₂ Says arguments' (heard arguments') :=
    forall₂_heard fun argument hmem => exists_says hsaid (hperm.mem_iff.mp hmem)
  refine parse_eq_ok_iff.mpr ⟨_, graph, hsaid', ?_, ?_⟩
  · rw [paths_eq hsaid] at hpaths
    rw [paths_eq hsaid']
    exact List.perm_singleton.mp (hpaths ▸ hperm.filter _)
  · rw [ofSaid_heard_eq hperm hflags, ← eq_heard hsaid]

end Position

end CheckOptions
end LayoutContract
