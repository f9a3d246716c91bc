import LayoutContract.Proofs.ExitStatus
import LayoutContract.Proofs.ParsedArguments
import Mathlib.Data.List.Sort

/-!
Names that are allowed by arguments. They are read on their own: without these arguments the
others lead to the same refusal or to options that differ in the names alone. The names become
members of a set, so neither their order nor their number can be told from what a check does.
-/
namespace LayoutContract

namespace NameSet

/-- Sets with the same members are equal. -/
theorem eq_of_mem_iff {s t : NameSet} (h : ∀ name, name ∈ s ↔ name ∈ t) : s = t := by
  have hlist : s.toList = t.toList := s.ascending.eq_of_mem_iff t.ascending h
  cases s
  cases t
  simpa using hlist

theorem insertAll_congr {names names' : List String} (h : ∀ name, name ∈ names' ↔ name ∈ names)
    (s : NameSet) : s.insertAll names' = s.insertAll names :=
  eq_of_mem_iff fun name => by rw [mem_insertAll, mem_insertAll, h]

end NameSet

namespace CheckOptions

open CheckArgument

/-- The options with these names in place of the allowed ones. -/
def allows (o : CheckOptions) (names : List String) : CheckOptions := { o with allow := names }

def Draft.allows (d : Draft) (names : List String) : Draft :=
  { d with options := d.options.allows names }

/-- The names that are allowed, in the order of the arguments. -/
def allowedNames (arguments : List String) : List String :=
  arguments.filterMap (valueOf? "--allow=")

def otherArguments (arguments : List String) : List String :=
  arguments.filter (¬ HasFlag "--allow=" ·)

variable {arguments arguments' : List String} {argument : String}

theorem addText_allow (d : Draft) (names : List String) (name : String) :
    (d.allows names).addText ("--allow=" ++ name) = .ok (d.allows (names ++ [name])) := by
  rw [Draft.addText, (Says.allow name).read]
  rfl

theorem addText_allows (h : ¬ HasFlag "--allow=" argument) (d : Draft) (names : List String) :
    (d.allows names).addText argument = (d.addText argument).map (·.allows names) := by
  unfold Draft.addText
  cases hread : read argument with
  | error r => rfl
  | ok a =>
    cases a with
    | allow name => exact absurd ((read_eq_ok_iff.mp hread).hasFlag rfl) h
    | graph path =>
      simp only [Except.bind, Draft.add, Draft.allows]
      cases d.graph? <;> rfl
    | _ => rfl

/-- The allowed names can be read apart from the other arguments. -/
theorem foldlM_addText_allows (arguments : List String) (d : Draft) (names : List String) :
    arguments.foldlM Draft.addText (d.allows names) =
      ((otherArguments arguments).foldlM Draft.addText d).map
        (·.allows (names ++ allowedNames arguments)) := by
  induction arguments generalizing d names with
  | nil => simp [otherArguments, allowedNames, pure, Except.pure, Except.map]
  | cons argument arguments ih =>
    rw [List.foldlM_cons]
    by_cases hflag : HasFlag "--allow=" argument
    · -- Names read so far are part of the draft, so the induction is for all of them.
      obtain ⟨name, rfl⟩ := exists_eq_of_hasFlag hflag
      have hothers : otherArguments (("--allow=" ++ name) :: arguments) =
          otherArguments arguments := List.filter_cons_of_neg (by simpa using hflag)
      have hnames : allowedNames (("--allow=" ++ name) :: arguments) =
          name :: allowedNames arguments := List.filterMap_cons_some (valueOf?_append _ _)
      have hread := ih d (names ++ [name])
      rw [List.append_assoc, List.singleton_append] at hread
      rw [addText_allow, hothers, hnames]
      exact hread
    · have hothers : otherArguments (argument :: arguments) =
          argument :: otherArguments arguments := List.filter_cons_of_pos (by simpa using hflag)
      have hnames : allowedNames (argument :: arguments) = allowedNames arguments :=
        List.filterMap_cons_none (valueOf?_eq_none_iff.mpr hflag)
      rw [addText_allows hflag, hothers, hnames, List.foldlM_cons]
      cases d.addText argument with
      | error r => rfl
      | ok next => exact ih next names

theorem parse_eq_map (arguments : List String) : parse arguments =
    (parse (otherArguments arguments)).map (·.allows (allowedNames arguments)) := by
  have hfinish (d : Draft) (names : List String) :
      (d.allows names).finish = d.finish.map (·.allows names) := by
    simp only [Draft.finish, Draft.allows]
    cases d.graph? <;> rfl
  have hread := foldlM_addText_allows arguments {} []
  rw [List.nil_append] at hread
  rw [parse, parse]
  refine (congrArg (·.bind Draft.finish) hread).trans ?_
  cases (otherArguments arguments).foldlM Draft.addText {} with
  | error r => rfl
  | ok d => exact hfinish d _

theorem mem_allowedNames {name : String} :
    name ∈ allowedNames arguments ↔ "--allow=" ++ name ∈ arguments := by
  simp only [allowedNames, List.mem_filterMap, valueOf?_eq_some_iff]
  simp

/-- The same arguments but for the order, the number and the place of those that allow a name. -/
structure AllowAlike (arguments arguments' : List String) : Prop where
  others : otherArguments arguments' = otherArguments arguments
  allowed : ∀ name, "--allow=" ++ name ∈ arguments' ↔ "--allow=" ++ name ∈ arguments

variable {o : CheckOptions} {names names' : List String}

theorem configOf_allows (h : ∀ name, name ∈ names' ↔ name ∈ names)
    (file : Option (String × String)) :
    (o.allows names').configOf file = (o.allows names).configOf file := by
  have hallowing (c : Config) : c.allowing names' = c.allowing names := by
    rw [Config.allowing, NameSet.insertAll_congr h, Config.allowing]
  rcases file with _ | ⟨path, text⟩
  · exact congrArg Except.ok (hallowing {})
  · simp only [configOf, allows, hallowing]

end CheckOptions

namespace CommandLine

open CheckOptions

/-- The configuration of a check, from the file that its options name if there is one. -/
def loadConfig (files : Files) (o : CheckOptions) : Except Refusal Config :=
  (Id.run (readConfig (fun path => pure (files path)) o)).bind o.configOf

variable {arguments arguments' : List String} {o : CheckOptions} {names names' : List String}

theorem loadConfig_allows (h : ∀ name, name ∈ names' ↔ name ∈ names) (files : Files) :
    loadConfig files (o.allows names') = loadConfig files (o.allows names) := by
  have hfile : readConfig (m := Id) (fun path => pure (files path)) (o.allows names') =
      readConfig (fun path => pure (files path)) (o.allows names) := rfl
  rw [loadConfig, loadConfig, hfile]
  exact congrArg _ (funext (configOf_allows h))

theorem checkOutcome_allows (h : ∀ name, name ∈ names' ↔ name ∈ names) (isTerminal : Bool)
    (graph : String) (file : Option (String × String)) :
    checkOutcome (o.allows names') ((o.allows names').check isTerminal graph file) =
      checkOutcome (o.allows names) ((o.allows names).check isTerminal graph file) := by
  unfold CheckOptions.check
  rw [configOf_allows h]
  rfl

theorem allowedNames_of_allowAlike (h : AllowAlike arguments arguments') (name : String) :
    name ∈ allowedNames arguments' ↔ name ∈ allowedNames arguments := by
  rw [mem_allowedNames, mem_allowedNames, h.allowed]

theorem loadConfig_of_allowAlike (h : AllowAlike arguments arguments') (files : Files) :
    (parse arguments').bind (loadConfig files) = (parse arguments).bind (loadConfig files) := by
  rw [parse_eq_map arguments', parse_eq_map arguments, h.others]
  cases parse (otherArguments arguments) with
  | error r => rfl
  | ok o => exact loadConfig_allows (allowedNames_of_allowAlike h) files

theorem outcome_of_allowAlike (h : AllowAlike arguments arguments') (files : Files)
    (isTerminal : Bool) :
    outcome files isTerminal ("check" :: arguments') =
      outcome files isTerminal ("check" :: arguments) := by
  rw [outcome_check, outcome_check, parse_eq_map arguments', parse_eq_map arguments, h.others]
  cases parse (otherArguments arguments) with
  | error r => rfl
  | ok o =>
    simp only [Except.map, run_check, checkOutcome_allows (allowedNames_of_allowAlike h)]
    rfl

/-- The arguments of a check are read exactly, and it does not matter where they stand. They are
accepted if each of them says something and there is one graph; otherwise the first that offends
decides the refusal, and a graph is missed only when none does. Accepted arguments can be reordered
if those with the same flag keep their order; and names can be allowed in any order and more than
once without a trace in the configuration or in the outcome. -/
theorem arguments_are_read_exactly_wherever_they_stand (arguments : List String) :
    (∀ o, parse arguments = .ok o ↔
        ∃ said graph, List.Forall₂ CheckArgument.Says arguments said ∧
          said.filterMap CheckArgument.path? = [graph] ∧ o = ofSaid graph said) ∧
      (∀ r, parse arguments = .error r ↔
        IsFirstOffence arguments r ∨ (∀ i r', ¬ OffendsAt arguments i r') ∧
          (∀ argument ∈ arguments, IsDashed argument) ∧
          r = .missingArgument "type graph path") ∧
      (∀ arguments', arguments'.Perm arguments →
        (∀ flag ∈ valueFlags,
          arguments'.filter (HasFlag flag) = arguments.filter (HasFlag flag)) →
        ∀ o, parse arguments' = .ok o ↔ parse arguments = .ok o) ∧
      ∀ arguments', AllowAlike arguments arguments' → ∀ files : Files,
        (parse arguments').bind (loadConfig files) = (parse arguments).bind (loadConfig files) ∧
        ∀ isTerminal, outcome files isTerminal ("check" :: arguments') =
          outcome files isTerminal ("check" :: arguments) := by
  refine ⟨fun o => parse_eq_ok_iff, fun r => parse_eq_error_iff, ?_, ?_⟩
  · intro arguments' hperm hflags o
    constructor
    · exact parse_of_perm hperm.symm fun flag hflag => (hflags flag hflag).symm
    · exact parse_of_perm hperm hflags
  · intro arguments' halike files
    exact ⟨loadConfig_of_allowAlike halike files, outcome_of_allowAlike halike files⟩

def tagArguments : List String :=
  ["--deny-warnings", "--allow=Guid", "tag.json", "--format=json", "--allow=Money"]

/-- The path may stand first, and a name may be allowed again. -/
theorem tag_arguments_can_be_reordered :
    parse ["tag.json", "--format=json", "--allow=Guid", "--allow=Money", "--deny-warnings"] =
        .ok { graph := "tag.json", allow := ["Guid", "Money"], format := .json,
              denyWarnings := true } ∧
      outcome tagFiles false ["check", "--allow=Money", "--deny-warnings", "--allow=Money",
          "tag.json", "--allow=Guid", "--format=json"] =
        outcome tagFiles false ("check" :: tagArguments) := by
  obtain ⟨-, -, hreordered, halike⟩ := arguments_are_read_exactly_wherever_they_stand tagArguments
  have hnames : allowedNames tagArguments = ["Guid", "Money"] := by decide +kernel
  have hnames' : allowedNames ["--allow=Money", "--deny-warnings", "--allow=Money", "tag.json",
      "--allow=Guid", "--format=json"] = ["Money", "Money", "Guid"] := by
    decide +kernel
  constructor
  · exact (hreordered _ (by decide) (by decide) _).mpr (by decide +kernel)
  · refine (halike _ ⟨by decide, fun name => ?_⟩ tagFiles).2 false
    rw [← mem_allowedNames, ← mem_allowedNames, hnames, hnames']
    simp only [List.mem_cons, List.not_mem_nil, or_false, or_self_left]
    exact or_comm

end CommandLine
end LayoutContract
