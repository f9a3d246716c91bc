import LayoutContract.CommandLine.CheckOptions
import Mathlib.Data.List.Basic

/-!
The arguments of a check, told apart by the way in which they are written. An argument says
something, or it is refused wherever it stands. From what all of them say the options follow.
-/
namespace LayoutContract

/-- The flags that stand before a value. -/
def valueFlags : List String := ["--config=", "--allow=", "--format=", "--color="]

def HasFlag (flag argument : String) : Prop := flag.toList <+: argument.toList

instance (flag argument : String) : Decidable (HasFlag flag argument) :=
  inferInstanceAs (Decidable (_ <+: _))

/-- Arguments without a dash are paths of graphs, the empty one among them. -/
def IsDashed (argument : String) : Prop := HasFlag "-" argument

instance (argument : String) : Decidable (IsDashed argument) :=
  inferInstanceAs (Decidable (HasFlag _ _))

namespace CheckArgument

/-- How a check can be told something. -/
inductive Says : String → CheckArgument → Prop
  | config (path : String) : Says ("--config=" ++ path) (.config path)
  | allow (name : String) : Says ("--allow=" ++ name) (.allow name)
  | format {value : String} {format : OutputFormat}
      (h : OutputFormat.ofName? value = some format) : Says ("--format=" ++ value) (.format format)
  | color {value : String} {mode : ColorMode} (h : ColorMode.ofName? value = some mode) :
      Says ("--color=" ++ value) (.color mode)
  | denyWarnings : Says "--deny-warnings" .denyWarnings
  | graph {path : String} (h : ¬ IsDashed path) : Says path (.graph path)

/-- Arguments that say nothing, with the reason why they are refused. -/
inductive IsRefused : String → Refusal → Prop
  | format {value : String} (h : OutputFormat.ofName? value = none) :
      IsRefused ("--format=" ++ value) (.invalidValue "--format" value)
  | color {value : String} (h : ColorMode.ofName? value = none) :
      IsRefused ("--color=" ++ value) (.invalidValue "--color" value)
  | option {option : String} (hdash : IsDashed option) (hdeny : option ≠ "--deny-warnings")
      (hflag : ∀ flag ∈ valueFlags, ¬ HasFlag flag option) :
      IsRefused option (.unknownOption option)

variable {flag argument value : String} {a : CheckArgument} {r : Refusal}

theorem valueOf?_eq_some_iff : valueOf? flag argument = some value ↔ argument = flag ++ value := by
  simp only [valueOf?, Option.map_eq_some_iff, List.isPrefixOf?_eq_some_iff_append_eq]
  constructor
  · rintro ⟨rest, hrest, rfl⟩
    apply String.toList_inj.mp
    rw [← hrest, String.toList_append, String.toList_ofList]
  · rintro rfl
    exact ⟨value.toList, by rw [String.toList_append], String.ofList_toList⟩

theorem valueOf?_eq_none_iff : valueOf? flag argument = none ↔ ¬ HasFlag flag argument := by
  rw [valueOf?, Option.map_eq_none_iff, ← Option.not_isSome_iff_eq_none,
    List.isSome_isPrefixOf?_eq_isPrefixOf, List.isPrefixOf_iff_prefix]
  rfl

@[simp]
theorem valueOf?_append (flag value : String) : valueOf? flag (flag ++ value) = some value :=
  valueOf?_eq_some_iff.mpr rfl

theorem hasFlag_append (flag value : String) : HasFlag flag (flag ++ value) :=
  ⟨value.toList, (String.toList_append ..).symm⟩

theorem exists_eq_of_hasFlag (h : HasFlag flag argument) : ∃ value, argument = flag ++ value := by
  obtain ⟨rest, hrest⟩ := h
  refine ⟨String.ofList rest, ?_⟩
  apply String.toList_inj.mp
  rw [String.toList_append, String.toList_ofList, hrest]

theorem isDashed_of_hasFlag (hflag : flag ∈ valueFlags) (h : HasFlag flag argument) :
    IsDashed argument := by
  have hdash : ∀ flag ∈ valueFlags, "-".toList <+: flag.toList := by decide
  exact (hdash flag hflag).trans h

/-- No flag is the beginning of another. -/
theorem eq_of_hasFlag {flag' : String} (hflag : flag ∈ valueFlags) (hflag' : flag' ∈ valueFlags)
    (h : HasFlag flag argument) (h' : HasFlag flag' argument) : flag = flag' := by
  have hapart : ∀ flag ∈ valueFlags, ∀ flag' ∈ valueFlags,
      flag.toList <+: flag'.toList → flag = flag' := by decide
  rcases List.prefix_or_prefix_of_prefix h h' with hprefix | hprefix
  · exact hapart flag hflag flag' hflag' hprefix
  · exact (hapart flag' hflag' flag hflag hprefix).symm

theorem valueOf?_append_of_ne {flag' : String} (hflag : flag ∈ valueFlags)
    (hflag' : flag' ∈ valueFlags) (hne : flag ≠ flag') (value : String) :
    valueOf? flag (flag' ++ value) = none :=
  valueOf?_eq_none_iff.mpr fun h =>
    hne (eq_of_hasFlag hflag hflag' h (hasFlag_append flag' value))

theorem read_format (value : String) : read ("--format=" ++ value) =
    valued "--format" value (OutputFormat.ofName? value) .format := by
  rw [read, valueOf?_append_of_ne (by decide) (by decide) (by decide),
    valueOf?_append_of_ne (by decide) (by decide) (by decide), valueOf?_append]

theorem read_color (value : String) : read ("--color=" ++ value) =
    valued "--color" value (ColorMode.ofName? value) .color := by
  rw [read, valueOf?_append_of_ne (by decide) (by decide) (by decide),
    valueOf?_append_of_ne (by decide) (by decide) (by decide),
    valueOf?_append_of_ne (by decide) (by decide) (by decide), valueOf?_append]

/-- Where no value is given, the whole argument counts. -/
theorem read_of_no_flag (h : ∀ flag ∈ valueFlags, ¬ HasFlag flag argument) : read argument =
    if argument = "--deny-warnings" then .ok .denyWarnings
    else if IsDashed argument then .error (.unknownOption argument)
    else .ok (.graph argument) := by
  have hdash : (valueOf? "-" argument).isSome = true ↔ IsDashed argument := by
    rw [← Option.ne_none_iff_isSome, Ne, valueOf?_eq_none_iff, Decidable.not_not, IsDashed]
  rw [read, valueOf?_eq_none_iff.mpr (h _ (by decide)), valueOf?_eq_none_iff.mpr (h _ (by decide)),
    valueOf?_eq_none_iff.mpr (h _ (by decide)), valueOf?_eq_none_iff.mpr (h _ (by decide))]
  simp only [hdash]

theorem Says.read (h : Says argument a) : read argument = .ok a := by
  cases h with
  | config path => rw [CheckArgument.read, valueOf?_append]
  | allow name =>
    rw [CheckArgument.read, valueOf?_append_of_ne (by decide) (by decide) (by decide),
      valueOf?_append]
  | format h => rw [read_format, h, valued]
  | color h => rw [read_color, h, valued]
  | denyWarnings => exact read_of_no_flag (by decide)
  | graph h =>
    have hdeny : argument ≠ "--deny-warnings" := by
      rintro rfl
      exact h (by decide)
    rw [read_of_no_flag fun flag hflag hhas => h (isDashed_of_hasFlag hflag hhas), if_neg hdeny,
      if_neg h]

theorem IsRefused.read (h : IsRefused argument r) : read argument = .error r := by
  cases h with
  | format h => rw [read_format, h, valued]
  | color h => rw [read_color, h, valued]
  | option hdash hdeny hflag => rw [read_of_no_flag hflag, if_neg hdeny, if_pos hdash]

theorem Says.eq {a' : CheckArgument} (h : Says argument a) (h' : Says argument a') : a = a' :=
  Except.ok.inj (h.read.symm.trans h'.read)

theorem IsRefused.eq {r' : Refusal} (h : IsRefused argument r) (h' : IsRefused argument r') :
    r = r' :=
  Except.error.inj (h.read.symm.trans h'.read)

theorem Says.not_isRefused (h : Says argument a) : ¬ IsRefused argument r := fun h' =>
  nomatch h.read.symm.trans h'.read

/-- An argument that is not refused says something. -/
theorem says_or_isRefused (argument : String) :
    (∃ a, Says argument a) ∨ ∃ r, IsRefused argument r := by
  by_cases hflag : ∃ flag ∈ valueFlags, HasFlag flag argument
  · obtain ⟨flag, hflag, hhas⟩ := hflag
    obtain ⟨value, rfl⟩ := exists_eq_of_hasFlag hhas
    simp only [valueFlags, List.mem_cons, List.not_mem_nil, or_false] at hflag
    rcases hflag with rfl | rfl | rfl | rfl
    · exact .inl ⟨_, .config _⟩
    · exact .inl ⟨_, .allow _⟩
    · cases h : OutputFormat.ofName? value with
      | none => exact .inr ⟨_, .format h⟩
      | some format => exact .inl ⟨_, .format h⟩
    · cases h : ColorMode.ofName? value with
      | none => exact .inr ⟨_, .color h⟩
      | some mode => exact .inl ⟨_, .color h⟩
  · by_cases hdash : IsDashed argument
    · by_cases hdeny : argument = "--deny-warnings"
      · exact .inl ⟨.denyWarnings, hdeny ▸ .denyWarnings⟩
      · exact .inr ⟨_, .option hdash hdeny (by simpa using hflag)⟩
    · exact .inl ⟨_, .graph hdash⟩

theorem read_eq_ok_iff : read argument = .ok a ↔ Says argument a := by
  refine ⟨fun h => ?_, Says.read⟩
  rcases says_or_isRefused argument with ⟨a', ha'⟩ | ⟨r, hr⟩
  · obtain rfl := Except.ok.inj (ha'.read.symm.trans h)
    exact ha'
  · exact nomatch hr.read.symm.trans h

theorem read_eq_error_iff : read argument = .error r ↔ IsRefused argument r := by
  refine ⟨fun h => ?_, IsRefused.read⟩
  rcases says_or_isRefused argument with ⟨a, ha⟩ | ⟨r', hr'⟩
  · exact nomatch ha.read.symm.trans h
  · obtain rfl := Except.error.inj (hr'.read.symm.trans h)
    exact hr'

end CheckArgument
end LayoutContract
