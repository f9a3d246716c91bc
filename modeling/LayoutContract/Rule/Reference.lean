import LayoutContract.Rule

/-!
The reference of the rules: a page of documentation for each, and a table of all of them.
-/
namespace LayoutContract.Rule

/-- The lines of the page that explains a rule. -/
def pageLines : Rule → List String
  | typeMustBeAnnotated =>
    [ "# E0001: Type Must Be Annotated",
      "",
      "A formattable type reaches another type that is neither a built-in scalar,",
      "an enum, an allowed external type, a recognized generic shape, nor itself",
      "annotated as formattable.",
      "",
      "## Example",
      "",
      "```csharp",
      "[ZeroFormattable]",
      "public class Person",
      "\x7b",
      "    [Index(0)]",
      "    public virtual Address Home \x7b get; set; \x7d",
      "\x7d",
      "",
      "public class Address \x7b \x7d",
      "```",
      "",
      "`Address` is reached through `Person.Home` but carries no annotation.",
      "",
      "## Solution",
      "",
      "Annotate the reached type:",
      "",
      "```csharp",
      "[ZeroFormattable]",
      "public class Address \x7b \x7d",
      "```",
      "",
      "If the type is serialized by a custom formatter, add its name to",
      "`additional_allowed_type_names` in the checker configuration instead." ]
  | typeNeedsDefaultConstructor =>
    [ "# E0002: Type Needs Default Constructor",
      "",
      "A formattable reference type must be constructible without arguments so the",
      "deserializer can create an instance before filling its properties.",
      "",
      "## Example",
      "",
      "```csharp",
      "[ZeroFormattable]",
      "public class Person",
      "\x7b",
      "    public Person(string name) \x7b \x7d",
      "\x7d",
      "```",
      "",
      "## Solution",
      "",
      "Add a parameterless constructor:",
      "",
      "```csharp",
      "[ZeroFormattable]",
      "public class Person",
      "\x7b",
      "    public Person() \x7b \x7d",
      "    public Person(string name) \x7b \x7d",
      "\x7d",
      "```",
      "",
      "Value types are exempt from this rule; see E2002 for their constructor",
      "requirement." ]
  | memberNeedsIndex =>
    [ "# E1001: Member Needs Index",
      "",
      "Every public property or field of a formattable type must either carry an",
      "index annotation with a value or be explicitly ignored.",
      "",
      "## Example",
      "",
      "```csharp",
      "[ZeroFormattable]",
      "public class Person",
      "\x7b",
      "    public virtual int Age \x7b get; set; \x7d",
      "\x7d",
      "```",
      "",
      "An index annotation without an argument (`[Index]`) is reported the same way.",
      "",
      "## Solution",
      "",
      "```csharp",
      "[Index(0)]",
      "public virtual int Age \x7b get; set; \x7d",
      "",
      "[IgnoreFormat]",
      "public virtual string Cache \x7b get; set; \x7d",
      "```" ]
  | duplicateIndex =>
    [ "# E1002: Duplicate Index",
      "",
      "Two members of the same type use the same index. Indices identify members in",
      "the binary layout, so each may be used only once per type.",
      "",
      "## Example",
      "",
      "```csharp",
      "[ZeroFormattable]",
      "public class Person",
      "\x7b",
      "    [Index(0)] public virtual int Age \x7b get; set; \x7d",
      "    [Index(0)] public virtual string Name \x7b get; set; \x7d",
      "\x7d",
      "```",
      "",
      "The second member is reported; the first keeps the index.",
      "",
      "## Solution",
      "",
      "Give every member its own index." ]
  | memberNeedsPublicAccessors =>
    [ "# E1003: Member Needs Public Accessors",
      "",
      "A property of a formattable reference type must have both a getter and a",
      "setter, and neither may be private. The generated formatter reads and writes",
      "the property through them.",
      "",
      "## Example",
      "",
      "```csharp",
      "[Index(0)]",
      "public virtual int Age \x7b get; private set; \x7d",
      "```",
      "",
      "## Solution",
      "",
      "```csharp",
      "[Index(0)]",
      "public virtual int Age \x7b get; set; \x7d",
      "```",
      "",
      "Protected and internal accessors are accepted." ]
  | memberMustBeOverridable =>
    [ "# E1004: Member Must Be Overridable",
      "",
      "Properties of formattable reference types are overridden by the generated",
      "lazy wrapper, so they must be virtual.",
      "",
      "## Example",
      "",
      "```csharp",
      "[Index(0)]",
      "public int Age \x7b get; set; \x7d",
      "```",
      "",
      "## Solution",
      "",
      "```csharp",
      "[Index(0)]",
      "public virtual int Age \x7b get; set; \x7d",
      "```",
      "",
      "Properties of value types are not required to be virtual." ]
  | fieldNotAllowedOnReferenceType =>
    [ "# E1005: Field Not Allowed On Reference Type",
      "",
      "Public fields cannot be intercepted by the generated wrapper, so formattable",
      "reference types may only expose properties.",
      "",
      "## Example",
      "",
      "```csharp",
      "[ZeroFormattable]",
      "public class Person",
      "\x7b",
      "    [Index(0)] public int Age;",
      "\x7d",
      "```",
      "",
      "## Solution",
      "",
      "Turn the field into a virtual property, or declare the type as a struct,",
      "where public fields are allowed." ]
  | indicesMustBeSequential =>
    [ "# E2001: Value Type Indices Must Be Sequential",
      "",
      "The indices of a formattable value type must be exactly 0, 1, 2, ... with no",
      "gaps. Value types are written as a fixed positional layout.",
      "",
      "## Example",
      "",
      "```csharp",
      "[ZeroFormattable]",
      "public struct Point",
      "\x7b",
      "    [Index(0)] public int X;",
      "    [Index(2)] public int Y;",
      "\x7d",
      "```",
      "",
      "The first out-of-place index (here `2`, found where `1` was expected) is",
      "reported.",
      "",
      "## Solution",
      "",
      "Renumber the members so the indices are sequential from zero." ]
  | layoutNeedsMatchingConstructor =>
    [ "# E2002: Value Type Needs Matching Constructor",
      "",
      "A formattable value type needs a constructor whose parameter types are the",
      "types of its indexed members, in index order. The deserializer builds the",
      "value by calling it.",
      "",
      "## Example",
      "",
      "```csharp",
      "[ZeroFormattable]",
      "public struct Point",
      "\x7b",
      "    [Index(0)] public int X;",
      "    [Index(1)] public string Label;",
      "",
      "    public Point(string label, int x) \x7b ... \x7d",
      "\x7d",
      "```",
      "",
      "The parameters are in the wrong order.",
      "",
      "## Solution",
      "",
      "```csharp",
      "public Point(int x, string label) \x7b ... \x7d",
      "```",
      "",
      "Parameter names do not matter, only their types and order." ]
  | indexTooLarge =>
    [ "# W1001: Index Is Too Large",
      "",
      "An index of 100 or more is legal, but the binary layout reserves room for",
      "every index up to the highest one used, so large indices waste space.",
      "",
      "## Example",
      "",
      "```csharp",
      "[Index(150)]",
      "public virtual int Age \x7b get; set; \x7d",
      "```",
      "",
      "## Solution",
      "",
      "Use small, dense indices. The threshold can be changed with",
      "`index_warning_threshold` in the checker configuration." ]

def explanation (r : Rule) : String := String.join (r.pageLines.map (· ++ "\n"))

def padRight (width : Nat) (s : String) : String :=
  s ++ String.ofList (List.replicate (width - s.length) ' ')

def kindWidth : Nat := (all.map (·.kind.length)).foldl max 0

def tableLine (r : Rule) : String :=
  r.code ++ "  " ++ padRight 7 r.severity.name ++ "  " ++ padRight kindWidth r.kind ++ "  " ++
    r.title ++ "\n"

/-- A line for each rule: code, severity, kind and title. -/
def table : String := String.join (all.map tableLine)

end LayoutContract.Rule
