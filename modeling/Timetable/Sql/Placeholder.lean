/-!
# Placeholders in statements

A placeholder stands for a parameter that is sent beside the text of a statement: a question mark
for the next parameter, or a dollar sign and the number of the parameter.
-/

namespace Timetable.Sql

/-- How a placeholder says which parameter it stands for. -/
inductive PlaceholderStyle
  | question
  | dollar
deriving DecidableEq, Repr

/-- The placeholder of the parameter with a number. -/
def placeholder : PlaceholderStyle → UInt64 → String
  | .question, _ => "?"
  | .dollar, n => "$" ++ toString n.toNat

/-- The numbers of some consecutive parameters. -/
def parameterNumbers (count : Nat) (first : UInt64) : List UInt64 :=
  (List.range count).map fun i => first + UInt64.ofNat i

/-- The placeholders of some consecutive parameters, separated by commas. -/
def placeholders (style : PlaceholderStyle) (count : Nat) (first : UInt64) : String :=
  ",".intercalate ((parameterNumbers count first).map (placeholder style))

end Timetable.Sql
