/-!
Values written out by name: a variant with its argument in parentheses, a record with its fields in
braces.
-/

namespace Sm83.Text

/-- A name with one argument. -/
def variant (name argument : String) : String :=
  name ++ "(" ++ argument ++ ")"

/-- A name with labelled fields. -/
def braced (name : String) (fields : List (String × String)) : String :=
  name ++ " \x7b " ++ ", ".intercalate (fields.map fun f => f.1 ++ ": " ++ f.2) ++ " \x7d"

/-- An absent value, or a present one as an argument. -/
def optional : Option String → String
  | none => "None"
  | some text => variant "Some" text

end Sm83.Text
