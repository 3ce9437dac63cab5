/-!
# Shapes of printed values

The few shapes every printed value is built from: a record with named fields, a constructor
around one value, a list, and an optional value. They take the texts of their parts, so each type
decides on its own which fields it shows.
-/

namespace Recycler.Text

/-- A record: its name, then `field: value` pairs between braces. -/
def record (name : String) (fields : List (String × String)) : String :=
  let pairs := fields.map fun field => field.1 ++ ": " ++ field.2
  name ++ " \x7b " ++ ", ".intercalate pairs ++ " \x7d"

/-- A constructor around one value. -/
def wrapped (name value : String) : String :=
  name ++ "(" ++ value ++ ")"

/-- A list in brackets. -/
def list (values : List String) : String :=
  "[" ++ ", ".intercalate values ++ "]"

/-- A map: key and value separated by a colon, between braces without padding. -/
def map (entries : List (String × String)) : String :=
  "\x7b" ++ ", ".intercalate (entries.map fun entry => entry.1 ++ ": " ++ entry.2) ++ "\x7d"

/-- An optional value. -/
def option : Option String → String
  | none => "None"
  | some value => wrapped "Some" value

/-- A truth value. -/
def bool (b : Bool) : String :=
  if b then "true" else "false"

/-- An integer in decimal, with a sign only if it is negative. -/
def int (n : Int) : String :=
  match n with
  | .ofNat k => String.ofList (Nat.toDigits 10 k)
  | .negSucc k => String.ofList ('-' :: Nat.toDigits 10 (k + 1))

/-- A natural number in decimal. -/
def nat (n : Nat) : String :=
  String.ofList (Nat.toDigits 10 n)

end Recycler.Text
