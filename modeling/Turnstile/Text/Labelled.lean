/-!
One-line texts of records: a name and its labelled fields, as in
`Span { start: 1, stop: 2 }`.
-/

namespace Turnstile.Text

def labelled (name : String) (fields : List (String × String)) : String :=
  name ++ " \x7b " ++
    String.intercalate ", " (fields.map fun field => field.1 ++ ": " ++ field.2) ++ " \x7d"

def lines (rows : List String) : String := String.intercalate "\n" rows

end Turnstile.Text
