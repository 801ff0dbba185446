import Outpost.Text

/-!
# Header fields

Fields in order; names are in lower case, and a name may come several times.
-/

namespace Outpost.Http

abbrev Headers := List (String × Bytes)

namespace Headers

def values (headers : Headers) (name : String) : List Bytes :=
  (headers.filter fun field => field.1 == name).map (·.2)

def first? (headers : Headers) (name : String) : Option Bytes := (headers.values name).head?

def has (headers : Headers) (name : String) : Bool := headers.any fun field => field.1 == name

def remove (headers : Headers) (name : String) : Headers :=
  headers.filter fun field => field.1 ≠ name

def append (headers : Headers) (name : String) (value : Bytes) : Headers :=
  List.append headers [(name, value)]

def insert (headers : Headers) (name : String) (value : Bytes) : Headers :=
  (headers.remove name).append name value

def ofList (fields : List (String × Bytes)) : Headers :=
  fields.map fun (name, value) => (Text.asciiLower name, value)

/-- A value made of visible ASCII, blanks and tabs, as text. -/
def text? (value : Bytes) : Option String :=
  if value.all fun byte => (0x20 ≤ byte && byte < 0x7F) || byte = 0x09 then Bytes.text? value
  else none

def firstText? (headers : Headers) (name : String) : Option String :=
  (headers.first? name).bind text?

end Headers

end Outpost.Http
