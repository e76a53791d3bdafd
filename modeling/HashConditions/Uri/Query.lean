import HashConditions.Failure.UriFault
import HashConditions.Uri.Percent

/-!
# Query parameters

A query is a list of fields between ampersands. A field is a name and a value with an equals sign
between them; the first one counts. Names and values are decoded after the split, so an encoded
separator is part of a name or a value. No two fields may have the same name.
-/

namespace HashConditions

namespace Uri

/-- A parameter: its name and its value. -/
abbrev Parameter := List Char × List Char

/-- The parameter of a field, which needs an equals sign. -/
def parameter (field : List Char) : Except UriFault Parameter :=
  let name := field.takeWhile (· != '=')
  let tail := field.drop name.length
  if tail.isEmpty then .error (.queryField (String.ofList field))
  else .ok (Percent.decode name, Percent.decode (tail.drop 1))

/-- The fields of a query; the empty query has none. -/
def fields (query : List Char) : List (List Char) :=
  if query.isEmpty then [] else query.splitOn '&'

/-- The first name in a list of parameters that an earlier one has as well. -/
def firstRepeated (seen : List (List Char)) : List Parameter → Option (List Char)
  | [] => none
  | (name, _) :: rest =>
    if seen.contains name then some name else firstRepeated (name :: seen) rest

/-- The parameters of a query. -/
def parameters (query : List Char) : Except UriFault (List Parameter) :=
  match (fields query).mapM parameter with
  | .error fault => .error fault
  | .ok all =>
    match firstRepeated [] all with
    | some name => .error (.duplicate (String.ofList name))
    | none => .ok all

end Uri

end HashConditions
