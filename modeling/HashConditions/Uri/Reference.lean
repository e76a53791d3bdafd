import HashConditions.Uri.Authority
import HashConditions.Uri.Percent

/-!
# URI references

A text is split into scheme, authority, path, query and fragment by the first characters that
separate them; every text can be split. A fragment ends with its line, and what follows it is
not part of the reference.

Normalizing a reference lowers the case of the scheme, encodes path, query and fragment, resolves
the dot segments of the path, and takes the authority apart and puts it together again. A scheme,
an authority or a path that is empty then counts as absent; an empty query or fragment does not.

Both follow rfc3986 2.0.0, the library through which the URIs of conditions are read, also where it
departs from the standard it is named after: the end of a fragment, and authorities that vanish
(`HashConditions.Uri.Authority`), are among its rules.
-/

namespace HashConditions

namespace Uri

/-- The components of a reference, as they stand in the text. -/
structure Reference where
  scheme : Option (List Char)
  authority : Option (List Char)
  path : List Char
  query : Option (List Char)
  fragment : Option (List Char)

/-! ### Splitting -/

/-- Whether a scheme may go on with a character. -/
def isSchemeChar (c : Char) : Bool :=
  c.isAlphanum || c == '+' || c == '.' || c == '-'

/-- The scheme at the start of a text, and what follows it and its colon. -/
def splitScheme (text : List Char) : Option (List Char) × List Char :=
  let name := text.takeWhile isSchemeChar
  let tail := text.drop name.length
  if name.head?.any Char.isAlpha && tail.head? == some ':' then (some name, tail.drop 1)
  else (none, text)

/-- The authority behind two slashes at the start of a text, and what follows it. -/
def splitAuthority (text : List Char) : Option (List Char) × List Char :=
  match text with
  | '/' :: '/' :: rest =>
    let authority := rest.takeWhile fun c => c != '\\' && c != '/' && c != '?' && c != '#'
    (some authority, rest.drop authority.length)
  | _ => (none, text)

/-- What stands behind a mark at the start of a text, up to the given end, and what follows. -/
def splitMarked (mark : Char) (inside : Char → Bool) (text : List Char) :
    Option (List Char) × List Char :=
  match text with
  | [] => (none, [])
  | c :: rest =>
    if c = mark then
      let part := rest.takeWhile inside
      (some part, rest.drop part.length)
    else (none, text)

/-- The components of a text. -/
def split (text : List Char) : Reference :=
  let (scheme, text) := splitScheme text
  let (authority, text) := splitAuthority text
  let path := text.takeWhile fun c => c != '?' && c != '#'
  let (query, text) := splitMarked '?' (· != '#') (text.drop path.length)
  let (fragment, _) := splitMarked '#' (· != '\n') text
  ⟨scheme, authority, path, query, fragment⟩

/-! ### Normalizing -/

/-- The segments that are left when each segment `.` is dropped and each segment `..` takes the
segment before it along. The segments in hand are in reverse order. -/
def resolveSegments (kept : List (List Char)) : List (List Char) → List (List Char)
  | [] => kept.reverse
  | segment :: segments =>
    if segment = ['.'] then resolveSegments kept segments
    else if segment = ['.', '.'] then resolveSegments kept.tail segments
    else resolveSegments (segment :: kept) segments

/-- Whether a path ends in a dot segment. -/
def endsInDots (path : List Char) : Bool :=
  ['/', '.'].isSuffixOf path || ['/', '.', '.'].isSuffixOf path

/-- A path without dot segments. A path that began with a slash still does, and one that ended in
a dot segment ends in a slash. -/
def removeDotSegments (path : List Char) : List Char :=
  let segments := resolveSegments [] (path.splitOn '/')
  let rooted :=
    if path.head? = some '/' ∧ segments.head?.all (· ≠ []) then [] :: segments else segments
  let closed := if endsInDots path then rooted ++ [[]] else rooted
  ['/'].intercalate closed

/-- The components of a normalized reference; of the authority it only matters whether there is
one. -/
structure Normalized where
  scheme : Option (List Char)
  hasAuthority : Bool
  path : Option (List Char)
  query : Option (List Char)
  fragment : Option (List Char)

/-- A component that counts as absent if it is empty. -/
def nonempty? (text : List Char) : Option (List Char) :=
  if text.isEmpty then none else some text

/-- A path in normal form. -/
def normalizePath (path : List Char) : List Char :=
  removeDotSegments (Percent.capitalize (Percent.encode path))

/-- A reference in normal form. -/
def Reference.normalize (r : Reference) : Normalized where
  scheme := (r.scheme.bind nonempty?).map (·.map Char.toLower)
  hasAuthority := r.authority.any Authority.survives
  path := nonempty? (normalizePath r.path)
  query := r.query.map fun query => Percent.capitalize (Percent.encode query)
  fragment := r.fragment.map Percent.encode

end Uri

end HashConditions
