/-!
# Identifiers of resources

A resource identifier is cut into scheme, authority, path, query and fragment. Every text can be cut
so, except that a fragment holds no line feed. An identifier names something if it has a scheme or
a path.
-/

namespace AssetShell

structure UriParts where
  scheme : Option (List Char)
  authority : Option (List Char)
  path : List Char
  query : Option (List Char)
  fragment : Option (List Char)
  deriving DecidableEq, Repr

namespace UriParts

def isSchemeChar (c : Char) : Bool := c.isAlphanum || c = '+' || c = '.' || c = '-'

/-- A scheme starts with a letter and ends before the first colon. -/
def schemeThen (cs : List Char) : Option (List Char) × List Char :=
  match cs.span isSchemeChar with
  | (c :: scheme, ':' :: r) => if c.isAlpha then (some (c :: scheme), r) else (none, cs)
  | _ => (none, cs)

def authorityThen : List Char → Option (List Char) × List Char
  | '/' :: '/' :: r => let (authority, r) := r.span (· ≠ '/'); (some authority, r)
  | r => (none, r)

/-- The part before the first `c`, and the part behind it if there is one. -/
def cutAt (c : Char) (cs : List Char) : List Char × Option (List Char) :=
  match cs.span (· ≠ c) with
  | (before, []) => (before, none)
  | (before, _ :: behind) => (before, some behind)

def ofChars? (cs : List Char) : Option UriParts :=
  let (r, fragment) := cutAt '#' cs
  let (r, query) := cutAt '?' r
  let (scheme, r) := schemeThen r
  let (authority, path) := authorityThen r
  if fragment.any (·.contains '\n') then none
  else some ⟨scheme, authority, path, query, fragment⟩

def namesSomething (u : UriParts) : Bool := u.scheme.isSome || !u.path.isEmpty

end UriParts

end AssetShell
