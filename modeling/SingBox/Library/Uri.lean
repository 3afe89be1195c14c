import Mathlib.Data.List.DropRight
import Mathlib.Algebra.Order.Group.Nat
import Mathlib.Data.List.Basic

namespace SingBox.Library.Uri

-- References to what is served by `http` and `https`, and what they stand for where they are
-- found: the generic syntax of URIs, and its rules for resolving a reference.

abbrev Segment := List Char

def rooted (segments : List Segment) : List Char := segments.flatMap ('/' :: ·)

def marked (mark : Char) (part : Option (List Char)) : List Char := part.elim [] (mark :: ·)

-- A host that is an address of its own kind stands between brackets. With `http` and `https` no
-- user is named in front of the host.
structure Authority where
  bracketed : Bool
  host : List Char
  port : Option (List Char)

inductive Path where
  | rooted (segments : List Segment)
  | relative (first : Segment) (others : List Segment)

structure Reference where
  scheme : Option (List Char)
  authority : Option Authority
  path : Path
  query : Option (List Char)
  fragment : Option (List Char)

def Authority.text (authority : Authority) : List Char :=
  (if authority.bracketed then '[' :: (authority.host ++ [']']) else authority.host) ++
    marked ':' authority.port

namespace Path

def segments : Path → List Segment
  | rooted segments => segments
  | relative first others => first :: others

def text : Path → List Char
  | rooted segments => Uri.rooted segments
  | relative first others => first ++ Uri.rooted others

end Path

-- A reference without its fragment.
def Reference.front (reference : Reference) : List Char :=
  reference.scheme.elim [] (· ++ [':']) ++
    (reference.authority.elim [] (fun authority => '/' :: '/' :: authority.text) ++
      (reference.path.text ++ marked '?' reference.query))

def Reference.text (reference : Reference) : List Char :=
  reference.front ++ marked '#' reference.fragment

-- The characters at which a part of a reference ends, and those that no reference has.
def delimiters : List Char := ['/', '?', '#']
def blanks : List Char := [' ', '\r', '\n']

structure Authority.Valid (authority : Authority) : Prop where
  host : authority.host ≠ []
  chars : ∀ char ∈ authority.host, char ∉ delimiters ∧ char ∉ blanks ∧ char ∉ ['@', '[', ']']
  name : authority.bracketed = false → ':' ∉ authority.host
  port : ∀ port ∈ authority.port, ∀ char ∈ port, char.isDigit = true

-- A scheme is never without an authority, and behind an authority the path is a rooted one. What
-- begins with two slashes has an authority, and what begins with a colon in its first segment has
-- a scheme.
structure Reference.Valid (reference : Reference) : Prop where
  scheme : ∀ scheme ∈ reference.scheme, reference.authority ≠ none ∧
    (scheme.map Char.toLower = "http".toList ∨ scheme.map Char.toLower = "https".toList)
  authority : ∀ authority ∈ reference.authority, authority.Valid ∧
    ∃ segments, reference.path = .rooted segments
  segments : ∀ segment ∈ reference.path.segments, ∀ char ∈ segment, char ∉ delimiters ∧ char ∉ blanks
  absolute : ∀ others, reference.authority = none → reference.path = .rooted ([] :: others) → others = []
  relative : ∀ first others, reference.path = .relative first others → first ≠ [] ∧ ':' ∉ first
  query : ∀ query ∈ reference.query, ∀ char ∈ query, char ≠ '#' ∧ char ∉ blanks
  fragment : ∀ fragment ∈ reference.fragment, ∀ char ∈ fragment, char ∉ blanks

-- Where something is, and what is asked for there.
structure Location where
  scheme : List Char
  host : List Char
  port : Nat
  path : List Char
  query : Option (List Char)

-- The origin form of a request target: an empty path is that of the root.
def requestTarget (path : List Char) (query : Option (List Char)) : List Char :=
  (if path = [] then ['/'] else path) ++ marked '?' query

def defaultPort (scheme : List Char) : Nat := if scheme = "https".toList then 443 else 80

def portNumber (digits : List Char) : Nat :=
  digits.foldl (fun number digit => number * 10 + (digit.toNat - '0'.toNat)) 0

-- A port that is empty is as good as none.
def Authority.portOr (authority : Authority) (default : Nat) : Nat :=
  match authority.port with
  | none | some [] => default
  | some digits => portNumber digits

section Resolve

-- The last segment of the output goes, and the slash in front of it.
def removeLast (output : List Char) : List Char := (output.rdropWhile (· ≠ '/')).dropLast

-- A step of the removal of dot segments: the rules A to E, on the output and the input.
def dotStep (output input : List Char) : List Char × List Char :=
  if "../".toList <+: input then (output, input.drop 3)
  else if "./".toList <+: input then (output, input.drop 2)
  else if "/./".toList <+: input then (output, input.drop 2)
  else if input = "/.".toList then (output, ['/'])
  else if "/../".toList <+: input then (removeLast output, input.drop 3)
  else if input = "/..".toList then (removeLast output, ['/'])
  else if input = ".".toList ∨ input = "..".toList then (output, [])
  else (output ++ (input.take 1 ++ (input.drop 1).takeWhile (· ≠ '/')),
    (input.drop 1).dropWhile (· ≠ '/'))

-- Every step makes the input shorter.
def removeDotsFor : Nat → List Char → List Char → List Char
  | _, output, [] => output
  | 0, output, _ => output
  | fuel + 1, output, input =>
      removeDotsFor fuel (dotStep output input).1 (dotStep output input).2

def removeDotSegments (path : List Char) : List Char := removeDotsFor path.length [] path

-- The base has an authority.
def merge (base path : List Char) : List Char :=
  if base = [] then '/' :: path else base.rdropWhile (· ≠ '/') ++ path

def Location.resolve (base : Location) (reference : Reference) : Location :=
  let scheme := reference.scheme.elim base.scheme (·.map Char.toLower)
  match reference.authority with
  | some authority => {
      scheme
      host := authority.host
      port := authority.portOr (defaultPort scheme)
      path := removeDotSegments reference.path.text
      query := reference.query }
  | none =>
      if reference.path.text = [] then
        { base with query := if reference.query = none then base.query else reference.query }
      else if reference.path.text.head? = some '/' then
        { base with path := removeDotSegments reference.path.text, query := reference.query }
      else
        { base with
          path := removeDotSegments (merge base.path reference.path.text)
          query := reference.query }

end Resolve

example : removeDotSegments "/a/b/c/./../../g".toList = "/a/g".toList := by decide
example : removeDotSegments "mid/content=5/../6".toList = "mid/6".toList := by decide

end SingBox.Library.Uri
