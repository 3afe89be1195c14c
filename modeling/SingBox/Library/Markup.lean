import SingBox.Library.Reader

namespace SingBox.Library.Markup

-- Tags and the characters between them, as a strict reader finds them.
inductive Token where
  | tag (text : List Char)
  | char (char : Char)
deriving DecidableEq

-- The characters that are written by name, between `&` and `;`.
def named : List (List Char × Char) :=
  [("amp".toList, '&'), ("lt".toList, '<'), ("gt".toList, '>'), ("quot".toList, '"')]

-- What has been begun, and how much of it has been read. A tag does not end in a quoted value.
inductive Mode where
  | text
  | name (read : List Char)
  | tag (read : List Char)
  | quoted (read : List Char)

def scan : Mode → List Char → Option (List Token)
  | .text, [] => some []
  | .name _, [] | .tag _, [] | .quoted _, [] => none
  | .text, char :: rest =>
      if char = '<' then scan (.tag []) rest
      else if char = '&' then scan (.name []) rest
      else (scan .text rest).map (.char char :: ·)
  | .name read, char :: rest =>
      if char = ';' then
        (named.lookup read).bind fun found => (scan .text rest).map (.char found :: ·)
      else scan (.name (read ++ [char])) rest
  | .tag read, char :: rest =>
      if char = '>' then (scan .text rest).map (.tag read :: ·)
      else if char = '"' then scan (.quoted (read ++ [char])) rest
      else scan (.tag (read ++ [char])) rest
  | .quoted read, char :: rest =>
      if char = '"' then scan (.tag (read ++ [char])) rest else scan (.quoted (read ++ [char])) rest

def tokens (text : List Char) : Option (List Token) := scan .text text

-- A text as characters, none of which is taken for markup.
def escapeChar (char : Char) : List Char :=
  match named.find? (·.2 = char) with
  | some (name, _) => '&' :: name ++ [';']
  | none => [char]

def escape (text : List Char) : List Char := text.flatMap escapeChar

variable {front back : List Char} {first second : List Token}

end SingBox.Library.Markup
