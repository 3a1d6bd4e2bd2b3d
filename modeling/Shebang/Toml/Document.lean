import Shebang.Toml.Syntax

/-!
Documents of TOML 1.0. A document is a section without a header; a section holds lines with keys and
values, then the sections whose headers stand below its own. Keys keep the order in which they first
appear.
-/

namespace Shebang.Toml

def isBelow (path keys : List Text) : Bool := path.isPrefixOf keys && path.length < keys.length

def nest (item : Item) : List Text → Item
  | [] => item
  | key :: keys => .table .implied [(key, nest item keys)]

def sectionItem (path : List Text) (h : Header) (sections : List Items) : Text × Item :=
  let item := if h.element then .tables sections else .table .header sections.flatten
  match h.keys.drop path.length with
  | [] => ([], item)
  | key :: keys => (key, nest item keys)

mutual

/-- The rest of the section of `path`. It ends where a header starts that is not below its own, or
with the text. -/
def readSection (fuel : Nat) (path : List Text) (site : Site) (items : Items) :
    Reader Items := fun t =>
  match fuel, skipBlanks t with
  | _, [] => .ok (items, [])
  | 0, _ => .error .malformed
  | fuel + 1, '\n' :: rest => readSection fuel path site items rest
  | fuel + 1, '#' :: rest => do
    readSection fuel path site items (← endLine ('#' :: rest))
  | fuel + 1, '[' :: rest => do
    let (h, behind) ← readHeaderName ('[' :: rest)
    if isBelow path h.keys then
      let (sections, rest) ← readSections fuel path h behind
      let (key, item) := sectionItem path h sections
      readSection fuel path site (← append site key items item) rest
    else pure (items, '[' :: rest)
  | fuel + 1, rest => do
    let ((keys, value), rest) ← readKeyValue rest
    readSection fuel path site (← putValue site keys value items) rest

/-- The section of a header whose name has been read. The elements of an array directly below `path`
are read together if they follow each other. -/
def readSections (fuel : Nat) (path : List Text) (h : Header) : Reader (List Items) := fun t =>
  match fuel with
  | 0 => .error .malformed
  | fuel + 1 => do
    let (first, rest) ← readSection fuel h.keys .inner [] (← endHeader h t)
    if h.element && h.keys.length == path.length + 1 && rest != [] then
      let (next, behind) ← readHeaderName rest
      if next = h then
        let (others, rest) ← readSections fuel path h behind
        return (first :: others, rest)
    pure ([first], rest)

end

/-- The table of a document. A key that is taken makes it malformed if the key is added to the
document itself. Every step takes a character, so the length of the text bounds their number. -/
def parse (t : Text) : Except ParseError Table := do
  let (items, _) ← readSection (2 * t.length) [] .document [] t
  toTable items

end Shebang.Toml
