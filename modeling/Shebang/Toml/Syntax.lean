import Shebang.Toml.Item
import Shebang.Toml.Scalar

/-!
The notation of TOML 1.0: keys, strings, values and headers. Every reader takes the text ahead and
answers what it read together with the text behind it. Lines end with a line feed.
-/

namespace Shebang.Toml

abbrev Reader (α : Type) := Text → Except ParseError (α × Text)

def isBlank (c : Char) : Bool := c == ' ' || c == '\t'

def skipBlanks (t : Text) : Text := t.dropWhile isBlank

/-- Control characters other than the tab stand in no string and no comment. -/
def isAllowed (c : Char) : Bool := c == '\t' || (' ' ≤ c && c != '\x7f')

def isBareKeyChar (c : Char) : Bool := c.isAlphanum || c == '_' || c == '-'

def skipComment : Text → Except ParseError Text
  | '#' :: t =>
    let comment := t.takeWhile (· != '\n')
    if comment.all isAllowed then .ok (t.drop comment.length) else .error .malformed
  | t => .ok t

def endLine (t : Text) : Except ParseError Text := do
  match ← skipComment (skipBlanks t) with
  | [] => pure []
  | '\n' :: rest => pure rest
  | _ => throw .malformed

/-- The character of so many hexadecimal digits; surrogates are none. -/
def readCodePoint (width : Nat) : Reader Char := fun t =>
  let digits := t.take width
  let n := valueInBase 16 digits
  if digits.length = width ∧ digits.all isHexDigit ∧ n.isValidChar then
    .ok (Char.ofNat n, t.drop width)
  else .error .malformed

def simpleEscape? : Char → Option Char
  | 'b' => some '\x08'
  | 't' => some '\t'
  | 'n' => some '\n'
  | 'f' => some '\x0c'
  | 'r' => some '\r'
  | '"' => some '"'
  | '\\' => some '\\'
  | _ => none

def readEscape : Reader Char
  | 'u' :: t => readCodePoint 4 t
  | 'U' :: t => readCodePoint 8 t
  | c :: t =>
    match simpleEscape? c with
    | some e => .ok (e, t)
    | none => .error .malformed
  | [] => .error .malformed

def readBasic (fuel : Nat) : Reader Text := fun t =>
  match fuel, t with
  | _, '"' :: rest => .ok ([], rest)
  | fuel + 1, '\\' :: rest => do
    let (c, rest) ← readEscape rest
    let (s, rest) ← readBasic fuel rest
    pure (c :: s, rest)
  | fuel + 1, c :: rest =>
    if isAllowed c then do
      let (s, rest) ← readBasic fuel rest
      pure (c :: s, rest)
    else .error .malformed
  | _, _ => .error .malformed

def readLiteral : Reader Text := fun t =>
  let s := t.takeWhile fun c => c != '\'' && isAllowed c
  match t.drop s.length with
  | '\'' :: rest => .ok (s, rest)
  | _ => .error .malformed

/-- The end of a string in triple quotes: of up to five quotes the last three close it. -/
def closing (quote : Char) (t : Text) : Option (Text × Text) :=
  let quotes := (t.takeWhile (· == quote)).length
  if quotes < 3 then none
  else
    let inside := min (quotes - 3) 2
    some (List.replicate inside quote, t.drop (inside + 3))

/-- The rest of a basic string over several lines. A backslash at the end of a line takes the line
break and all blanks and line breaks after it away. -/
def readMultiBasic (fuel : Nat) : Reader Text := fun t =>
  match closing '"' t with
  | some done => .ok done
  | none =>
    match fuel, t with
    | fuel + 1, '\\' :: rest =>
      if (rest.takeWhile fun c => isBlank c || c == '\n').contains '\n' then
        readMultiBasic fuel (rest.dropWhile fun c => isBlank c || c == '\n')
      else do
        let (c, rest) ← readEscape rest
        let (s, rest) ← readMultiBasic fuel rest
        pure (c :: s, rest)
    | fuel + 1, c :: rest =>
      if isAllowed c || c == '\n' then do
        let (s, rest) ← readMultiBasic fuel rest
        pure (c :: s, rest)
      else .error .malformed
    | _, _ => .error .malformed

def readMultiLiteral (fuel : Nat) : Reader Text := fun t =>
  match closing '\'' t with
  | some done => .ok done
  | none =>
    match fuel, t with
    | fuel + 1, c :: rest =>
      if isAllowed c || c == '\n' then do
        let (s, rest) ← readMultiLiteral fuel rest
        pure (c :: s, rest)
      else .error .malformed
    | _, _ => .error .malformed

/-- A line feed right behind the opening quotes does not belong to the string. -/
def dropFirstLineFeed : Text → Text
  | '\n' :: t => t
  | t => t

def readString : Reader Text
  | '"' :: '"' :: '"' :: t => readMultiBasic t.length (dropFirstLineFeed t)
  | '\'' :: '\'' :: '\'' :: t => readMultiLiteral t.length (dropFirstLineFeed t)
  | '"' :: t => readBasic t.length t
  | '\'' :: t => readLiteral t
  | _ => .error .malformed

def readSimpleKey : Reader Text
  | '"' :: t => readBasic t.length t
  | '\'' :: t => readLiteral t
  | t =>
    let key := t.takeWhile isBareKeyChar
    if key = [] then .error .malformed else .ok (key, t.drop key.length)

def readKeyPath (fuel : Nat) : Reader (List Text) := fun t => do
  let (key, rest) ← readSimpleKey (skipBlanks t)
  match fuel, skipBlanks rest with
  | fuel + 1, '.' :: rest =>
    let (keys, rest) ← readKeyPath fuel rest
    pure (key :: keys, rest)
  | _, rest => pure ([key], rest)

/-- Keys have no more parts, and arrays and inline tables are nested no deeper. -/
def nestingLimit : Nat := 100

def readKey : Reader (List Text) := fun t => do
  let (keys, rest) ← readKeyPath t.length t
  if nestingLimit < keys.length then throw .malformed else pure (keys, rest)

def endsScalar (c : Char) : Bool := " \t\n#,]\x7d".toList.contains c

/-- A date may be followed by a blank and a time. -/
def readScalarAhead : Reader Value := fun t =>
  let word := t.takeWhile fun c => !endsScalar c
  let rest := t.drop word.length
  match readScalar word with
  | some (.moment (.date d)) =>
    let tail := rest.takeWhile fun c => c == ' ' || !endsScalar c
    match Text.trimEnd (· == ' ') tail with
    | [] => .ok (.moment (.date d), rest)
    | time =>
      match Moment.read (word ++ time) with
      | some m => .ok (.moment m, rest.drop tail.length)
      | none => .error .malformed
  | some v => .ok (v, rest)
  | none => .error .malformed

def skipGap (fuel : Nat) (t : Text) : Except ParseError Text :=
  match fuel, t.dropWhile fun c => isBlank c || c == '\n' with
  | fuel + 1, '#' :: rest => do skipGap fuel (← skipComment ('#' :: rest))
  | _, rest => .ok rest

/-- The items of an array through its bracket. A comma may follow the last one. -/
def readItems (readItem : Reader Value) (fuel : Nat) : Reader (List Value) := fun t => do
  match fuel, ← skipGap t.length t with
  | _, ']' :: rest => pure ([], rest)
  | 0, _ => throw .malformed
  | fuel + 1, rest =>
    let (item, rest) ← readItem rest
    match ← skipGap rest.length rest with
    | ']' :: rest => pure ([item], rest)
    | ',' :: rest =>
      let (items, rest) ← readItems readItem fuel rest
      pure (item :: items, rest)
    | _ => throw .malformed

/-- The fields of an inline table through its brace. All of them stand on one line. -/
def readFields (readItem : Reader Value) (fuel : Nat) (items : Items) : Reader Items := fun t =>
  match fuel with
  | 0 => .error .malformed
  | fuel + 1 => do
    match ← readKey t with
    | (keys, '=' :: rest) =>
      let (value, rest) ← readItem (skipBlanks rest)
      let items ← putValue .inner keys value items
      match skipBlanks rest with
      | '\x7d' :: rest => pure (items, rest)
      | ',' :: rest => readFields readItem fuel items rest
      | _ => throw .malformed
    | _ => throw .malformed

/-- A value with at most `depth` arrays and inline tables around its innermost part. -/
def readValue (depth : Nat) : Reader Value := fun t =>
  match depth, t with
  | depth + 1, '[' :: rest => do
    let (items, rest) ← readItems (readValue depth) rest.length rest
    pure (.list items, rest)
  | depth + 1, '\x7b' :: rest =>
    match skipBlanks rest with
    | '\x7d' :: rest => .ok (.table [], rest)
    | rest => do
      let (items, rest) ← readFields (readValue depth) rest.length [] rest
      pure (.table (← toTable items), rest)
  | _, '"' :: _ | _, '\'' :: _ => (readString t).map fun (s, rest) => (.string s, rest)
  | _, _ => readScalarAhead t

def readKeyValue : Reader (List Text × Value) := fun t => do
  match ← readKey t with
  | (keys, '=' :: rest) =>
    let (value, rest) ← readValue nestingLimit (skipBlanks rest)
    pure ((keys, value), ← endLine rest)
  | _ => throw .malformed

/-- The name in a header, and whether the header is that of an element of an array of tables. -/
structure Header where
  keys : List Text
  element : Bool
  deriving DecidableEq, Repr

def readHeaderName : Reader Header
  | '[' :: '[' :: t => (readKey t).map fun (keys, rest) => (⟨keys, true⟩, rest)
  | '[' :: t => (readKey t).map fun (keys, rest) => (⟨keys, false⟩, rest)
  | _ => .error .malformed

def endHeader (h : Header) (t : Text) : Except ParseError Text :=
  match h.element, t with
  | false, ']' :: rest => endLine rest
  | true, ']' :: ']' :: rest => endLine rest
  | _, _ => .error .malformed

end Shebang.Toml
