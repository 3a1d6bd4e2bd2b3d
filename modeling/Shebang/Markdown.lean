import Shebang.Text

/-!
Tables in Markdown. Cells are escaped before they are put into a table, so a pipe that ends a cell
is one without a backslash before it.
-/

namespace Shebang.Markdown

def escapeChar (c : Char) : Text := if c = '\\' ∨ c = '|' then ['\\', c] else [c]

def escapeCell (t : Text) : Text := t.flatMap escapeChar

def codeSpan (t : Text) : Text := '`' :: t ++ ['`']

def strong (t : Text) : Text := "**" ++ t ++ "**"

def columnWidths (headers : List Text) (rows : List (List Text)) : List Nat :=
  rows.foldl (fun widths row => List.zipWith max widths (row.map List.length))
    (headers.map List.length)

def tableLine (widths : List Nat) (cells : List Text) : Text :=
  "| " ++ Text.joinWith " | " (List.zipWith Text.padRight widths cells) ++ " |\n"

/-- A header line, a line of dashes and a line for each row, all of one width. -/
def table (headers : List Text) (rows : List (List Text)) : Text :=
  let widths := columnWidths headers rows
  let dashes := widths.map fun width => List.replicate width '-'
  (headers :: dashes :: rows).flatMap (tableLine widths)

inductive TableError where
  | ragged
  deriving DecidableEq, Repr

def TableError.message : TableError → Text
  | .ragged => "All rows must have the same number of columns as headers"

/-- The table of any headers and rows. Without headers there is none, whatever the rows are. -/
def tableOf (headers : List Text) (rows : List (List Text)) : Except TableError Text :=
  if headers = [] then .ok []
  else if rows.all (·.length = headers.length) then .ok (table headers rows)
  else .error .ragged

end Shebang.Markdown
