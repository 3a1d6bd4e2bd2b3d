import Shebang.Value

/-!
Tables of TOML 1.0 while they are put together. A table may come about in several parts, one for
each place of the document that adds to it; the parts stand under its key in the order of the
document. A part is added only if it agrees with the parts before it, and `join` makes one table of
all of them.
-/

namespace Shebang.Toml

/-- A document that breaks the grammar. Where and how is not told. -/
def ParseError.malformed : ParseError := .invalid "malformed document"

/-- How a part of a table came about: by the header of a table below it, by its own header, or by a
dotted key. -/
inductive Origin where
  | implied
  | header
  | dotted
  deriving DecidableEq, Repr

/-- The origin of two parts together. A table has one header at most, and dotted keys do not add to
a table that has one. -/
def Origin.join : Origin → Origin → Option Origin
  | .implied, o => some o
  | o, .implied => some o
  | .dotted, .dotted => some .dotted
  | _, _ => none

/-- What stands under a key while a document is read. Tables in an array stand newest last. -/
inductive Item where
  | value (value : Value)
  | table (origin : Origin) (entries : List (Text × Item))
  | tables (elements : List (List (Text × Item)))

abbrev Items := List (Text × Item)

/-- All that stands under a key. More than one item are the parts of one table. -/
def itemsAt (key : Text) (items : Items) : List Item :=
  items.filterMap fun e => if e.1 = key then some e.2 else none

def Item.entries : Item → Items
  | .table _ entries => entries
  | _ => []

def Item.elements : Item → List Items
  | .tables elements => elements
  | _ => []

def Item.admits : Item → Item → Bool
  | .table o _, .table later _ => (o.join later).isSome
  | .tables _, .tables _ => true
  | _, _ => false

def replaceNewest (key : Text) (item : Item) : Items → Items
  | [] => []
  | (k, i) :: rest =>
    if k = key ∧ rest.all (·.1 != key) then (k, item) :: rest
    else (k, i) :: replaceNewest key item rest

def newestTable? (items : Items) : Option Text :=
  (items.filter fun | (_, .table ..) => true | _ => false).getLast?.map Prod.fst

def severalParts? (old added : Items) : Option Text :=
  (added.find? fun e => 1 < (itemsAt e.1 old).length).map Prod.fst

def clash? (before : Items) : Items → Option Text
  | [] => none
  | (key, item) :: rest =>
    if (itemsAt key before).all (·.admits item) then clash? (before ++ [(key, item)]) rest
    else some key

inductive Site where
  /-- The table that shows whether parts agree. The parts inside of it are not looked at. -/
  | trial
  /-- The document itself. That a part follows an array of tables of another part is found only when
  the parts are joined. -/
  | document
  | inner
  deriving DecidableEq, Repr

inductive Clash where
  | taken (key : Text)
  /-- A header names a table that has come about by dotted keys. -/
  | redefined
  deriving DecidableEq, Repr

def Clash.error : Clash → ParseError
  | .taken key => .keyTaken key
  | .redefined => .other "Redefinition of an existing table"

/-- A clash in the document itself makes the document malformed. -/
def Site.error : Site → Clash → ParseError
  | .document, _ => .malformed
  | _, clash => clash.error

def refuse : Option Text → Except Clash Unit
  | some key => .error (.taken key)
  | none => .ok ()

mutual

def Item.depth : Item → Nat
  | .value _ => 0
  | .table _ entries => depthOf entries + 1
  | .tables elements => depthOfEach elements + 1

def depthOf : List (Text × Item) → Nat
  | [] => 0
  | (_, item) :: rest => max item.depth (depthOf rest)

def depthOfEach : List (List (Text × Item)) → Nat
  | [] => 0
  | entries :: rest => max (depthOf entries) (depthOfEach rest)

end

def addEach (add : Text → Items → Item → Except Clash Items) (items : Items) :
    Items → Except Clash Items :=
  List.foldlM (fun items (key, item) => add key items item) items

def checkParts (check : Items → Except Clash Unit) (items : Items) : Except Clash Unit :=
  (items.map Prod.fst).eraseDups.forM fun key =>
    let parts := itemsAt key items
    if 1 < parts.length then check (parts.flatMap Item.entries) else .ok ()

mutual

/-- Adds an item under a key, or tells the clash. A table below an array of tables goes
to the newest element, and headers in a row below one table make one part. Any other part stands
for itself. If it or the newest one has the header of the table, then it adds to no key that has
several parts in the newest one; and it agrees with all parts before it. In an inner table the parts
under the key can be joined at once. -/
def place (steps : Nat) (site : Site) (key : Text) (items : Items) (item : Item) :
    Except Clash Items :=
  match steps with
  | 0 => .error (.taken key)
  | steps + 1 => do
    let before := itemsAt key items
    let placed ←
      match before.getLast?, item with
      | none, _ => .ok (items ++ [(key, item)])
      | some (.tables elements), .tables more =>
        .ok (replaceNewest key (.tables (elements ++ more)) items)
      | some (.tables elements), .table origin entries =>
        if origin = .header then .error (.taken key)
        else do
          let newest ← addEach (place steps .inner) (elements.getLast?.getD []) entries
          pure (replaceNewest key (.tables (elements.dropLast ++ [newest])) items)
      | some (.table o old), .table origin entries =>
        if o = .dotted ∧ origin = .header then .error .redefined
        else if !before.all (·.admits item) then .error (.taken key)
        else if o = .implied ∧ origin = .implied ∧ newestTable? items = some key then do
          let both ← addEach (place steps .inner) old entries
          pure (replaceNewest key (.table .implied both) items)
        else do
          if o = .header ∨ origin = .header then refuse (severalParts? old entries)
          if site ≠ .trial then agree steps (before.flatMap Item.entries ++ entries)
          pure (items ++ [(key, item)])
      | _, _ => .error (.taken key)
    if site = .inner then checkParts (joinable steps) (placed.filter (·.1 = key))
    pure placed

/-- The entries of all parts of a table agree if they can be added to one table, and if the parts
under each of its keys agree. -/
def agree (steps : Nat) (entries : Items) : Except Clash Unit :=
  match steps with
  | 0 => .ok ()
  | steps + 1 => do
    let trial ← addEach (place steps .trial) [] entries
    checkParts (agree steps) trial

/-- The entries of all parts of a table can be joined if each can follow those before it, and if the
parts under each key agree. -/
def joinable (steps : Nat) (entries : Items) : Except Clash Unit :=
  match steps with
  | 0 => .ok ()
  | steps + 1 => do
    refuse (clash? [] entries)
    checkParts (agree steps) entries

end

/-- Adds an item under a key. Two steps lead one level down, so the depth bounds their number. -/
def append (site : Site) (key : Text) (items : Items) (item : Item) : Except ParseError Items :=
  (place (2 * max item.depth (depthOf items) + 3) site key items item).mapError site.error

/-- The parts under each key as one value, the keys in the order of their first parts. What lies
under a key is looked at only when the parts under it can be joined. -/
def join (levels : Nat) (items : Items) : Except Clash Table :=
  match levels with
  | 0 => .ok []
  | levels + 1 =>
    (items.map Prod.fst).eraseDups.mapM fun key => do
      let parts := itemsAt key items
      let entries := parts.flatMap Item.entries
      match parts with
      | [.value v] => pure (key, v)
      | .tables _ :: _ =>
        let tables ← (parts.flatMap Item.elements).mapM (join levels)
        pure (key, .list (tables.map .table))
      | [.table ..] => pure (key, .table (← join levels entries))
      | .table .. :: _ =>
        joinable (2 * levels + 3) entries
        pure (key, .table (← join levels entries))
      | _ => .error (.taken key)

def toTable (items : Items) : Except ParseError Table :=
  (join (depthOf items + 1) items).mapError Clash.error

def dottedEntry (value : Value) : List Text → Text × Item
  | [] => ([], .value value)
  | [key] => (key, .value value)
  | key :: keys => (key, .table .dotted [dottedEntry value keys])

def putValue (site : Site) (keys : List Text) (value : Value) (items : Items) :
    Except ParseError Items :=
  let (key, item) := dottedEntry value keys
  append site key items item

end Shebang.Toml
