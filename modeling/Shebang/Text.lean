/-!
Texts are lists of code points: an offset into a text is a position in the list, and the rules about
texts are rules about lists.
-/

namespace Shebang

abbrev Text := List Char

instance : Coe String Text := ⟨String.toList⟩

namespace Text

def ofNat (n : Nat) : Text := Nat.toDigits 10 n

def ofInt : Int → Text
  | .ofNat n => ofNat n
  | .negSucc n => '-' :: ofNat (n + 1)

def joinWith (sep : Text) (parts : List Text) : Text := List.intercalate sep parts

def trimEnd (p : Char → Bool) (t : Text) : Text := (t.reverse.dropWhile p).reverse

def trim (p : Char → Bool) (t : Text) : Text := trimEnd p (t.dropWhile p)

def dropDots (t : Text) : Text := t.dropWhile (· == '.')

def padRight (width : Nat) (t : Text) : Text := t ++ List.replicate (width - t.length) ' '

def padLeft (width : Nat) (t : Text) : Text := List.replicate (width - t.length) ' ' ++ t

def splitOn (sep : Char) : Text → List Text
  | [] => [[]]
  | c :: rest =>
    if c = sep then [] :: splitOn sep rest
    else match splitOn sep rest with
      | [] => [[c]]
      | piece :: pieces => (c :: piece) :: pieces

def lastSegment (t : Text) : Text := (t.reverse.takeWhile (· != '/')).reverse

def throughLastSlash (t : Text) : Text := (t.reverse.dropWhile (· != '/')).reverse

theorem throughLastSlash_append_lastSegment (t : Text) :
    t.throughLastSlash ++ t.lastSegment = t := by
  rw [throughLastSlash, lastSegment, ← List.reverse_append, List.takeWhile_append_dropWhile,
    List.reverse_reverse]

/-- Lower case as far as it yields ASCII letters: `A` to `Z`, and the Kelvin sign. -/
def lowerChar (c : Char) : Char :=
  if c = '\u212a' then 'k' else c.toLower

def lower (t : Text) : Text := t.map lowerChar

/-- Upper case as far as single characters yield ASCII letters: `a` to `z`, dotless `i`, long `s`.
-/
def upperChar (c : Char) : Char :=
  if c = '\u0131' then 'I' else if c = '\u017f' then 'S' else c.toUpper

def upper (t : Text) : Text := t.map upperChar

end Text

end Shebang
