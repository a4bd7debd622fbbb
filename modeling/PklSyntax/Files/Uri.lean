import PklSyntax.Number.Decimal
import PklSyntax.Text.Utf8

/-!
# Identifiers of files

An identifier that begins with `file:` names a file by its path. An authority may stand between two
slashes and the path, and a query or a fragment behind it. Characters that would not stand for
themselves are given by their bytes, each as a percent sign with two hexadecimal digits.

## Main definitions

* `percentBytes`, `percentDecoded`: what a text with percent signs stands for.
* `filePath?`: the path of the file that an identifier names.
-/

namespace PklSyntax

/-- The bytes of a character. -/
def charBytes (c : Char) : List Nat := (String.singleton c).toUTF8.toList.map UInt8.toNat

/-- The bytes that a text stands for. A percent sign that is not followed by two digits stands for
itself. -/
def percentBytes : List Char → List Nat
  | '%' :: a :: b :: rest =>
    if isHexDigit a && isHexDigit b then digitsValue 16 [a, b] :: percentBytes rest
    else charBytes '%' ++ percentBytes (a :: b :: rest)
  | c :: rest => charBytes c ++ percentBytes rest
  | [] => []

/-- The text that a text with percent signs stands for. -/
def percentDecoded (chars : List Char) : List Char := decodeBytes (percentBytes chars)

/-- A character that ends the authority. -/
def endsAuthority (c : Char) : Bool := c == '/' || c == '?' || c == '#'

/-- The authority and the path in what follows the scheme. -/
def authorityAndPath (chars : List Char) : List Char × List Char :=
  let (authority, rest) := match chars with
    | '/' :: '/' :: rest => rest.span fun c => !endsAuthority c
    | _ => ([], chars)
  (authority, rest.takeWhile fun c => c != '?' && c != '#')

/-- The path of the file that an identifier names; none when it names no file. Tabs and line ends
count for nothing. A path that begins with the letter of a drive has no slash in front of it. -/
def filePath? (identifier : String) : Option String :=
  if !identifier.startsWith "file:" then none
  else
    let chars := (identifier.toList.drop 5).filter fun c => c != '\t' && c != '\r' && c != '\n'
    let (authority, path) := authorityAndPath chars
    let authority := percentDecoded authority
    let path := percentDecoded path
    some <| String.ofList <|
      if !authority.isEmpty && !path.isEmpty then '/' :: '/' :: authority ++ path
      else match path with
        | '/' :: c :: ':' :: rest => if c.isAlpha then c.toLower :: ':' :: rest else path
        | _ => path

end PklSyntax
