/-!
# Segments of a token

A class token is a chain of modifiers and a root, `md:hover:[&>*]:bg-red-500`, with a
colon between one segment and the next.  A colon inside brackets or inside quotes belongs
to its segment.  Every text is a token: brackets that do not match and quotes that are
never closed only keep the rest of the token in one segment.
-/

namespace UtilityClasses.Token

/-- The bracket depth after a character outside quotes; a closing bracket too many is ignored. -/
def depthAfter (depth : Nat) (c : Char) : Nat :=
  if c = '[' then depth + 1 else if c = ']' then depth - 1 else depth

/-- The quotation that a character outside quotes opens. -/
def quotationAfter (c : Char) : Option Char :=
  if c = '"' || c = '\'' then some c else none

/-- Cuts a text at its top-level colons, given the bracket depth and the open quote at its
start.  The result is the rest of the current segment and the segments after it.  Inside
quotes a backslash keeps the character after it from closing the quotation.  The depth is no more
than the number of characters, and tokens come from sources of less than 2 ^ 32 bytes, so it is
the same in 32 bits. -/
def cutColons : Nat → Option Char → List Char → List Char × List (List Char)
  | _, _, [] => ([], [])
  | depth, some quote, '\\' :: c :: rest =>
    let (segment, later) := cutColons depth (some quote) rest
    ('\\' :: c :: segment, later)
  | depth, some quote, c :: rest =>
    let (segment, later) := cutColons depth (if c = quote then none else some quote) rest
    (c :: segment, later)
  | depth, none, c :: rest =>
    if c = ':' && depth = 0 then
      let (segment, later) := cutColons 0 none rest
      ([], segment :: later)
    else
      let (segment, later) := cutColons (depthAfter depth c) (quotationAfter c) rest
      (c :: segment, later)

/-- A list of segments without its last one, if that one is empty. -/
def dropEmptyLast (segments : List (List Char)) : List (List Char) :=
  if segments.getLast? = some [] then segments.dropLast else segments

/-- The segments of a token.  A colon that ends the token opens no segment. -/
def cut (token : List Char) : List (List Char) :=
  let (segment, later) := cutColons 0 none token
  dropEmptyLast (segment :: later)

/-- The segments of a token, the root last. -/
def segments (token : String) : List String :=
  (cut token.toList).map String.ofList

/-- A token without the marker `!` that makes its declaration important. -/
def body : List Char → List Char
  | '!' :: rest => rest
  | token => token

/-- Whether a token starts with the marker `!`. -/
def isImportant (token : String) : Bool :=
  token.toList.head? = some '!'

end UtilityClasses.Token
