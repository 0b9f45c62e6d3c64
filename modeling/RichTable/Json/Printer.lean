import RichTable.Json.Value

/-!
# Writing JSON

Values are written without any blanks, or one item to a line and indented by two blanks. Characters
that a string cannot hold as they are, and only those, are escaped.
-/

namespace RichTable.Json

/-- How values are laid out. -/
inductive Style where
  | compact
  | indented
deriving Repr, DecidableEq, Inhabited

/-- A hexadecimal digit in lower case. -/
def hexDigit (n : Nat) : Char := if n < 10 then Char.ofNat (n + 48) else Char.ofNat (n + 87)

/-- The letter of the short escape of a character. -/
def shortEscape? : Char → Option Char
  | '"' => some '"'
  | '\\' => some '\\'
  | '\n' => some 'n'
  | '\r' => some 'r'
  | '\t' => some 't'
  | '\x08' => some 'b'
  | '\x0c' => some 'f'
  | _ => none

/-- A character as it stands in a string. -/
def escape (c : Char) : List Char :=
  match shortEscape? c with
  | some e => ['\\', e]
  | none =>
    if c.toNat < 32 then ['\\', 'u', '0', '0', hexDigit (c.toNat / 16), hexDigit (c.toNat % 16)]
    else [c]

/-- A string in quotes. One whose text is missing is written as half of a surrogate pair. -/
def quoted : Option String → List Char
  | some s => '"' :: s.toList.flatMap escape ++ ['"']
  | none => "\"\\ud800\"".toList

/-- The break before an item or a closing bracket at some depth. -/
def lineBreak : Style → (depth : Nat) → List Char
  | .compact, _ => []
  | .indented, depth => '\n' :: List.replicate (2 * depth) ' '

/-- What stands between the name and the value of a field. -/
def colon : Style → List Char
  | .compact => [':']
  | .indented => [':', ' ']

mutual

/-- The characters of a value at some depth. -/
def chars (style : Style) (depth : Nat) : Json → List Char
  | .null => "null".toList
  | .bool true => "true".toList
  | .bool false => "false".toList
  | .number n => n.text
  | .string s => quoted s
  | .array [] => ['[', ']']
  | .array (j :: js) =>
    '[' :: itemChars style (depth + 1) (j :: js) ++ lineBreak style depth ++ [']']
  | .object [] => ['\x7b', '\x7d']
  | .object (f :: fs) =>
    '\x7b' :: fieldChars style (depth + 1) (f :: fs) ++ lineBreak style depth ++ ['\x7d']

/-- The characters of the items of an array. -/
def itemChars (style : Style) (depth : Nat) : List Json → List Char
  | [] => []
  | [j] => lineBreak style depth ++ chars style depth j
  | j :: js => lineBreak style depth ++ chars style depth j ++ ',' :: itemChars style depth js

/-- The characters of the fields of an object. -/
def fieldChars (style : Style) (depth : Nat) : List (Option String × Json) → List Char
  | [] => []
  | [(k, j)] => lineBreak style depth ++ quoted k ++ colon style ++ chars style depth j
  | (k, j) :: fs =>
    lineBreak style depth ++ quoted k ++ colon style ++ chars style depth j ++
      ',' :: fieldChars style depth fs

end

/-- The text of a value. -/
def render (style : Style) (j : Json) : String := String.ofList (chars style 0 j)

end RichTable.Json
