import Monomorph.Text.Unprintable

/-!
How plain values are spelled: natural numbers in lower-case hexadecimal digits, strings between
quotes, and records by a name with the fields between braces.
-/

namespace Monomorph.Text

/-! ## Numbers -/

/-- The hexadecimal digits of `n`, without leading zeros; zero is a single digit. -/
def hex (n : Nat) : String := String.ofList (Nat.toDigits 16 n)

/-- The hexadecimal digits of `n`, filled with zeros on the left to at least `width` digits. -/
def hexPadded (width n : Nat) : String :=
  let digits := Nat.toDigits 16 n
  String.ofList (List.replicate (width - digits.length) '0' ++ digits)

/-! ## Strings -/

/-- A quote, a backslash and the common controls are written with a backslash, other characters
that do not print by their code point, and the rest as it is. -/
def quotedChar (c : Char) : String :=
  match c with
  | '"' => "\\\""
  | '\\' => "\\\\"
  | '\n' => "\\n"
  | '\r' => "\\r"
  | '\t' => "\\t"
  | '\x00' => "\\0"
  | c =>
    if isUnprintable c then "\\u\x7b" ++ hex c.toNat ++ "\x7d" else String.singleton c

def quoted (s : String) : String :=
  "\"" ++ String.join (s.toList.map quotedChar) ++ "\""

/-! ## Records -/

def field (name value : String) : String := name ++ ": " ++ value

def record (name : String) (fields : List String) : String :=
  name ++ " \x7b " ++ ", ".intercalate fields ++ " \x7d"

/-- A value that may be missing. -/
def optional : Option String → String
  | none => "None"
  | some s => "Some(" ++ s ++ ")"

def truth (b : Bool) : String := if b then "true" else "false"

end Monomorph.Text
