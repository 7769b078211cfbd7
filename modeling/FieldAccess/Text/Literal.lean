/-
  Quoted texts: a string between double quotes, as it is shown in diagnostic output.

  Quotes and backslashes are escaped with a backslash; NUL, tab, line feed and carriage return have
  short escapes; any other character that is not printable is shown by its code point in
  hexadecimal, between braces.

  Core only.
-/
import FieldAccess.Text.Printable

namespace FieldAccess.Text

/-- A code point as an escape: `u`, then its lower-case hexadecimal digits between braces. -/
def codePointEscape (c : Char) : List Char :=
  ['\\', 'u', '\x7b'] ++ Nat.toDigits 16 c.toNat ++ ['\x7d']

/-- How a quoted text shows one character. -/
def literalChar (c : Char) : List Char :=
  if c = '\x00' then ['\\', '0']
  else if c = '\t' then ['\\', 't']
  else if c = '\n' then ['\\', 'n']
  else if c = '\r' then ['\\', 'r']
  else if c = '"' ∨ c = '\\' then ['\\', c]
  else if isPrintable c then [c]
  else codePointEscape c

/-- A string between double quotes. -/
def literal (s : String) : String :=
  String.ofList (['"'] ++ s.toList.flatMap literalChar ++ ['"'])

example : literal "a\"b\n" = "\"a\\\"b\\n\"" := by decide +kernel
example : literal "\x1b" = "\"\\u\x7b1b\x7d\"" := by decide +kernel

end FieldAccess.Text
