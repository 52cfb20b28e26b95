import ObjectWrapper.Condition.Fault

namespace ObjectWrapper
namespace Condition

/-!
# Values of literals

Integers are written in decimal, or after `0x`, `0b` or `0` in hexadecimal,
binary or octal, with quotes anywhere between digits and a suffix of the
letters `u` and `l`.  They have to be below 2^64 and are taken as signed.  The
digits may be preceded by one plus sign; since a sign ends a number in a header,
only values given on the command line have one.

A character literal has the code of its first character, or of the one that a
backslash and the second character stand for.  What else is between the quotes
does not count.
-/

/-- The value of a digit in the given base, which is at most sixteen. -/
def digit? (base : Nat) (character : Char) : Option Nat :=
  let value :=
    if character.isDigit then some (character.toNat - '0'.toNat)
    else if 'a' ≤ character ∧ character ≤ 'f' then some (character.toNat - 'a'.toNat + 10)
    else if 'A' ≤ character ∧ character ≤ 'F' then some (character.toNat - 'A'.toNat + 10)
    else none
  value.filter (· < base)

/-- The value of digits written after `value`. -/
def digits? (base : Nat) (value : Nat) : List Char -> Option Nat
  | [] => some value
  | character :: rest =>
    match digit? base character with
    | some digit => digits? base (value * base + digit) rest
    | none => none

/-- The value of one or more digits, possibly after a plus sign. -/
def numeral? (base : Nat) (text : List Char) : Option Nat :=
  let digits := if text.head? = some '+' then text.drop 1 else text
  if digits.isEmpty then none else digits? base 0 digits

/-- The letters of which an integer suffix is made. -/
def isIntegerSuffix (character : Char) : Bool :=
  character == 'u' || character == 'U' || character == 'l' || character == 'L'

/-- The number an integer literal stands for, whatever its size. -/
def natural? (literal : List Char) : Option Nat :=
  let unsuffixed := (literal.reverse.dropWhile isIntegerSuffix).reverse
  match unsuffixed.filter (· != '\'') with
  | '0' :: 'x' :: digits | '0' :: 'X' :: digits => numeral? 16 digits
  | '0' :: 'b' :: digits | '0' :: 'B' :: digits => numeral? 2 digits
  | '0' :: digit :: digits => numeral? 8 (digit :: digits)
  | digits => numeral? 10 digits

/-- The value of an integer literal. -/
def integer (literal : String) : Except Fault Int64 :=
  match natural? literal.toList with
  | some value =>
    if value < UInt64.size then .ok (Int64.ofNat value) else .error (.invalidInteger literal)
  | none => .error (.invalidInteger literal)

/-- The code of a character. -/
def codeOf (character : Char) : Int64 :=
  Int64.ofNat character.toNat

/-- The code of the character that stands after a backslash. -/
def escapedCode (character : Char) : Int64 :=
  match character with
  | 'n' => codeOf '\n'
  | 't' => codeOf '\t'
  | 'r' => codeOf '\r'
  | '0' => 0
  | other => codeOf other

/-- The value of a character literal. -/
def character (literal : String) : Except Fault Int64 :=
  match literal.toList.dropWhile (· != '\'') with
  | [] => .error (.invalidCharacter literal)
  | _ :: quoted =>
    match (quoted.reverse.dropWhile (· == '\'')).reverse with
    | [] => .error (.emptyCharacter literal)
    | '\\' :: escaped :: _ => .ok (escapedCode escaped)
    | first :: _ => .ok (codeOf first)

end Condition
end ObjectWrapper
