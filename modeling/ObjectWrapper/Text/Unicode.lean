namespace ObjectWrapper
namespace Unicode

/-!
# Unicode text as bytes

Names given on the command line and in file systems are Unicode text; files
and arguments are bytes.  `encode` writes text as UTF-8.  Two readers go back:
`decode?` accepts well-formed UTF-8 only, and `repair` accepts every byte list,
putting U+FFFD in place of each longest run of bytes that begins a character
without completing it.

The second reader takes one byte at a time.  Between two bytes it knows only
the bits of the character begun, how many bytes are still owed, and the range
in which the next one has to lie; that range alone excludes overlong forms,
surrogates and code points above U+10FFFF.
-/

/-- The UTF-8 bytes of a text. -/
def encode (text : String) : List UInt8 :=
  text.toList.flatMap String.utf8EncodeChar

/-- The text that is written as the given bytes, where there is one. -/
def decode? (bytes : List UInt8) : Option String :=
  String.fromUTF8? ⟨bytes.toArray⟩

/-- The character that stands for bytes that are not UTF-8. -/
def replacement : Char := '\ufffd'

/-- A character of which some bytes have been read. -/
structure Unfinished where
  /-- The bits read so far. -/
  bits : Nat
  /-- How many bytes are owed after the next one. -/
  owed : Nat
  /-- The least value of the next byte. -/
  low : Nat
  /-- The greatest value of the next byte. -/
  high : Nat

/-- Read a byte at which a character may begin: the characters completed by
it, and the character it leaves unfinished. -/
def start (byte : Nat) : List Char × Option Unfinished :=
  if byte < 0x80 then ([Char.ofNat byte], none)
  else if byte < 0xc2 then ([replacement], none)
  else if byte < 0xe0 then ([], some ⟨byte - 0xc0, 0, 0x80, 0xbf⟩)
  else if byte < 0xf0 then
    ([], some ⟨byte - 0xe0, 1, if byte = 0xe0 then 0xa0 else 0x80,
      if byte = 0xed then 0x9f else 0xbf⟩)
  else if byte < 0xf5 then
    ([], some ⟨byte - 0xf0, 2, if byte = 0xf0 then 0x90 else 0x80,
      if byte = 0xf4 then 0x8f else 0xbf⟩)
  else ([replacement], none)

/-- Read the next byte.  One that cannot continue an unfinished character
replaces what was read of it and is itself read afresh. -/
def advance (pending : Option Unfinished) (byte : Nat) : List Char × Option Unfinished :=
  match pending with
  | none => start byte
  | some character =>
    if character.low ≤ byte && byte ≤ character.high then
      let bits := character.bits * 64 + (byte - 0x80)
      match character.owed with
      | 0 => ([Char.ofNat bits], none)
      | owed + 1 => ([], some ⟨bits, owed, 0x80, 0xbf⟩)
    else (replacement :: (start byte).1, (start byte).2)

/-- The characters of a byte list that follows the bytes of `pending`. -/
def repairFrom (pending : Option Unfinished) : List UInt8 -> List Char
  | [] => if pending.isSome then [replacement] else []
  | byte :: rest =>
    let step := advance pending byte.toNat
    step.1 ++ repairFrom step.2 rest

/-- The text of a byte list, every byte sequence that is not UTF-8 replaced. -/
def repair (bytes : List UInt8) : String :=
  String.ofList (repairFrom none bytes)

end Unicode
end ObjectWrapper
