/-!
# Texts from bytes

Bytes that are meant as UTF-8 need not be a whole text: a stream that was cut off may end in the middle of a
character.

* `Bytes.sequenceLength` — how many bytes a character takes, by its first byte;
* `Bytes.lossyText` — the text of bytes, with a replacement for what is no character.
-/

namespace OnePass.Bytes

def continues (byte : UInt8) : Bool := 0x80 ≤ byte && byte ≤ 0xbf

/-- The range of the second byte of a character, by its first byte. Not all continuation bytes fit: overlong
forms, surrogates and numbers beyond the last code point are excluded. -/
def secondRange (first : UInt8) : UInt8 × UInt8 :=
  if first == 0xe0 then (0xa0, 0xbf)
  else if first == 0xed then (0x80, 0x9f)
  else if first == 0xf0 then (0x90, 0xbf)
  else if first == 0xf4 then (0x80, 0x8f)
  else (0x80, 0xbf)

def sequenceLength (first : UInt8) : Option Nat :=
  if first < 0x80 then some 1
  else if 0xc2 ≤ first && first ≤ 0xdf then some 2
  else if 0xe0 ≤ first && first ≤ 0xef then some 3
  else if 0xf0 ≤ first && first ≤ 0xf4 then some 4
  else none

def validTail (first : UInt8) (rest : List UInt8) (wanted : Nat) : Nat :=
  match rest with
  | [] => 0
  | second :: later =>
      let (low, high) := secondRange first
      if wanted = 0 || second < low || high < second then 0
      else 1 + ((later.take (wanted - 1)).takeWhile continues).length

def codePoint (first : UInt8) (tail : List UInt8) : Nat :=
  let lead := match tail.length with
    | 0 => first.toNat
    | 1 => first.toNat % 0x20
    | 2 => first.toNat % 0x10
    | _ => first.toNat % 0x08
  tail.foldl (fun code byte => code * 0x40 + byte.toNat % 0x40) lead

def replacement : Char := '\ufffd'

/-- The characters of some bytes; each longest start of a character that is cut short becomes one replacement.
The number bounds the characters. -/
def decode : Nat → List UInt8 → List Char
  | 0, _ => []
  | _ + 1, [] => []
  | n + 1, first :: rest =>
      match sequenceLength first with
      | none => replacement :: decode n rest
      | some length =>
          let found := validTail first rest (length - 1)
          let c := if found + 1 = length then Char.ofNat (codePoint first (rest.take found)) else replacement
          c :: decode n (rest.drop found)

def lossyText (bytes : ByteArray) : String :=
  String.ofList (decode bytes.size bytes.toList)

end OnePass.Bytes
