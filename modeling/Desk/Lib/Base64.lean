import Mathlib.Data.List.Basic

/-!
# Base64

The standard alphabet with padding, decoded strictly: the unused bits of the
last group are zero. Carriage returns and line feeds are skipped, as Go does.
-/

namespace Desk

namespace Base64

def alphabet : List Char := "ABCDEFGHIJKLMNOPQRSTUVWXYZabcdefghijklmnopqrstuvwxyz0123456789+/".toList

def digit (n : Nat) : Char := alphabet.getD n 'A'

def value (c : Char) : Option Nat :=
  match alphabet.idxOf c with
  | n => if n < 64 then some n else none

def encodeChars : List UInt8 → List Char
  | [] => []
  | [a] => [digit (a.toNat / 4), digit (a.toNat % 4 * 16), '=', '=']
  | [a, b] => [digit (a.toNat / 4), digit (a.toNat % 4 * 16 + b.toNat / 16), digit (b.toNat % 16 * 4), '=']
  | a :: b :: c :: rest =>
    digit (a.toNat / 4) :: digit (a.toNat % 4 * 16 + b.toNat / 16) :: digit (b.toNat % 16 * 4 + c.toNat / 64) ::
      digit (c.toNat % 64) :: encodeChars rest

def encode (raw : List UInt8) : String := String.ofList (encodeChars raw)

def decodeChars : List Char → Option (List UInt8)
  | [] => some []
  | [a, b, '=', '='] => do
    let a ← value a
    let b ← value b
    if b % 16 = 0 then return [UInt8.ofNat (a * 4 + b / 16)] else none
  | [a, b, c, '='] => do
    let a ← value a
    let b ← value b
    let c ← value c
    if c % 4 = 0 then return [UInt8.ofNat (a * 4 + b / 16), UInt8.ofNat (b % 16 * 16 + c / 4)] else none
  | a :: b :: c :: d :: rest => do
    let a ← value a
    let b ← value b
    let c ← value c
    let d ← value d
    let rest ← decodeChars rest
    return UInt8.ofNat (a * 4 + b / 16) :: UInt8.ofNat (b % 16 * 16 + c / 4) :: UInt8.ofNat (c % 4 * 64 + d) :: rest
  | _ => none

def decode (s : String) : Option (List UInt8) :=
  decodeChars (s.toList.filter fun c => c != '\r' && c != '\n')

example : decode (encode [104, 101, 108, 108]) = some [104, 101, 108, 108] := by decide

end Base64

end Desk
