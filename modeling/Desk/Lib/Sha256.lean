import Desk.Lib.Text

/-!
# SHA-256

`digestOf` is the lower-case hexadecimal SHA-256 of a byte string. What the
development uses is its form, `digestOf_form`.
-/

namespace Desk

namespace Sha256

abbrev Word := BitVec 32

/-- The chaining state, the eight working variables of a round. -/
structure State where
  a : Word
  b : Word
  c : Word
  d : Word
  e : Word
  f : Word
  g : Word
  h : Word

def initial : State where
  a := 0x6a09e667
  b := 0xbb67ae85
  c := 0x3c6ef372
  d := 0xa54ff53a
  e := 0x510e527f
  f := 0x9b05688c
  g := 0x1f83d9ab
  h := 0x5be0cd19

def constants : List Word :=
  [0x428a2f98, 0x71374491, 0xb5c0fbcf, 0xe9b5dba5, 0x3956c25b, 0x59f111f1, 0x923f82a4, 0xab1c5ed5,
   0xd807aa98, 0x12835b01, 0x243185be, 0x550c7dc3, 0x72be5d74, 0x80deb1fe, 0x9bdc06a7, 0xc19bf174,
   0xe49b69c1, 0xefbe4786, 0x0fc19dc6, 0x240ca1cc, 0x2de92c6f, 0x4a7484aa, 0x5cb0a9dc, 0x76f988da,
   0x983e5152, 0xa831c66d, 0xb00327c8, 0xbf597fc7, 0xc6e00bf3, 0xd5a79147, 0x06ca6351, 0x14292967,
   0x27b70a85, 0x2e1b2138, 0x4d2c6dfc, 0x53380d13, 0x650a7354, 0x766a0abb, 0x81c2c92e, 0x92722c85,
   0xa2bfe8a1, 0xa81a664b, 0xc24b8b70, 0xc76c51a3, 0xd192e819, 0xd6990624, 0xf40e3585, 0x106aa070,
   0x19a4c116, 0x1e376c08, 0x2748774c, 0x34b0bcb5, 0x391c0cb3, 0x4ed8aa4a, 0x5b9cca4f, 0x682e6ff3,
   0x748f82ee, 0x78a5636f, 0x84c87814, 0x8cc70208, 0x90befffa, 0xa4506ceb, 0xbef9a3f7, 0xc67178f2]

def smallSigma (r₁ r₂ s : Nat) (x : Word) : Word := x.rotateRight r₁ ^^^ x.rotateRight r₂ ^^^ (x >>> s)

def bigSigma (r₁ r₂ r₃ : Nat) (x : Word) : Word := x.rotateRight r₁ ^^^ x.rotateRight r₂ ^^^ x.rotateRight r₃

def ch (x y z : Word) : Word := (x &&& y) ^^^ (~~~x &&& z)

def maj (x y z : Word) : Word := (x &&& y) ^^^ (x &&& z) ^^^ (y &&& z)

/-- The next schedule word from the schedule so far, latest word first. -/
def scheduleWord (w : List Word) : Word :=
  smallSigma 17 19 10 (w.getD 1 0) + w.getD 6 0 + smallSigma 7 18 3 (w.getD 14 0) + w.getD 15 0

def extend : Nat → List Word → List Word
  | 0, w => w
  | n + 1, w => extend n (scheduleWord w :: w)

def round (s : State) (k w : Word) : State :=
  let t₁ := s.h + bigSigma 6 11 25 s.e + ch s.e s.f s.g + k + w
  let t₂ := bigSigma 2 13 22 s.a + maj s.a s.b s.c
  { a := t₁ + t₂, b := s.a, c := s.b, d := s.c, e := s.d + t₁, f := s.e, g := s.f, h := s.g }

def compress (s : State) (block : List Word) : State :=
  let schedule := (extend 48 block.reverse).reverse
  let t := (constants.zip schedule).foldl (fun t kw => round t kw.1 kw.2) s
  { a := s.a + t.a, b := s.b + t.b, c := s.c + t.c, d := s.d + t.d,
    e := s.e + t.e, f := s.f + t.f, g := s.g + t.g, h := s.h + t.h }

def bigEndian (n : Nat) : Nat → List UInt8
  | 0 => []
  | k + 1 => UInt8.ofNat (n / 256 ^ k) :: bigEndian n k

def pad (message : List UInt8) : List UInt8 :=
  message ++ 0x80 :: List.replicate ((119 - message.length % 64) % 64) 0 ++ bigEndian (8 * message.length) 8

def words : List UInt8 → List Word
  | a :: b :: c :: d :: rest =>
    BitVec.ofNat 32 (((a.toNat * 256 + b.toNat) * 256 + c.toNat) * 256 + d.toNat) :: words rest
  | _ => []

/-- `n` blocks of sixteen words each. -/
def blocks : Nat → List Word → List (List Word)
  | 0, _ => []
  | n + 1, w => w.take 16 :: blocks n (w.drop 16)

def State.bytes (s : State) : List UInt8 :=
  [s.a, s.b, s.c, s.d, s.e, s.f, s.g, s.h].flatMap fun w => bigEndian w.toNat 4

def sum (message : List UInt8) : List UInt8 :=
  let padded := pad message
  ((blocks (padded.length / 64) (words padded)).foldl compress initial).bytes

/-- HMAC-SHA256. -/
def hmac (key message : List UInt8) : List UInt8 :=
  let key := if 64 < key.length then sum key else key
  let block := key ++ List.replicate (64 - key.length) 0
  sum (block.map (· ^^^ 0x5c) ++ sum (block.map (· ^^^ 0x36) ++ message))

theorem length_bigEndian (n k : Nat) : (bigEndian n k).length = k := by
  induction k with
  | zero => rfl
  | succ k ih => rw [bigEndian, List.length_cons, ih]

theorem length_sum (message : List UInt8) : (sum message).length = 32 := by
  simp only [sum, State.bytes, List.length_flatMap, List.map_cons, List.map_nil, length_bigEndian]
  rfl

end Sha256

/-! ## Hexadecimal -/

def hexDigit (n : Nat) : Char := "0123456789abcdef".toList.getD n '0'

def hexOf (bytes : List UInt8) : List Char :=
  bytes.flatMap fun b => [hexDigit (b.toNat / 16), hexDigit (b.toNat % 16)]

theorem isLowerHex_hexDigit {n : Nat} (h : n < 16) : isLowerHex (hexDigit n) = true := by
  have all : ∀ k : Fin 16, isLowerHex (hexDigit k) = true := by decide
  exact all ⟨n, h⟩

theorem length_hexOf (bytes : List UInt8) : (hexOf bytes).length = 2 * bytes.length := by
  induction bytes with
  | nil => rfl
  | cons b bs ih =>
    have : (hexOf (b :: bs)).length = 2 + (hexOf bs).length := by
      simp only [hexOf, List.flatMap_cons, List.length_append, List.length_cons, List.length_nil]
    rw [this, ih, List.length_cons]
    omega

theorem all_hexOf (bytes : List UInt8) : (hexOf bytes).all isLowerHex = true := by
  rw [List.all_eq_true]
  intro c hc
  obtain ⟨b, _, hb⟩ := List.mem_flatMap.mp hc
  have hlt : b.toNat < 256 := b.toNat_lt
  simp only [List.mem_cons, List.not_mem_nil, or_false] at hb
  rcases hb with rfl | rfl
  · exact isLowerHex_hexDigit (by omega)
  · exact isLowerHex_hexDigit (by omega)

/-- `fmt.Sprintf("%x", sha256.Sum256(raw))`. -/
def digestOf (raw : List UInt8) : String := String.ofList (hexOf (Sha256.sum raw))

theorem digestOf_form (raw : List UInt8) : hexForm "" 64 (digestOf raw) = true := by
  have hl : (hexOf (Sha256.sum raw)).length = 64 := by rw [length_hexOf, Sha256.length_sum]
  have ha := all_hexOf (Sha256.sum raw)
  simp [hexForm, hasPrefix, digestOf, hl, ha]

theorem len_digestOf (raw : List UInt8) : len (digestOf raw) = 64 := len_of_hexForm (digestOf_form raw)

example : digestOf [] = "e3b0c44298fc1c149afbf4c8996fb92427ae41e4649b934ca495991b7852b855" := by
  decide +kernel

end Desk
