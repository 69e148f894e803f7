import Mathlib.Algebra.Group.Nat.Defs
import Sentrik.Library.Text

/-!
# SHA-1

The digest as its standard defines it: the message is padded to blocks of sixteen words, each block is
expanded to eighty words, and eighty rounds over five words of state are added to the state before.
Everything is by structural recursion, so that a digest can be computed by the kernel.

Nothing is proved about it: that it has no collisions cannot be, and is assumed where it is needed, of
the texts at hand.
-/

namespace Sha1

abbrev Byte := BitVec 8

abbrev Word := BitVec 32

/-- The working variables. -/
structure State where
  a : Word
  b : Word
  c : Word
  d : Word
  e : Word
  deriving DecidableEq

def initial : State where
  a := 0x67452301#32
  b := 0xEFCDAB89#32
  c := 0x98BADCFE#32
  d := 0x10325476#32
  e := 0xC3D2E1F0#32

/-- What follows a message of `n` bytes: a one bit, zeros, and the length in bits over eight bytes. -/
def padding (n : ℕ) : List Byte :=
  0x80#8 :: List.replicate ((119 - n % 64) % 64) 0#8 ++
    (List.range 8).reverse.map fun i ↦ BitVec.ofNat 8 (8 * n / 256 ^ i)

/-- Four bytes a word, the most significant first. -/
def words : List Byte → List Word
  | a :: b :: c :: d :: rest => (a ++ b ++ c ++ d) :: words rest
  | _ => []

/-- The first `n` blocks of sixteen words. -/
def blocks : ℕ → List Word → List (List Word)
  | 0, _ => []
  | n + 1, ws => ws.take 16 :: blocks n (ws.drop 16)

/-- Add `n` words to a schedule that is kept with its last word first. -/
def schedule : ℕ → List Word → List Word
  | 0, ws => ws.reverse
  | n + 1, ws =>
    let w := ws.getD 2 0 ^^^ ws.getD 7 0 ^^^ ws.getD 13 0 ^^^ ws.getD 15 0
    schedule n (w.rotateLeft 1 :: ws)

def mix (t : ℕ) (b c d : Word) : Word :=
  if t < 20 then b &&& c ||| ~~~b &&& d
  else if t < 40 then b ^^^ c ^^^ d
  else if t < 60 then b &&& c ||| b &&& d ||| c &&& d
  else b ^^^ c ^^^ d

def constant (t : ℕ) : Word :=
  if t < 20 then 0x5A827999#32
  else if t < 40 then 0x6ED9EBA1#32
  else if t < 60 then 0x8F1BBCDC#32
  else 0xCA62C1D6#32

/-- The rounds from number `t` on, one for each word of the schedule. -/
def rounds : ℕ → List Word → State → State
  | _, [], s => s
  | t, w :: ws, s =>
    rounds (t + 1) ws {
      a := s.a.rotateLeft 5 + mix t s.b s.c s.d + s.e + w + constant t
      b := s.a
      c := s.b.rotateLeft 30
      d := s.c
      e := s.d }

def compress (s : State) (block : List Word) : State :=
  let r := rounds 0 (schedule 64 block.reverse) s
  { a := s.a + r.a, b := s.b + r.b, c := s.c + r.c, d := s.d + r.d, e := s.e + r.e }

/-- The digest of a message. -/
def digest (message : List Byte) : State :=
  let padded := message ++ padding message.length
  (blocks (padded.length / 64) (words padded)).foldl compress initial

/-- A word as eight hexadecimal digits. -/
def hexWord (w : Word) : Text :=
  (List.range 8).reverse.map fun i ↦ Text.hexDigit (w.toNat / 16 ^ i % 16)

/-- The bytes of a text. -/
def encode (t : Text) : List Byte := (t.flatMap String.utf8EncodeChar).map UInt8.toBitVec

/-- `hashlib.sha1(text.encode()).hexdigest()` -/
def hexdigest (t : Text) : Text :=
  let s := digest (encode t)
  hexWord s.a ++ hexWord s.b ++ hexWord s.c ++ hexWord s.d ++ hexWord s.e

example : hexdigest "abc".toList = "a9993e364706816aba3e25717850c26c9cd0d89d".toList := by
  decide +kernel

end Sha1
