import Monomorph.Token

/-!
Order-sensitive 64-bit digests. A digest folds words one after another into its state; text and
numbers are first condensed to a word by SipHash with one compression round, three finishing
rounds and a zero key.
-/

namespace Monomorph

/-- The four words of SipHash's state. -/
structure SipState where
  v0 : UInt64
  v1 : UInt64
  v2 : UInt64
  v3 : UInt64
  deriving DecidableEq

namespace SipState

def rotl (x : UInt64) (n : UInt64) : UInt64 := (x <<< n) ||| (x >>> (64 - n))

/-- The state for a zero key. -/
def start : SipState :=
  ⟨0x736f6d6570736575, 0x646f72616e646f6d, 0x6c7967656e657261, 0x7465646279746573⟩

def round (s : SipState) : SipState :=
  let v0 := s.v0 + s.v1
  let v2 := s.v2 + s.v3
  let v1 := rotl s.v1 13 ^^^ v0
  let v3 := rotl s.v3 16 ^^^ v2
  let v0 := rotl v0 32
  let v2 := v2 + v1
  let v0 := v0 + v3
  let v1 := rotl v1 17 ^^^ v2
  let v3 := rotl v3 21 ^^^ v0
  ⟨v0, v1, rotl v2 32, v3⟩

/-- Absorbs one word of input. -/
def absorb (s : SipState) (m : UInt64) : SipState :=
  let t := round { s with v3 := s.v3 ^^^ m }
  { t with v0 := t.v0 ^^^ m }

def finish (s : SipState) : UInt64 :=
  let t := round (round (round { s with v2 := s.v2 ^^^ 0xff }))
  t.v0 ^^^ t.v1 ^^^ t.v2 ^^^ t.v3

/-- The word whose little-endian bytes are given. -/
def ofBytes : List UInt8 → UInt64
  | [] => 0
  | b :: bs => b.toUInt64 ||| (ofBytes bs <<< 8)

/-- Absorbs bytes eight at a time; the last word holds what remains, and the length in its
highest byte. -/
def absorbBytes (length : UInt64) : SipState → List UInt8 → SipState
  | s, b0 :: b1 :: b2 :: b3 :: b4 :: b5 :: b6 :: b7 :: rest =>
    absorbBytes length (s.absorb (ofBytes [b0, b1, b2, b3, b4, b5, b6, b7])) rest
  | s, rest => s.absorb (ofBytes rest ||| (length <<< 56))

end SipState

/-- SipHash-1-3 with a zero key. -/
def sipHash (bytes : List UInt8) : UInt64 :=
  (SipState.absorbBytes bytes.length.toUInt64 SipState.start bytes).finish

/-- The `count` lowest bytes of `n`, least significant first. -/
def littleEndian : (count : Nat) → (n : Nat) → List UInt8
  | 0, _ => []
  | count + 1, n => (n % 256).toUInt8 :: littleEndian count (n / 256)

/-- A digest under construction. -/
structure Digest where
  value : UInt64
  deriving DecidableEq

namespace Digest

/-- The digest of nothing. -/
def start : Digest := ⟨0xcbf29ce484222325⟩

/-- Folds a shifted copy of a word back into it. -/
def foldHigh (x : UInt64) : UInt64 := x ^^^ (x >>> 33)

/-- Folds one word into a state. Each stage is a bijection of 64-bit words, so neither the old
state nor the word can hide a difference in the other. -/
def mix (state word : UInt64) : UInt64 :=
  foldHigh (foldHigh ((state ^^^ word) * 0x100000001b3) * 0xff51afd7ed558ccd)

/-- Folds in the finished digest of a part. -/
def word (d : Digest) (w : UInt64) : Digest := ⟨mix d.value w⟩

/-- Folds in bytes, condensed to one word. -/
def bytes (d : Digest) (bs : List UInt8) : Digest := d.word (sipHash bs)

def byte (d : Digest) (b : UInt8) : Digest := d.bytes [b]

def short (d : Digest) (n : UInt16) : Digest := d.bytes (littleEndian 2 n.toNat)

/-- Folds in a count, as eight bytes. -/
def size (d : Digest) (n : Nat) : Digest := d.bytes (littleEndian 8 n)

/-- Folds in text: its UTF-8 bytes and a closing byte that no text contains. -/
def text (d : Digest) (s : String) : Digest := d.bytes (s.toUTF8.toList ++ [0xff])

def token (d : Digest) (t : Token) : Digest := d.word t.value.toUInt64

/-- Folds in a name and the namespace it stands in. -/
def fullName (d : Digest) (space name : String) : Digest := (d.text space).text name

/-- Digests a list from the digests of its members, in order, after their number. -/
def ofList (ws : List UInt64) : UInt64 := (ws.foldl word (start.size ws.length)).value

end Digest

end Monomorph
