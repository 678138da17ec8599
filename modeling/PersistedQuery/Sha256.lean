import PersistedQuery.Text.Hex

/-!
# SHA-256

* `length_sha256`, `mem_hexDigits_of_mem_sha256`: a digest is written with 64 hexadecimal digits in lower case.
-/

namespace PersistedQuery

namespace Sha256

/-- The eight words that the digest is made of. -/
abbrev State := Vector UInt32 8

/-- Sixteen words of the message schedule. -/
abbrev Window := Vector UInt32 16

/-- The first bits of the fractional parts of the square roots of the first eight primes. -/
def initial : State :=
  #v[0x6a09e667, 0xbb67ae85, 0x3c6ef372, 0xa54ff53a, 0x510e527f, 0x9b05688c, 0x1f83d9ab, 0x5be0cd19]

/-- The first bits of the fractional parts of the cube roots of the first 64 primes. -/
def constants : List UInt32 :=
  [0x428a2f98, 0x71374491, 0xb5c0fbcf, 0xe9b5dba5, 0x3956c25b, 0x59f111f1, 0x923f82a4, 0xab1c5ed5,
    0xd807aa98, 0x12835b01, 0x243185be, 0x550c7dc3, 0x72be5d74, 0x80deb1fe, 0x9bdc06a7, 0xc19bf174,
    0xe49b69c1, 0xefbe4786, 0x0fc19dc6, 0x240ca1cc, 0x2de92c6f, 0x4a7484aa, 0x5cb0a9dc, 0x76f988da,
    0x983e5152, 0xa831c66d, 0xb00327c8, 0xbf597fc7, 0xc6e00bf3, 0xd5a79147, 0x06ca6351, 0x14292967,
    0x27b70a85, 0x2e1b2138, 0x4d2c6dfc, 0x53380d13, 0x650a7354, 0x766a0abb, 0x81c2c92e, 0x92722c85,
    0xa2bfe8a1, 0xa81a664b, 0xc24b8b70, 0xc76c51a3, 0xd192e819, 0xd6990624, 0xf40e3585, 0x106aa070,
    0x19a4c116, 0x1e376c08, 0x2748774c, 0x34b0bcb5, 0x391c0cb3, 0x4ed8aa4a, 0x5b9cca4f, 0x682e6ff3,
    0x748f82ee, 0x78a5636f, 0x84c87814, 0x8cc70208, 0x90befffa, 0xa4506ceb, 0xbef9a3f7, 0xc67178f2]

/-- Turns a word right by `n` bits, which is between 1 and 31. -/
def rotate (x : UInt32) (n : UInt32) : UInt32 := x >>> n ||| x <<< (32 - n)

/-- The bytes of a message, a one bit, zeros, and the number of bits of the message in eight bytes; a multiple of 64
bytes in all. -/
def padded (message : ByteArray) : Array UInt8 :=
  let zeros := Array.replicate ((119 - message.size % 64) % 64) 0
  let length := Array.ofFn fun i : Fin 8 => ((8 * message.size) >>> (8 * (7 - i.val))).toUInt8
  message.data ++ #[0x80] ++ zeros ++ length

/-- The big-endian word that begins at an offset. -/
def word (bytes : Array UInt8) (offset : Nat) : UInt32 :=
  (List.range 4).foldl (fun w i => w <<< 8 ||| (bytes.getD (offset + i) 0).toUInt32) 0

/-- One round with its constant; the window moves on by one word. -/
def round (acc : State × Window) (constant : UInt32) : State × Window :=
  let (s, w) := acc
  let choice := (s[4] &&& s[5]) ^^^ (~~~s[4] &&& s[6])
  let majority := (s[0] &&& s[1]) ^^^ (s[0] &&& s[2]) ^^^ (s[1] &&& s[2])
  let t1 := s[7] + (rotate s[4] 6 ^^^ rotate s[4] 11 ^^^ rotate s[4] 25) + choice + constant + w[0]
  let t2 := (rotate s[0] 2 ^^^ rotate s[0] 13 ^^^ rotate s[0] 22) + majority
  let next :=
    (rotate w[14] 17 ^^^ rotate w[14] 19 ^^^ w[14] >>> 10) + w[9] +
      (rotate w[1] 7 ^^^ rotate w[1] 18 ^^^ w[1] >>> 3) + w[0]
  (#v[t1 + t2, s[0], s[1], s[2], s[3] + t1, s[4], s[5], s[6]], w.tail.push next)

/-- Takes in the block of 64 bytes with this number. -/
def compress (bytes : Array UInt8) (state : State) (block : Nat) : State :=
  let window : Window := Vector.ofFn fun i => word bytes (64 * block + 4 * i.val)
  let last := constants.foldl round (state, window)
  Vector.zipWith (· + ·) state last.1

def digest (message : ByteArray) : State :=
  let bytes := padded message
  (List.range (bytes.size / 64)).foldl (compress bytes) initial

end Sha256

/-- The SHA-256 digest of the UTF-8 form of a text, in lower case hexadecimal digits. -/
def sha256 (s : String) : String :=
  String.ofList ((Sha256.digest s.toUTF8).toList.flatMap fun w => Text.hex 8 w.toNat)

theorem length_sha256 (s : String) : (sha256 s).length = 64 := by
  simp [sha256, Text.length_hex, List.map_const']

theorem mem_hexDigits_of_mem_sha256 {s : String} {c : Char} (h : c ∈ (sha256 s).toList) : c ∈ Text.hexDigits := by
  rw [sha256, String.toList_ofList, List.mem_flatMap] at h
  obtain ⟨w, _, digit⟩ := h
  exact Text.mem_hexDigits_of_mem_hex digit

end PersistedQuery
