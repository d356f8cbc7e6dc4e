import Alicerce.Py.Json

/-!
# `hashlib.sha256`

The digest of a byte string, as the Secure Hash Standard computes it: the message is padded to
blocks of sixty-four bytes, each block is stretched to sixty-four words, and each word is mixed into
the state.

* `Sha256.pad`, `Sha256.schedule`, `Sha256.round`, `Sha256.compress` and `Sha256.compressAll` are
  the steps of it, and `Py.sha256` is `hashlib.sha256(data).digest()`.
* `Py.hexdigest` is its text, which consists of sixty-four lower-case hexadecimal digits
  (`matchesExactly_hexdigest`) and determines the digest (`sha256_eq_of_hexdigest`).
* `Collision`: two different byte strings have one digest.  That there are none is nowhere proved,
  and every result that relies on it names the two byte strings.
-/

set_option autoImplicit false

namespace Py

namespace Sha256

/-- A word. -/
abbrev Word := BitVec 32

/-- The round constants. -/
def constants : List Word :=
  [0x428a2f98, 0x71374491, 0xb5c0fbcf, 0xe9b5dba5, 0x3956c25b, 0x59f111f1, 0x923f82a4, 0xab1c5ed5,
   0xd807aa98, 0x12835b01, 0x243185be, 0x550c7dc3, 0x72be5d74, 0x80deb1fe, 0x9bdc06a7, 0xc19bf174,
   0xe49b69c1, 0xefbe4786, 0x0fc19dc6, 0x240ca1cc, 0x2de92c6f, 0x4a7484aa, 0x5cb0a9dc, 0x76f988da,
   0x983e5152, 0xa831c66d, 0xb00327c8, 0xbf597fc7, 0xc6e00bf3, 0xd5a79147, 0x06ca6351, 0x14292967,
   0x27b70a85, 0x2e1b2138, 0x4d2c6dfc, 0x53380d13, 0x650a7354, 0x766a0abb, 0x81c2c92e, 0x92722c85,
   0xa2bfe8a1, 0xa81a664b, 0xc24b8b70, 0xc76c51a3, 0xd192e819, 0xd6990624, 0xf40e3585, 0x106aa070,
   0x19a4c116, 0x1e376c08, 0x2748774c, 0x34b0bcb5, 0x391c0cb3, 0x4ed8aa4a, 0x5b9cca4f, 0x682e6ff3,
   0x748f82ee, 0x78a5636f, 0x84c87814, 0x8cc70208, 0x90befffa, 0xa4506ceb, 0xbef9a3f7, 0xc67178f2]

/-- The eight working variables. -/
structure State where
  a : Word
  b : Word
  c : Word
  d : Word
  e : Word
  f : Word
  g : Word
  h : Word

/-- The words of a state, in order. -/
def State.words (s : State) : List Word := [s.a, s.b, s.c, s.d, s.e, s.f, s.g, s.h]

/-- The initial hash value. -/
def State.initial : State :=
  ⟨0x6a09e667, 0xbb67ae85, 0x3c6ef372, 0xa54ff53a, 0x510e527f, 0x9b05688c, 0x1f83d9ab, 0x5be0cd19⟩

/-- The sum, word by word, of two states. -/
def State.add (s t : State) : State :=
  ⟨s.a + t.a, s.b + t.b, s.c + t.c, s.d + t.d, s.e + t.e, s.f + t.f, s.g + t.g, s.h + t.h⟩

/-- One round. -/
def round (s : State) (kw : Word × Word) : State :=
  let sum₁ := s.e.rotateRight 6 ^^^ s.e.rotateRight 11 ^^^ s.e.rotateRight 25
  let choice := (s.e &&& s.f) ^^^ (~~~s.e &&& s.g)
  let t₁ := s.h + sum₁ + choice + kw.1 + kw.2
  let sum₀ := s.a.rotateRight 2 ^^^ s.a.rotateRight 13 ^^^ s.a.rotateRight 22
  let majority := (s.a &&& s.b) ^^^ (s.a &&& s.c) ^^^ (s.b &&& s.c)
  ⟨t₁ + (sum₀ + majority), s.a, s.b, s.c, s.d + t₁, s.e, s.f, s.g⟩

/-- The first `n` words of the message schedule that starts with the words of a block. -/
def schedule : ℕ → List Word → List Word
  | 0, _ => []
  | n + 1, window =>
    let w₁ := window.getD 1 0
    let w₁₄ := window.getD 14 0
    let small₀ := w₁.rotateRight 7 ^^^ w₁.rotateRight 18 ^^^ w₁ >>> 3
    let small₁ := w₁₄.rotateRight 17 ^^^ w₁₄.rotateRight 19 ^^^ w₁₄ >>> 10
    let next := small₁ + window.getD 9 0 + small₀ + window.headD 0
    window.headD 0 :: schedule n (window.tail ++ [next])

/-- Big-endian bytes as words. -/
def toWords : List UInt8 → List Word
  | a :: b :: c :: d :: rest =>
    BitVec.ofNat 32 (((a.toNat * 256 + b.toNat) * 256 + c.toNat) * 256 + d.toNat) :: toWords rest
  | _ => []

/-- A word as big-endian bytes. -/
def ofWord (w : Word) : List UInt8 :=
  [UInt8.ofNat (w.toNat / 0x1000000), UInt8.ofNat (w.toNat / 0x10000 % 256),
    UInt8.ofNat (w.toNat / 0x100 % 256), UInt8.ofNat (w.toNat % 256)]

/-- Mix one block into the state. -/
def compress (s : State) (block : List UInt8) : State :=
  s.add ((constants.zip (schedule 64 (toWords block))).foldl round s)

/-- A message with its padding: a one bit, zeros, and the length in bits. -/
def pad (message : List UInt8) : List UInt8 :=
  let bits := message.length * 8
  message ++ 0x80 :: List.replicate ((119 - message.length % 64) % 64) 0 ++
    ofWord (BitVec.ofNat 32 (bits / 0x100000000)) ++ ofWord (BitVec.ofNat 32 bits)

/-- Mix `n` blocks into the state. -/
def compressAll : ℕ → List UInt8 → State → State
  | 0, _, s => s
  | n + 1, message, s => compressAll n (message.drop 64) (compress s (message.take 64))

end Sha256

open Sha256

/-- `hashlib.sha256(data).digest()`. -/
def sha256 (data : Bytes) : Bytes :=
  let message := pad data.data.toList
  ⟨((compressAll (message.length / 64) message .initial).words.flatMap ofWord).toArray⟩

/-- The two hexadecimal digits of a byte. -/
def hexByte (b : UInt8) : Text := [hexChar (b.toNat / 16), hexChar b.toNat]

/-- `.hexdigest()`. -/
def hexdigest (data : Bytes) : Text := (sha256 data).data.toList.flatMap hexByte

theorem length_hexdigest (data : Bytes) : (hexdigest data).length = 64 := rfl

theorem hexChar_lowerHex (n : ℕ) :
    ((range '0' '9').or (range 'a' 'f')) (hexChar n) = true := by
  have h : ∀ m < 16, ((range '0' '9').or (range 'a' 'f')) (hexChar m) = true := by decide
  have hmod : hexChar n = hexChar (n % 16) := by simp [hexChar]
  exact hmod ▸ h (n % 16) (Nat.mod_lt n (by decide))

/-- **The text of a digest** consists of sixty-four lower-case hexadecimal digits. -/
theorem matchesExactly_hexdigest (data : Bytes) :
    matchesExactly ((range '0' '9').or (range 'a' 'f')) 64 (hexdigest data) = true := by
  rw [matchesExactly, length_hexdigest, Bool.and_eq_true]
  refine ⟨rfl, List.all_eq_true.mpr fun c hc ↦ ?_⟩
  obtain ⟨b, -, hb⟩ := List.mem_flatMap.mp hc
  simp only [hexByte, List.mem_cons, List.not_mem_nil, or_false] at hb
  rcases hb with rfl | rfl <;> exact hexChar_lowerHex _

theorem hexChar_inj {m n : ℕ} (h : hexChar m = hexChar n) : m % 16 = n % 16 := by
  have hall : ∀ i < 16, ∀ j < 16, hexChar i = hexChar j → i = j := by decide
  have hmod : ∀ k, hexChar k = hexChar (k % 16) := fun k ↦ by simp [hexChar]
  rw [hmod m, hmod n] at h
  exact hall _ (Nat.mod_lt m (by decide)) _ (Nat.mod_lt n (by decide)) h

theorem hexByte_injective : Function.Injective hexByte := by
  intro a b h
  rw [hexByte, hexByte, List.cons.injEq, List.cons.injEq] at h
  have hhigh := hexChar_inj h.1
  have hlow := hexChar_inj h.2.1
  have ha := a.toNat_lt
  have hb := b.toNat_lt
  refine UInt8.toNat_inj.mp ?_
  omega

theorem flatMap_hexByte_injective {l l' : List UInt8} (h : l.flatMap hexByte = l'.flatMap hexByte) :
    l = l' := by
  induction l generalizing l' with
  | nil =>
    rcases l' with _ | ⟨b, l'⟩
    · rfl
    · exact absurd h (by simp [hexByte])
  | cons a l ih =>
    rcases l' with _ | ⟨b, l'⟩
    · exact absurd h (by simp [hexByte])
    · rw [List.flatMap_cons, List.flatMap_cons] at h
      obtain ⟨hab, hrest⟩ := List.append_inj h rfl
      rw [hexByte_injective hab, ih hrest]

/-- **The text of a digest determines the digest.** -/
theorem sha256_eq_of_hexdigest {a b : Bytes} (h : hexdigest a = hexdigest b) :
    sha256 a = sha256 b :=
  ByteArray.ext (Array.toList_inj.mp (flatMap_hexByte_injective h))

/-- Two different byte strings with one digest. -/
def Collision (a b : Bytes) : Prop := a ≠ b ∧ sha256 a = sha256 b

end Py
