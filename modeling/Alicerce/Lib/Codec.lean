import Mathlib.Tactic.Basic

/-!
# Exact codecs

An encoder that may refuse a value and a decoder that may refuse a code are *exact* when they are
two readings of one relation: a code decodes to a value precisely when the value encodes to it.
This is at once the round trip, and the absence of second spellings.

* `Codec` is an encoder and a decoder together with the law that makes them exact.
* `Codec.encode_injective` is what is read off it about two values with one encoding.
-/

set_option autoImplicit false

namespace Lib

/-- An encoder and a decoder for one relation between values and codes. -/
structure Codec (ε α β : Type) where
  /-- Encode, or refuse. -/
  encode : α → Except ε β
  /-- Decode, or refuse. -/
  decode : β → Except ε α
  /-- A code is accepted as the value it is the encoding of, and only so. -/
  exact : ∀ {a : α} {b : β}, decode b = .ok a ↔ encode a = .ok b

namespace Codec

variable {ε α β : Type} (c : Codec ε α β) {a a' : α} {b b' : β}

/-- Two values with one encoding are the same. -/
theorem encode_injective (h : c.encode a = .ok b) (h' : c.encode a' = .ok b) : a = a' :=
  Except.ok.inj ((c.exact.mpr h).symm.trans (c.exact.mpr h'))

end Codec

end Lib
