import Mathlib.Data.Finset.Card

/-!
The identifiers that every modelled component passes around. A block identifier is the
32-byte digest of `types/block_identifier.rs`. A thread identifier is an opaque tag that the
modelled code only compares. `BlockSeqNo` wraps a `u32` in the source; the modelled code
compares sequence numbers and divides them, and never adds to them, so here they are natural
numbers.
-/

namespace AckiNacki

structure BlockIdentifier where
  bytes : List UInt8
  length_eq : bytes.length = 32
  deriving DecidableEq

def BlockIdentifier.ofByte (byte : UInt8) : BlockIdentifier :=
  ⟨List.replicate 32 byte, List.length_replicate 32 byte⟩

structure ThreadIdentifier where
  tag : Nat
  deriving DecidableEq

abbrev SignerIndex := UInt16

abbrev BlockSeqNo := Nat

/-- `ForkResolution`. The modelled code reads only the winner; the losers and the fork root are
left out. -/
structure ForkResolution where
  winner : BlockIdentifier
  deriving DecidableEq

end AckiNacki
