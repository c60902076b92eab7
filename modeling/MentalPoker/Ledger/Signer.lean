/-
Signing: a keyed hash over the message. It stands in for a wallet; nothing in the protocol looks at
signatures.
-/
import MentalPoker.Hash.Blake2
import MentalPoker.Ledger.Basic

namespace MentalPoker

structure Signer where
  address : Address
  key : Bytes
deriving DecidableEq

namespace Signer

/-- The signer whose key is the digest of its address. -/
def ofAddress (address : Address) : Signer :=
  ⟨address, Blake2.blake2s256 (Bytes.ofString address.name)⟩

/-- The digest of key and message. -/
def sign (signer : Signer) (message : Bytes) : Bytes := Blake2.blake2s256 (signer.key ++ message)

end Signer

end MentalPoker
