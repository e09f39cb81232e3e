/-
  A SIGNATURE SCHEME TO RUN NODES WITH.

  Keys and signatures have the lengths of ML-DSA-65, and a signature is accepted exactly under the key
  and for the message it was made with: it spells out both.  It is no protection against anybody who
  does not play by the rules; runs of honest parties are the same under it as under the real scheme.
  The hash is BLAKE3 itself.  `briefScheme` is the same with short keys and signatures, for runs in
  which these travel in blocks.
-/
import SuwappuDag.Node.Ingress

namespace SuwappuDag.Node

open Words Consensus Execution

/-- The head of the key, the 32 bytes of the message, and zeros. -/
def echoSign (publicKey msg : List UInt8) : List UInt8 :=
  publicKey.take 32 ++ msg.take 32 ++ List.replicate 3245 0

def echoScheme : Crypto where
  blake3 := Blake3.hash
  publicKeyFromBytes publicKey := publicKey.length = 1952
  signatureFromBytes signature := signature.length = 3309
  verify msg signature publicKey := signature = echoSign publicKey msg

/-- The key of an authority. -/
def echoKey (id : AuthorityId) : List UInt8 := List.replicate 1952 (UInt8.ofNat id.toNat)

/-- A certificate whose hash is known, signed by its author. -/
def signed (p : CertHash × Certificate) : Certificate :=
  { p.2 with signature := echoSign (echoKey p.2.author) (beBytes 32 p.1.toNat) }

/-- The block without intents behind a certificate. -/
def emptyBlock (p : CertHash × Certificate) : BlockPayload :=
  ⟨emptyPayload, p.2.author, p.2.round, p.1, [], []⟩

/-- A manifest entry with the least stakes. -/
def echoValidator (id : AuthorityId) : ManifestValidator := ⟨id, 100000, 25000, echoKey id⟩

/-- A network of the authorities `0 .. n-1`. -/
def echoManifest (n : Nat) : GenesisManifest :=
  ⟨List.replicate 32 7, (List.range n).map fun i => echoValidator (UInt32.ofNat i), [], 0⟩

def briefScheme : Crypto where
  blake3 := Blake3.hash
  publicKeyFromBytes publicKey := publicKey.length = 4
  signatureFromBytes signature := signature.length = 36
  verify msg signature publicKey := signature = publicKey ++ msg

def briefKey (id : AuthorityId) : List UInt8 := beBytes 4 id.toNat

/-- A certificate whose hash is known, signed by its author. -/
def briefSigned (p : CertHash × Certificate) : Certificate :=
  { p.2 with signature := briefKey p.2.author ++ beBytes 32 p.1.toNat }

/-- The authorities 0 and 1, three quarters of the validator stake with authority 1, and a new epoch
    every round. -/
def briefManifest : GenesisManifest :=
  ⟨List.replicate 32 7, [⟨0, 100000, 25000, briefKey 0⟩, ⟨1, 100000, 75000, briefKey 1⟩], [], 1⟩

/-- The signature of an authority on an intent. -/
def briefSign (id : AuthorityId) (intent : Intent) : List UInt8 :=
  briefKey id ++ beBytes 32 (intentSigningDigest briefScheme briefManifest.networkId intent).toNat

/-- The envelope of an intent about `candidate`, signed by the authorities 0 and 1 and by the
    candidate. -/
def briefEnvelope (candidate : AuthorityId) (intent : Intent) : GovAuth where
  sponsorPubkeyHash := Blake3.hash (briefKey 0)
  sponsorSignature := briefSign 0 intent
  coSignerPubkeyHash := Blake3.hash (briefKey 1)
  coSignature := briefSign 1 intent
  candidatePopSignature := briefSign candidate intent

/-- A node that has received these messages from configured peers. -/
def receiveAll (manifest : GenesisManifest) (selfId : AuthorityId) (msgs : List WireMessage) : State :=
  runActions echoScheme (msgs.map (.receive false)) (State.new echoScheme manifest selfId)

end SuwappuDag.Node
