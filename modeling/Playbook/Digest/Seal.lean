import Playbook.Digest.Sha256
import Playbook.Text.Blank
import Playbook.Text.Hex

/-!
# `Playbook.Digest.Seal` — shared-secret signatures

A `Scheme` is a digest together with a keyed digest. Manifests and event batches are sealed under
any scheme; `Scheme.standard` is SHA-256 with its HMAC. Nothing else is ever assumed of a scheme
than that both functions are given.

## Contents
- **Keyed digest.** `hmac`.
- **Schemes.** `Scheme`, `Scheme.standard`, and their hexadecimal forms `Scheme.hash` and
  `Scheme.sign`.
- **Checking.** `Scheme.verify` accepts either case and blanks around a signature.
-/

namespace Playbook.Digest

/-- Bytes combined with a repeated byte. -/
def maskWith (mask : UInt8) (bytes : List UInt8) : List UInt8 :=
  bytes.map (· ^^^ mask)

/-- HMAC over SHA-256: the key, hashed if it is longer than a block, is filled up to one block of
    64 bytes and masked once for the inner and once for the outer digest. -/
def hmac (key message : List UInt8) : List UInt8 :=
  let short := if key.length > 64 then Sha256.digest key else key
  let block := short ++ List.replicate (64 - short.length) 0
  Sha256.digest (maskWith 0x5c block ++ Sha256.digest (maskWith 0x36 block ++ message))

/-- A digest and a keyed digest. -/
structure Scheme where
  /-- The digest of a message. -/
  digest : List UInt8 → List UInt8
  /-- The digest of a message under a key, key first. -/
  keyed : List UInt8 → List UInt8 → List UInt8

namespace Scheme

/-- SHA-256 and its HMAC. -/
def standard : Scheme where
  digest := Sha256.digest
  keyed := hmac

/-- The bytes of a string. -/
def bytesOf (s : String) : List UInt8 :=
  s.toUTF8.toList

/-- The digest of a string, in hexadecimal digits. -/
def hash (scheme : Scheme) (text : String) : String :=
  String.ofList (Text.Hex.encode (scheme.digest (bytesOf text)))

/-- The signature of a string under a secret, in hexadecimal digits. -/
def sign (scheme : Scheme) (secret text : String) : String :=
  String.ofList (Text.Hex.encode (scheme.keyed (bytesOf secret) (bytesOf text)))

/-- Whether a signature is that of the text under the secret. Digits of either case count, and so do
    blanks around them. -/
def verify (scheme : Scheme) (secret text signature : String) : Bool :=
  Text.Hex.decode (Text.trim signature.toList)
    == some (scheme.keyed (bytesOf secret) (bytesOf text))

end Scheme

end Playbook.Digest
