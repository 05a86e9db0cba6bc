import KCNet.Client.ReadExact
import KCNet.Lib.Base64

/-!
# The RSA test

`RsaTest::PublicKeyTesting` of `TcpClient/src/util/rsa_test.cpp`. OpenSSL, the heap and the files
answer it as they like. Each object on the heap is a memory of its own, and the handles of OpenSSL
are left out.
-/

namespace KCNet.Client

open Interaction

/-- `sizeof` of a pointer -/
def sizeofPointer : ℕ := 8

/-- The `n` bytes from the address `p` on. -/
def Memory.load (mem : Memory) (p n : ℕ) : Bytes := (List.range n).map fun i => mem (p + i)

/-- `base64::to_base64` -/
def toBase64 (mem : Memory) (data n : ℕ) : Bytes := Base64.encodeInto (mem.load data n)

/-- What `PublicKeyTesting` asks of its surroundings. -/
inductive RsaOp where
  /-- The key pair is generated, written as PEM and read back. -/
  | createKeys
  /-- `EVP_SealInit`, which chooses the secret and hands out `ek` and `iv` -/
  | sealInit
  /-- `malloc`, which hands out an object with some content -/
  | malloc (size : ℕ)
  /-- `EVP_SealUpdate`, which hands out a part of the encrypted message -/
  | sealUpdate (message : Bytes)
  /-- `EVP_SealFinal`, which hands out the rest -/
  | sealFinal
  /-- `fopen` for reading succeeds. -/
  | fopen (path : Bytes)
  /-- `PEM_read_PrivateKey` succeeds. -/
  | readPrivateKey
  | openInit (ek iv : Bytes)
  | openUpdate (encrypted : Bytes)
  | openFinal
  | stdout (text : Bytes)
  | stderr (text : Bytes)

abbrev RsaOp.Res : RsaOp → Type
  | .sealInit => Bytes × Bytes
  | .malloc _ => Memory
  | .sealUpdate _ | .sealFinal | .openUpdate _ | .openFinal => Bytes
  | .fopen _ | .readPrivateKey => Bool
  | _ => Unit

/-- `EVP_MAX_IV_LENGTH` -/
def evpMaxIvLength : ℕ := 16

/-- The text that is encrypted. -/
def sealedText : Bytes := ascii <|
  "You can include the standard headers in any order, a standard header more than once, or two " ++
  "or more standard headers that define the same macro or the same type. Do not include a " ++
  "standard header within a declaration. Do not define macros that have the same names as " ++
  "keywords before you include a standard header."

def privateKeyFile : Bytes := ascii "server.key"

/-- The line at the end of the test. -/
def encryptedLine (encodedMessage : Bytes) : Bytes :=
  ascii "Encrypted message encoded with base64: " ++ encodedMessage ++ ascii "\n"

namespace RsaTest

/-- The encrypted message is opened again and printed. What opening it gives is not used. -/
def openAndPrint (ek iv : Bytes) (encryptedMessage : Memory) (encryptedMessageLen : ℕ) :
    Program RsaOp RsaOp.Res Unit := do
  perform (RsaOp.openInit ek iv)
  let _decryptedMessage ← perform (RsaOp.malloc (encryptedMessageLen + evpMaxIvLength))
  let _block ← perform (RsaOp.openUpdate (encryptedMessage.load 0 encryptedMessageLen))
  let _final ← perform RsaOp.openFinal
  -- the size is that of the pointer `encryptedMessage`
  perform (RsaOp.stdout (encryptedLine (toBase64 encryptedMessage 0 sizeofPointer)))

/-- `RsaTest::PublicKeyTesting` -/
def publicKeyTesting : Program RsaOp RsaOp.Res Unit := do
  perform RsaOp.createKeys
  let (ek, iv) ← perform RsaOp.sealInit
  let message := sealedText ++ [0]
  let encryptedMessage ← perform (RsaOp.malloc (message.length + evpMaxIvLength))
  let block ← perform (RsaOp.sealUpdate message)
  let final ← perform RsaOp.sealFinal
  let encryptedMessage := (encryptedMessage.store 0 block).store block.length final
  let encryptedMessageLen := block.length + final.length
  if ← perform (RsaOp.fopen privateKeyFile) then
    if ← perform RsaOp.readPrivateKey then
      openAndPrint ek iv encryptedMessage encryptedMessageLen
    else
      perform (RsaOp.stderr (ascii "Failed to read private key\n"))
  else
    perform (RsaOp.stderr (ascii "RSA Private key: " ++ privateKeyFile ++ ascii " not found.\n"))

end RsaTest

/-- Surroundings in which everything may happen. -/
def rsaEnv : Env RsaOp RsaOp.Res Unit where
  allowed _ _ _ := true
  next _ _ _ := ()

@[simp] theorem rsaEnv_allowed (w : Unit) (o : RsaOp) (r : o.Res) :
    rsaEnv.allowed w o r = true := rfl

abbrev RsaState := Env.Recorded RsaOp RsaOp.Res Unit

end KCNet.Client
