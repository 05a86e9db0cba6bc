import KCNet.Interaction.Throwing
import KCNet.Socket.Kernel

/-!
# The random message of the client

`TcpClient/src/urandom_test.h` and `urandom_test.cpp`. This file is compiled without
`WXWIDGETS_GUI`, which only `defines.h` switches on, so its errors go to `perror`.

## Main definitions

- `SysOp` — the operations of the client process and their answers
- `Urandom.readExact`, `Urandom.randomPasswordCounts`, `Urandom.generateRandom`
-/

namespace KCNet.Client

open Interaction

/-- What the client process asks of its surroundings. -/
inductive SysOp where
  /-- `open("/dev/urandom", O_RDONLY)` -/
  | openUrandom
  | read (fd : ℤ) (len : ℕ)
  | close (fd : ℤ)
  | socket
  /-- `inet_pton` succeeds. -/
  | inetPton (serverIp : Bytes)
  | connect (fd : ℤ) (port : ℕ)
  | send (fd : ℤ) (buf : Bytes)
  | recv (fd : ℤ) (len : ℕ)
  | stdout (text : Bytes)
  | perror (text : Bytes)
  | messageBox (text : Bytes)
  | exit (code : ℤ)
deriving DecidableEq

abbrev SysOp.Res : SysOp → Type
  | .openUrandom => Except Errno ℤ
  | .read .. => Except Errno Bytes
  | .socket => Except Errno ℤ
  | .inetPton _ => Bool
  | .connect .. => Except Errno Unit
  | .send .. => Except Errno ℕ
  | .recv .. => Except Errno Bytes
  | .exit _ => Empty
  | _ => Unit

/-- The exceptions that the client throws, with their texts. -/
inductive Thrown where
  | runtimeError (what : Bytes)
  | invalidArgument (what : Bytes)
deriving DecidableEq, Repr

abbrev Sys := Throwing SysOp SysOp.Res Thrown

namespace Sys

abbrev openUrandom : Sys (Except Errno ℤ) := invoke SysOp.openUrandom
abbrev read (fd : ℤ) (len : ℕ) : Sys (Except Errno Bytes) := invoke (SysOp.read fd len)
abbrev close (fd : ℤ) : Sys Unit := invoke (SysOp.close fd)
abbrev socket : Sys (Except Errno ℤ) := invoke SysOp.socket
abbrev inetPton (serverIp : Bytes) : Sys Bool := invoke (SysOp.inetPton serverIp)
abbrev connect (fd : ℤ) (port : ℕ) : Sys (Except Errno Unit) := invoke (SysOp.connect fd port)
abbrev send (fd : ℤ) (buf : Bytes) : Sys (Except Errno ℕ) := invoke (SysOp.send fd buf)
abbrev recv (fd : ℤ) (len : ℕ) : Sys (Except Errno Bytes) := invoke (SysOp.recv fd len)
abbrev stdout (text : Bytes) : Sys Unit := invoke (SysOp.stdout text)
abbrev perror (text : Bytes) : Sys Unit := invoke (SysOp.perror text)
abbrev messageBox (text : Bytes) : Sys Unit := invoke (SysOp.messageBox text)

/-- A call that does not return. -/
abbrev exit {α : Type} (code : ℤ) : Sys α := ExceptT.mk (.call (SysOp.exit code) Empty.elim)

end Sys

def openFailed : Bytes := ascii "open(/dev/urandom) failed"
def readFailed : Bytes := ascii "read(/dev/urandom) failed"

/-- A `uint64_t` in memory, the lowest byte first. -/
def uint64OfBytes (bytes : Bytes) : ℕ := bytes.foldr (fun b x => b.toNat + 256 * x) 0

/-- `std::swap(a[i], a[j])` -/
def swapAt (a : Bytes) (i j : ℕ) : Bytes := (a.set i (a.getD j 0)).set j (a.getD i 0)

/-- Each byte selects a character of the alphabet. -/
def lookUp (alphabet buf : Bytes) : Bytes :=
  buf.map fun b => alphabet.getD (b.toNat % alphabet.length) 0

/-- An object of the class `Urandom`. -/
structure Urandom where
  fd : ℤ
deriving DecidableEq, Repr

namespace Urandom

/-- `Urandom::Urandom` -/
def construct : Sys Urandom := do
  match ← Sys.openUrandom with
  | .ok fd => return ⟨fd⟩
  | .error _ => throw (.runtimeError openFailed)

/-- `Urandom::~Urandom` -/
def destruct (rng : Urandom) : Program SysOp SysOp.Res Unit :=
  if 0 ≤ rng.fd then perform (SysOp.close rng.fd) else pure ()

/-- The loop of `read_exact`. Every successful `read` delivers at least one byte, so the loop is
entered at most `gas` times when `gas` bytes are missing. -/
def readExactLoop (fd : ℤ) (n : ℕ) : ℕ → Bytes → Sys Bytes
  | 0, dst => return dst
  | gas + 1, dst =>
    if dst.length < n then do
      match ← Sys.read fd (n - dst.length) with
      | .ok r =>
        if r = [] then
          throw (.runtimeError readFailed)
        else
          readExactLoop fd n gas (dst ++ r)
      | .error _ => throw (.runtimeError readFailed)
    else
      return dst

/-- `Urandom::read_exact` -/
def readExact (rng : Urandom) (n : ℕ) : Sys Bytes := readExactLoop rng.fd n n []

/-- `Urandom::random_from_alphabet` -/
def randomFromAlphabet (rng : Urandom) (count : ℕ) (alphabet : Bytes) : Sys Bytes := do
  if alphabet = [] then
    throw (.invalidArgument (ascii "alphabet must not be empty"))
  else
    let buf ← rng.readExact count
    return lookUp alphabet buf

/-- The shuffle of `random_password_counts`, for the indices from `i` down to 2. -/
def shuffle (rng : Urandom) : ℕ → Bytes → Sys Bytes
  | 0, a => return a
  | 1, a => return a
  | i + 2, a => do
    let x ← rng.readExact 8
    let j := uint64OfBytes x % (i + 2)
    shuffle rng (i + 1) (swapAt a (i + 1) j)

def digits : Bytes := ascii "0123456789"

def letters : Bytes := ascii "ABCDEFGHIJKLMNOPQRSTUVWXYZabcdefghijklmnopqrstuvwxyz"

def symbols : Bytes := ascii "!@#$%^&*()-_=+[]\x7b\x7d;:,.?"

/-- `Urandom::random_password_counts` -/
def randomPasswordCounts (rng : Urandom) (numNumbers numLetters numSymbols : ℕ) : Sys Bytes := do
  let a ← rng.randomFromAlphabet numNumbers digits
  let b ← rng.randomFromAlphabet numLetters letters
  let c ← rng.randomFromAlphabet numSymbols symbols
  rng.shuffle (a ++ b ++ c).length (a ++ b ++ c)

/-- `Urandom::urandom_string` -/
def urandomString (length : ℕ) (alphabet : Bytes) : Sys Bytes := do
  if alphabet = [] then
    return []
  else
    match ← Sys.openUrandom with
    | .error _ => throw (.runtimeError openFailed)
    | .ok fd =>
      let got ← Sys.read fd length
      -- closed before the outcome of the read is looked at
      Sys.close fd
      match got with
      | .error _ => throw (.runtimeError readFailed)
      | .ok buf =>
        if buf.length = length then
          return lookUp alphabet buf
        else
          throw (.runtimeError readFailed)

def lowerAlphabet : Bytes := ascii "abcdefghijklmnopqrstuvwxyz"

def upperAlphabet : Bytes := ascii "ABCDEFGHIJKLMNOPQRSTUVWXYZ"

def allNumAlphabet : Bytes := lowerAlphabet ++ upperAlphabet ++ digits

def allSymbolAlphabet : Bytes :=
  allNumAlphabet ++ ascii "!@#$%^&*()_+-=\x7b\x7d[]|'';,./<>?"

/-- `RANDOM_BYTES` -/
def randomBytes : ℕ := 16

def failedToOpen : Bytes := ascii "Failed to open /dev/urandom"
def failedToRead : Bytes := ascii "Failed to read random bytes"

/-- `GenerateRandom`, once its own bytes have been read. What is built from them, and the five
strings, is not used. -/
def generatePassword (numNumbers numLetters numSymbols : ℕ) : Sys Bytes := do
  let _lower ← urandomString 12 lowerAlphabet
  let _upper ← urandomString 12 upperAlphabet
  let _digits ← urandomString 12 digits
  let _allnum ← urandomString 16 allNumAlphabet
  let _allsymbol ← urandomString 16 allSymbolAlphabet
  inScope construct destruct fun rng =>
    rng.randomPasswordCounts numNumbers numLetters numSymbols

/-- `Urandom::GenerateRandom`. Its last `return` stands before the `close` of its descriptor. -/
def generateRandom (numNumbers numLetters numSymbols : ℕ) : Sys Bytes := do
  match ← Sys.openUrandom with
  | .error _ =>
    Sys.perror failedToOpen
    return failedToOpen
  | .ok fd =>
    let got ← Sys.read fd randomBytes
    if got.toOption.map List.length = some randomBytes then
      -- `fd` is not closed on this way out, nor when something throws
      generatePassword numNumbers numLetters numSymbols
    else
      Sys.perror failedToRead
      Sys.close fd
      return failedToRead

end Urandom

end KCNet.Client
