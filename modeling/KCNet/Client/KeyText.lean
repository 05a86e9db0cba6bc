import KCNet.Client.RsaTest
import KCNet.Client.TcpClient

/-!
# Keys and messages as base64 text

`EncodeKeyBase64` and `DecodeKeyBase64` of `TcpClient/src/util/tcp_client.cpp`, and what the text
printed by `PublicKeyTesting` stands for. Both encode as many bytes as a pointer has.
-/

namespace KCNet.Client

open Interaction

def decodedText : Bytes := ascii "Decoded text: "

def encodedText : Bytes := ascii "Encoded text: "

/-- `DecodeKeyBase64` -/
def decodeKeyBase64 (text : Bytes) : Sys Unit :=
  match Base64.fromBase64 (cString text) with
  | .ok decoded => logOutput (decodedText ++ decoded)
  | .error what => throw (.runtimeError what)

/-- `EncodeKeyBase64`. The size is that of the pointer `text`. -/
def encodeKeyBase64 (mem : Memory) (text : ℕ) : Sys Unit :=
  logOutput (encodedText ++ toBase64 mem text sizeofPointer)

/-- `DecodeKeyBase64` prints the key when it is given the text that `EncodeKeyBase64` prints. -/
def Restored (mem : Memory) (text : ℕ) (key : Bytes) : Prop :=
  ∃ encoded, encodeKeyBase64 mem text = logOutput (encodedText ++ encoded) ∧
    decodeKeyBase64 (encoded ++ [0]) = logOutput (decodedText ++ key)

/-- The encrypted message: what `EVP_SealUpdate` and `EVP_SealFinal` have handed out. -/
def sealed : List (Event RsaOp RsaOp.Res) → Bytes
  | [] => []
  | ⟨.sealUpdate _, block⟩ :: h => sealed h ++ block
  | ⟨.sealFinal, final⟩ :: h => sealed h ++ final
  | _ :: h => sealed h

/-- The texts on the standard output, the latest first. -/
def printed : List (Event RsaOp RsaOp.Res) → List Bytes
  | [] => []
  | ⟨.stdout text, _⟩ :: h => text :: printed h
  | _ :: h => printed h

/-! ## What is encoded -/

@[simp] theorem Memory.load_length (mem : Memory) (p n : ℕ) : (mem.load p n).length = n := by
  simp [load]

/-- What has been written is read again if the lengths agree, and only then. -/
theorem Memory.load_store_eq_iff (mem : Memory) (p n : ℕ) (b : Bytes) :
    (mem.store p b).load p n = b ↔ b.length = n := by
  constructor
  · intro h
    rw [← h, load_length]
  · rintro rfl
    apply List.ext_getElem (load_length ..)
    intro i _ hi
    simp only [load, List.getElem_map, List.getElem_range]
    exact store_add mem hi

/-- The library keeps what it is given. -/
theorem fromBase64_toBase64 (mem : Memory) (data n : ℕ) :
    Base64.fromBase64 (toBase64 mem data n) = .ok (mem.load data n) :=
  Base64.decodeInto_encodeInto _

/-- The text stands for the bytes `b` written at the address if `b` has the length of a pointer. -/
theorem fromBase64_eq_iff (mem : Memory) (p : ℕ) (b : Bytes) :
    Base64.fromBase64 (toBase64 (mem.store p b) p sizeofPointer) = .ok b ↔
      b.length = sizeofPointer := by
  rw [fromBase64_toBase64, Except.ok.injEq, Memory.load_store_eq_iff]

theorem cString_encoded (b : Bytes) :
    cString (Base64.encodeInto b ++ [0]) = Base64.encodeInto b := by
  have hall : ∀ c ∈ Base64.encodeInto b, (c != 0) = true := fun c hc =>
    bne_iff_ne.2 fun h => Base64.zero_notMem_encodeInto b (h ▸ hc)
  rw [cString, List.takeWhile_append_of_pos hall]
  exact List.append_nil _

/-! ## The two helpers -/

theorem logOutput_injective : Function.Injective logOutput := by
  intro a b h
  have hop := SysOp.stdout.inj (Program.call.inj h).1
  exact List.append_cancel_left (List.append_cancel_right hop)

/-- `DecodeKeyBase64` prints whatever has been encoded. -/
theorem decodeKeyBase64_encoded (b : Bytes) :
    decodeKeyBase64 (Base64.encodeInto b ++ [0]) = logOutput (decodedText ++ b) := by
  rw [decodeKeyBase64, cString_encoded, Base64.fromBase64, Base64.decodeInto_encodeInto]

/-- What is restored is as long as a pointer. -/
theorem restored_iff (mem : Memory) (text : ℕ) (key : Bytes) :
    Restored (mem.store text key) text key ↔ key.length = sizeofPointer := by
  rw [← Memory.load_store_eq_iff mem text]
  constructor
  · rintro ⟨encoded, hencode, hdecode⟩
    have henc := List.append_cancel_left (logOutput_injective hencode)
    rw [← henc, toBase64, decodeKeyBase64_encoded] at hdecode
    exact List.append_cancel_left (logOutput_injective hdecode)
  · intro h
    refine ⟨_, rfl, ?_⟩
    rw [toBase64, decodeKeyBase64_encoded, h]

/-! ## The printed message -/

theorem encryptedLine_injective : Function.Injective encryptedLine := by
  intro a b h
  exact List.append_cancel_left (List.append_cancel_right h)

/-- The message is printed as the first bytes of its object. -/
theorem openAndPrint_ensures (ek iv : Bytes) (mem : Memory) (len : ℕ) (s : RsaState) :
    (RsaTest.openAndPrint ek iv mem len).Ensures rsaEnv.recorded (fun _ _ _ => True)
      (fun _ s' => sealed s'.history = sealed s.history ∧ printed s'.history =
        encryptedLine (toBase64 mem 0 sizeofPointer) :: printed s.history) s := by
  simp only [RsaTest.openAndPrint, Program.ensures_bind, Program.ensures_perform,
    Env.recorded_allowed, Env.recorded_next, rsaEnv_allowed, true_and, forall_const]
  intro _ _ _ _ _
  exact ⟨rfl, rfl⟩

/-- The encrypted message stands at the front of the object that is printed. -/
theorem publicKeyTesting_ensures :
    RsaTest.publicKeyTesting.Ensures rsaEnv.recorded (fun _ _ _ => True)
      (fun _ s => printed s.history = [] ∨ ∃ mem : Memory, printed s.history =
        [encryptedLine (toBase64 (mem.store 0 (sealed s.history)) 0 sizeofPointer)])
      ⟨(), []⟩ := by
  simp only [RsaTest.publicKeyTesting, Program.ensures_bind, Program.ensures_perform,
    Env.recorded_allowed, Env.recorded_next, rsaEnv_allowed, true_and, forall_const]
  rintro _ ⟨ek, iv⟩ mem block final found
  rw [Program.ensures_ite]
  constructor
  · intro _
    simp only [Program.ensures_bind, Program.ensures_perform, Env.recorded_allowed,
      Env.recorded_next, rsaEnv_allowed, true_and, forall_const]
    intro readable
    rw [Program.ensures_ite]
    constructor
    · intro _
      refine Program.Ensures.post (openAndPrint_ensures _ _ _ _ _) ?_
      rintro _ s ⟨hsealed, hprinted⟩
      -- the two pieces stand one after the other
      have hstore := mem.store_store 0 block final
      rw [Nat.zero_add] at hstore
      exact Or.inr ⟨mem, by rw [hsealed, hprinted, hstore]; rfl⟩
    · exact fun _ _ _ => ⟨trivial, Or.inl rfl⟩
  · exact fun _ _ _ => ⟨trivial, Or.inl rfl⟩

/-- The helpers give back what they were given if and only if it is as long as a pointer: the key
text that is encoded and decoded, whatever memory holds around it, and the encrypted message that
`PublicKeyTesting` prints at its end. -/
theorem base64_covers_iff (mem : Memory) (text : ℕ) (key : Bytes) (s : RsaState) (encoded : Bytes) :
    (Restored (mem.store text key) text key ↔ key.length = sizeofPointer) ∧
      (rsaEnv.recorded.Steps (⟨(), []⟩, RsaTest.publicKeyTesting) (s, .done ()) →
        encryptedLine encoded ∈ printed s.history →
        (Base64.fromBase64 encoded = .ok (sealed s.history) ↔
          (sealed s.history).length = sizeofPointer)) := by
  refine ⟨restored_iff .., fun hs hmem => ?_⟩
  rcases publicKeyTesting_ensures.steps hs with hnone | ⟨mem, hone⟩
  · rw [hnone] at hmem
    cases hmem
  · rw [hone, List.mem_singleton] at hmem
    rw [encryptedLine_injective hmem, fromBase64_eq_iff]

/-- A run in which OpenSSL hands out the message in the given pieces and the key file is found. -/
def sealing (block final : Bytes) (_ : RsaState) : (o : RsaOp) → Option o.Res
  | .sealInit => some ([], [])
  | .malloc _ => some fun _ => 0
  | .sealUpdate _ => some block
  | .sealFinal => some final
  | .fopen _ | .readPrivateKey => some true
  | .openUpdate encrypted => some encrypted
  | .openFinal => some []
  | .createKeys | .openInit .. | .stdout _ | .stderr _ => some ()

def runSealing (block final : Bytes) : RsaState × Program RsaOp RsaOp.Res Unit :=
  rsaEnv.recorded.run (rsaEnv.recorded.checked (sealing block final)) RsaTest.publicKeyTesting
    ⟨(), []⟩

/-- The pieces that AES in blocks of 16 bytes gives for the text: it is 313 bytes with its NUL. -/
def runBlocks : RsaState := (runSealing (List.replicate 304 1) (List.replicate 16 2)).1

theorem base64_covers_iff_eight :
    Restored (Memory.store (fun _ => 0) 4096 (ascii "8 bytes.")) 4096 (ascii "8 bytes.") ∧
      Base64.fromBase64 (ascii "AQEBAQEBAQE=") ≠ .ok (sealed runBlocks.history) := by
  have hs : rsaEnv.recorded.Steps (⟨(), []⟩, RsaTest.publicKeyTesting) (runBlocks, .done ()) :=
    rsaEnv.recorded.run_checked_steps (sealing (List.replicate 304 1) (List.replicate 16 2)) _ _
  have hcovers := base64_covers_iff (fun _ => 0) 4096 (ascii "8 bytes.") runBlocks
    (ascii "AQEBAQEBAQE=")
  have hprinted : encryptedLine (ascii "AQEBAQEBAQE=") ∈ printed runBlocks.history := by
    decide +kernel
  have hlen : (sealed runBlocks.history).length ≠ sizeofPointer := by decide +kernel
  exact ⟨hcovers.1.2 rfl, fun h => hlen ((hcovers.2 hs hprinted).1 h)⟩

/-- A key of ten bytes loses two of them, and a message of 320 bytes all but eight. -/
theorem base64_not_covered :
    ¬ Restored (Memory.store (fun _ => 0) 4096 (ascii "Secret key")) 4096 (ascii "Secret key") ∧
      printed runBlocks.history = [encryptedLine (ascii "AQEBAQEBAQE=")] ∧
      Base64.fromBase64 (ascii "AQEBAQEBAQE=") = .ok ((sealed runBlocks.history).take 8) ∧
      (sealed runBlocks.history).length = 320 := by
  refine ⟨fun h => absurd ((restored_iff ..).1 h) (by decide), ?_, ?_, ?_⟩
  · decide +kernel
  · rfl
  · decide +kernel

end KCNet.Client
