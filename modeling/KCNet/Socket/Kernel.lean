import KCNet.Socket.Address
import Mathlib.Data.Finset.Card
import Mathlib.Logic.Function.Basic

/-!
# The kernel's view of a process

Error numbers and the table of open descriptors. The two programs share these; each of them has
its own system calls.
-/

namespace KCNet

/-- The values of `errno` that matter to the programs. -/
inductive Errno where
  | EAGAIN
  | EWOULDBLOCK
  | EINTR
  | EBADF
  | EPIPE
  | ECONNRESET
  | ECONNABORTED
  | EMFILE
  | other (code : ℕ)
deriving DecidableEq, Repr

/-- What an open descriptor refers to. Descriptors that are no sockets of the program (the
standard streams, the log file) are files. -/
inductive Descriptor where
  | file
  | socket
  | listener
  | connection (peer : InAddr)
deriving DecidableEq, Repr

/-- The open descriptors of a process. -/
abbrev DescriptorTable := ℤ → Option Descriptor

/-- A number the kernel may hand out: it is no error code and not in use. -/
def DescriptorTable.unused (t : DescriptorTable) (fd : ℤ) : Bool := 0 ≤ fd && (t fd).isNone

/-- The descriptor is a connected socket. A negative number never is. -/
def DescriptorTable.connected (t : DescriptorTable) (fd : ℤ) : Bool :=
  match t fd with
  | some (.connection _) => 0 ≤ fd
  | _ => false

theorem DescriptorTable.unused_iff {t : DescriptorTable} {fd : ℤ} :
    t.unused fd = true ↔ 0 ≤ fd ∧ t fd = none := by
  simp [unused]

theorem DescriptorTable.connected_iff {t : DescriptorTable} {fd : ℤ} :
    t.connected fd = true ↔ 0 ≤ fd ∧ ∃ peer, t fd = some (.connection peer) := by
  unfold connected
  split
  · next peer h => simp [h]
  · next h =>
    simp only [Bool.false_eq_true, false_iff, not_and, not_exists]
    exact fun _ peer hp => h peer hp

/-- Install or remove a descriptor. -/
def DescriptorTable.set (t : DescriptorTable) (fd : ℤ) (d : Option Descriptor) : DescriptorTable :=
  Function.update t fd d

@[simp] theorem DescriptorTable.set_self (t : DescriptorTable) (fd : ℤ) (d : Option Descriptor) :
    t.set fd d fd = d := Function.update_self ..

theorem DescriptorTable.set_of_ne (t : DescriptorTable) {fd fd' : ℤ} (d : Option Descriptor)
    (h : fd' ≠ fd) : t.set fd d fd' = t fd' := Function.update_of_ne h ..

/-- Descriptors that are not among those of `P` leave fewer numbers below the limit `L` to them. -/
theorem length_add_card_le {fds : List ℤ} {L : ℕ} {P : ℕ → Prop} [DecidablePred P]
    (hnd : fds.Nodup) (hnew : ∀ fd ∈ fds, 0 ≤ fd ∧ fd < L ∧ ¬ P fd.toNat) :
    fds.length + ((Finset.range L).filter P).card ≤ L := by
  set mine : Finset ℕ := fds.toFinset.image Int.toNat
  have hmem {n : ℕ} (hn : n ∈ mine) : n < L ∧ ¬ P n := by
    obtain ⟨fd, hfd, rfl⟩ := Finset.mem_image.1 hn
    obtain ⟨h0, hlt, hP⟩ := hnew fd (List.mem_toFinset.1 hfd)
    exact ⟨by omega, hP⟩
  have hmine : mine.card = fds.length := by
    rw [Finset.card_image_of_injOn, List.toFinset_card_of_nodup hnd]
    intro a ha b hb hab
    have ha0 := (hnew a (List.mem_toFinset.1 ha)).1
    have hb0 := (hnew b (List.mem_toFinset.1 hb)).1
    rw [← Int.toNat_of_nonneg ha0, ← Int.toNat_of_nonneg hb0]
    exact congrArg Nat.cast hab
  have hdisjoint : Disjoint mine ((Finset.range L).filter P) :=
    Finset.disjoint_left.2 fun n hn hP => (hmem hn).2 (Finset.mem_filter.1 hP).2
  calc fds.length + ((Finset.range L).filter P).card
      = (mine ∪ (Finset.range L).filter P).card := by
        rw [Finset.card_union_of_disjoint hdisjoint, hmine]
    _ ≤ (Finset.range L).card :=
        Finset.card_le_card (Finset.union_subset
          (fun n hn => Finset.mem_range.2 (hmem hn).1) (Finset.filter_subset ..))
    _ = L := Finset.card_range L

/-- `EXIT_SUCCESS` and `EXIT_FAILURE`. -/
def exitSuccess : ℤ := 0
def exitFailure : ℤ := 1

end KCNet
