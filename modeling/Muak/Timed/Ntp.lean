import Mathlib.Algebra.Group.Int.Defs
import Mathlib.Algebra.Group.Nat.Defs
import Mathlib.Tactic.SplitIfs

/-!
# Setting the clock

`services/timed/src/ntp`: a server is asked for the time, and the clock is set to what it answers.

* `Packet.Checked`: the clock is stepped for a reply of a synchronized server and no other, to the
  time that its timestamp denotes (`Packet.denotes`).
* `checked_iff`: only the seconds are looked at, so this holds if they are behind the Unix epoch
  exactly when the rest of the reply is right.
* `unsynchronized_accepted`: a kiss-o'-death with a time is obeyed, a time after 2036 is refused.
-/

namespace Muak.Timed

/-- A time of the clock. -/
structure Timespec where
  sec : ℤ
  nsec : ℤ
  deriving DecidableEq

/-- A packet of 48 bytes. -/
abbrev Packet := Fin 48 → UInt8

namespace Packet

def ntpEpochOffset : ℕ := 2208988800

variable (packet : Packet)

/-- `u32::from_be_bytes`. -/
def fromBeBytes (a b c d : UInt8) : ℕ :=
  ((a.toNat * 256 + b.toNat) * 256 + c.toNat) * 256 + d.toNat

/-- The transmit timestamp. -/
def secs : ℕ := fromBeBytes (packet 40) (packet 41) (packet 42) (packet 43)

def frac : ℕ := fromBeBytes (packet 44) (packet 45) (packet 46) (packet 47)

def parseResponse : Except String Timespec :=
  if packet.secs = 0 then
    .error "Server returned zero timestamp (kiss-o'-death or unsynchronized)"
  else if packet.secs < ntpEpochOffset then .error "NTP timestamp before Unix epoch"
  else .ok ⟨(packet.secs - ntpEpochOffset : ℕ), (packet.frac * 1000000000 / 2 ^ 32 : ℕ)⟩

/-- The time that the clock is stepped to, if it is, and the size of the step. The socket has given
`received` bytes, and the clock was at `before`. -/
def sync (received : ℕ) (before : Timespec) (settime : Timespec → Except String Unit) :
    Option Timespec × Except String ℕ :=
  if received < 48 then
    (none, .error ("Received truncated NTP response (" ++ toString received ++
      " bytes, expected 48)"))
  else
    match packet.parseResponse with
    | .error message => (none, .error message)
    | .ok serverTime =>
      (some serverTime, (settime serverTime).map fun _ => (serverTime.sec - before.sec).natAbs)

/-! ## What a reply means -/

/-- A reply in server mode from a synchronized server of a stratum that exists, with a time. -/
def Valid : Prop :=
  packet 0 &&& 7 = 4 ∧ packet 0 >>> 6 ≠ 3 ∧ 1 ≤ packet 1 ∧ packet 1 ≤ 15 ∧
    ¬(packet.secs = 0 ∧ packet.frac = 0)

instance decidableValid : Decidable packet.Valid := inferInstanceAs (Decidable (_ ∧ _))

/-- The Unix time of the timestamp: the first era from 1968 on, then the second one up to 2104. -/
def denotes : Timespec where
  sec := (if 2 ^ 31 ≤ packet.secs then packet.secs else packet.secs + 2 ^ 32) - ntpEpochOffset
  nsec := packet.frac * 10 ^ 9 / 2 ^ 32

/-- The clock is stepped for valid replies only, and to the time of the reply. -/
def Checked (before : Timespec) (settime : Timespec → Except String Unit) : Prop :=
  ∀ time, (packet.sync 48 before settime).1 = some time ↔ packet.Valid ∧ time = packet.denotes

variable {packet}

theorem fromBeBytes_lt (a b c d : UInt8) : fromBeBytes a b c d < 2 ^ 32 := by
  have ha := a.toNat_lt
  have hb := b.toNat_lt
  have hc := c.toNat_lt
  have hd := d.toNat_lt
  unfold fromBeBytes
  omega

/-- All that is looked at are the seconds. -/
theorem sync_eq_some_iff {before time : Timespec} {settime : Timespec → Except String Unit} :
    (packet.sync 48 before settime).1 = some time ↔
      ntpEpochOffset ≤ packet.secs ∧ time = packet.denotes := by
  have he : 2 ^ 31 ≤ ntpEpochOffset := by decide
  rw [sync, if_neg (Nat.lt_irrefl 48), parseResponse]
  by_cases hlt : packet.secs < ntpEpochOffset
  · rw [if_pos hlt]
    split_ifs <;> simp [Nat.not_le.2 hlt]
  · have hd : packet.denotes =
        ⟨(packet.secs - ntpEpochOffset : ℕ), (packet.frac * 1000000000 / 2 ^ 32 : ℕ)⟩ := by
      rw [denotes, if_pos (by omega), Timespec.mk.injEq]
      omega
    have hz : packet.secs ≠ 0 := by omega
    simp only [hz, hlt, if_false, hd, Option.some.injEq, Nat.not_lt.1 hlt, true_and]
    exact eq_comm

/-- **The replies of a server**, wherever the clock was: the time that they denote has less than a
second of nanoseconds, and the clock is stepped as it should be exactly if the seconds are past the
Unix epoch, in the first era, in valid replies and no others. -/
theorem checked_iff (packet : Packet) (before : Timespec)
    (settime : Timespec → Except String Unit) :
    (0 ≤ packet.denotes.nsec ∧ packet.denotes.nsec < 10 ^ 9) ∧
      (packet.Checked before settime ↔ (ntpEpochOffset ≤ packet.secs ↔ packet.Valid)) := by
  have hf := fromBeBytes_lt (packet 44) (packet 45) (packet 46) (packet 47)
  rw [← frac] at hf
  refine ⟨?_, ?_⟩
  · simp only [denotes]
    omega
  · simp only [Checked, sync_eq_some_iff]
    constructor
    · intro h
      simpa using h packet.denotes
    · intro h time
      rw [h]

/-- A reply with these bytes and nothing else but a second in its timestamp. -/
def reply (liVnMode stratum high : UInt8) : Packet := fun i =>
  if i = 0 then liVnMode else if i = 1 then stratum else if i = 40 then high
  else if i = 43 then 1 else 0

/-- **A kiss-o'-death** of a client that is not synchronized steps the clock to 2019, and the first
second of 2036 that has a timestamp of the second era is refused. -/
theorem unsynchronized_accepted :
    (((reply 0xE3 0 0xE0).sync 48 ⟨0, 0⟩ fun _ => .ok ()).1 = some ⟨1549107585, 0⟩ ∧
      ¬(reply 0xE3 0 0xE0).Valid) ∧
    (reply 0x24 1 0).Valid ∧ ((reply 0x24 1 0).sync 48 ⟨0, 0⟩ fun _ => .ok ()).1 = none := by
  decide

end Packet

end Muak.Timed
