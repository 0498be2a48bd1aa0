import Mathlib.Algebra.Group.Nat.Defs
import Mathlib.Data.List.Infix
import Muak.Foundations.Text

/-!
# The kernel log on the console

`services/consoled/src/log/reader.rs`: a task reads the records of `/dev/kmsg` line by line and
sends what is to be shown to the console, until the console has gone.

* `run`: the task, over the results of its reads.
* `lives_iff`: all entries are sent, once and in order, and the task ends for want of a receiver
  only, exactly if no read before that finds that records were overwritten.
* `overrun_ends_log`: one such read ends the task, and the records after it are not shown.
-/

namespace Muak.Consoled

open Text List Nat

/-- What `read_line` finds. -/
inductive Read
  | line (line : String)
  | eof
  | wouldBlock
  /-- `EPIPE`: records were overwritten, and the next read goes on with the oldest one left. -/
  | overrun

/-- What is shown of a line. One without a `;` belongs to the record before it. -/
def parseEntry (line : String) : Option String :=
  (before (· = ';') line).map fun start =>
    let text := trimEndMatches (· = '\n') (String.ofList (line.toList.drop (start.length + 1)))
    match (start.toList.splitOn ',')[2]?.bind fun part => parseU64 (String.ofList part) with
    | some usec =>
      let secs := (toDigits 10 (usec / 1000000)).leftpad 5 ' '
      let frac := (toDigits 10 (usec % 1000000)).leftpad 6 '0'
      "[" ++ String.ofList secs ++ "." ++ String.ofList frac ++ "] " ++ text
    | none => text

/-- What has been sent after some reads, and whether the task goes on. The receiver is closed once
it has got so many entries, if it ever is. -/
def run (closed : Option ℕ) (sent : List String) : List Read → List String × Bool
  | [] => (sent, true)
  -- `drain` returns, and is called again as soon as there is something to read
  | .eof :: reads | .wouldBlock :: reads => run closed sent reads
  | .overrun :: _ => (sent, false)
  | .line line :: reads =>
    match parseEntry line with
    | none => run closed sent reads
    | some text =>
      if closed = some sent.length then (sent, false) else run closed (sent ++ [text]) reads

/-- The entries among the results of some reads. -/
def entries (reads : List Read) : List String :=
  reads.filterMap fun | .line line => parseEntry line | _ => none

/-- Entries are sent once and in order, and all of them unless the receiver is closed. -/
def Lives (closed : Option ℕ) (sent : List String) (reads : List Read) : Prop :=
  (run closed sent reads).1 <+: sent ++ entries reads ∧
    if (run closed sent reads).2 then (run closed sent reads).1 = sent ++ entries reads
    else closed = some (run closed sent reads).1.length

/-- The receiver is closed before any read finds an overrun. -/
def ClosedFirst (closed : Option ℕ) (sent : ℕ) (reads : List Read) : Prop :=
  ∀ before, before ++ [.overrun] <+: reads → ∃ n ∈ closed, n ≤ sent + (entries before).length

/-- A read that is no overrun stands in front of every overrun of the rest. -/
theorem closedFirst_cons {closed : Option ℕ} {sent : ℕ} {read : Read} {reads : List Read}
    (hr : read ≠ .overrun) : ClosedFirst closed sent (read :: reads) ↔
      ClosedFirst closed (sent + (entries [read]).length) reads := by
  have hlen (before : List Read) : sent + (entries (read :: before)).length =
      sent + (entries [read]).length + (entries before).length := by
    rw [← singleton_append, entries, filterMap_append, length_append, add_assoc]
    rfl
  constructor
  · intro h before hb
    rw [← hlen]
    exact h (read :: before) (cons_prefix_cons.2 ⟨rfl, hb⟩)
  · rintro h (_ | ⟨first, before⟩) hb
    · exact absurd (cons_prefix_cons.1 hb).1.symm hr
    · obtain ⟨rfl, hrest⟩ := cons_prefix_cons.1 hb
      rw [hlen]
      exact h before hrest

/-- The task from any state in which the receiver is still open. -/
theorem lives_iff_of_open {closed : Option ℕ} {sent : List String}
    (ho : ∀ n ∈ closed, sent.length ≤ n) (reads : List Read) :
    Lives closed sent reads ↔ ClosedFirst closed sent.length reads := by
  induction reads generalizing sent with
  | nil => simp [Lives, run, entries, ClosedFirst]
  | cons read reads ih =>
    cases read with
    | eof => simpa [closedFirst_cons, Lives, run, entries] using ih ho
    | wouldBlock => simpa [closedFirst_cons, Lives, run, entries] using ih ho
    | overrun =>
      refine ⟨fun ⟨_, h⟩ before _ => ⟨_, h, by simp [run]⟩, fun h => ⟨by simp [run], ?_⟩⟩
      obtain ⟨n, hn, hle⟩ := h [] (by simp)
      have hlen : n = sent.length := le_antisymm hle (ho n hn)
      simpa [run, ← hlen] using hn
    | line line =>
      rw [closedFirst_cons (by simp)]
      cases hp : parseEntry line with
      | none => simpa [Lives, run, hp, entries] using ih ho
      | some text =>
        by_cases hc : closed = some sent.length
        · refine ⟨fun _ before _ => ⟨_, hc, by omega⟩, fun _ => ?_⟩
          simp [Lives, run, hp, hc]
        · have ho' : ∀ n ∈ closed, (sent ++ [text]).length ≤ n := fun n hn => by
            have hne : n ≠ sent.length := fun heq => hc (heq ▸ hn)
            have hle := ho n hn
            rw [length_append, length_singleton]
            omega
          simpa [Lives, run, hp, hc, entries] using ih ho'

/-- **The log lives on** exactly if the receiver is closed before any read finds an overrun. -/
theorem lives_iff (closed : Option ℕ) (reads : List Read) :
    Lives closed [] reads ↔ ClosedFirst closed 0 reads :=
  lives_iff_of_open (by simp) reads

/-- What was not overwritten is not shown, though the console is there. -/
theorem overrun_ends_log : run none [] [.line "6,1,5,-;usb\n"] = (["[    0.000005] usb"], true) ∧
      run none [] [.overrun, .line "6,1,5,-;usb\n"] = ([], false) ∧
      ¬ Lives none [] [.overrun, .line "6,1,5,-;usb\n"] := by
  refine ⟨by decide +kernel, rfl, fun h => ?_⟩
  simpa [Lives, run] using h.2

end Muak.Consoled
