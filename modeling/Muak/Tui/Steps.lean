import Mathlib.Algebra.Group.Nat.Defs
import Mathlib.Tactic.SplitIfs

/-!
# The display of steps

`libs/tui/src/live/steps`: what a thread shows of the steps of a program, one line for a step that
has ended and one that is redrawn for the step that goes on.

* `run`: the lines that are written for a sequence of commands.
* `closes_iff`: every step gets one line that stays, and quiet output has nothing but failures,
  exactly if there is a step for every result, or, in quiet mode, no step that ends another.
* `quiet_step_shown`: a step that is followed by another is shown in quiet mode, and a result that
  is reported twice gets two lines.
-/

namespace Muak.Tui

open List

/-- Rich output is animated, and no other. -/
inductive Mode
  | rich
  | plain
  | quiet
  deriving DecidableEq

/-- What is counted. -/
inductive Progress.Unit
  | items
  | bytes

/-- How far a step is. -/
structure Progress where
  current : UInt64
  total : UInt64
  unit : Progress.Unit

/-- What the renderer is told. -/
inductive Command
  | start (message : String)
  | startProgress (message : String) (total : UInt64) (unit : Progress.Unit)
  | setLabel (message : String)
  | progress (current : UInt64)
  | note (message : String)
  | complete (message : String)
  | fail (message : String)
  | stop
  | tick

/-- The step that is shown. -/
structure Active where
  label : String
  progress : Option Progress

/-- What is written to the screen. -/
inductive Line
  /-- The line of a step, which the next one is written over. -/
  | active (step : Active) (frame : ℕ)
  | frozen (message : String) (success : Bool)
  | message (text : String)
  | note (text : String)

structure State where
  active : Option Active
  frame : ℕ

def draw (s : State) : List Line := (s.active.map (.active · s.frame)).toList

/-- The label of a step that ends without a result of its own. -/
def freezeLabel (s : State) : List Line := (s.active.map (.frozen ·.label true)).toList

variable (mode : Mode)

def redraw (s : State) : State × List Line := (s, if mode = .rich then draw s else [])

/-- A new step, after the label of the one before is frozen. -/
def begin (s : State) (message : String) (progress : Option Progress) : State × List Line :=
  let s' : State := ⟨some ⟨message, progress⟩, if mode = .rich then 0 else s.frame⟩
  (s', freezeLabel s ++
    match mode with
    | .rich => draw s'
    | .plain => [.message message]
    | .quiet => [])

def handle (s : State) : Command → State × List Line
  | .start message => begin mode s message none
  | .startProgress message total unit => begin mode s message (some ⟨0, total, unit⟩)
  | .setLabel message => redraw mode { s with active := s.active.map ({ · with label := message }) }
  | .progress current =>
    match s.active with
    | some ⟨label, some value⟩ =>
      redraw mode { s with active := some ⟨label, some { value with current := current }⟩ }
    | _ => (s, [])
  | .note message => (s, if mode = .quiet then [] else .note message :: (redraw mode s).2)
  | .complete message =>
    ({ s with active := none }, if mode = .quiet then [] else [.frozen message true])
  | .fail message => ({ s with active := none }, [.frozen message false])
  | .stop => ({ s with active := none }, if mode = .quiet then [] else freezeLabel s)
  | .tick => ({ s with frame := s.frame + 1 }, draw s)

/-- The lines for some commands, and ticks between them. A closed channel stops the display. -/
def run (s : State) : List Command → List Line
  | [] | .stop :: _ => (handle mode s .stop).2
  | command :: commands =>
    -- `next_command` waits for a tick only while there is a step to animate
    if command matches .tick ∧ (mode ≠ .rich ∨ s.active.isNone) then run s commands
    else (handle mode s command).2 ++ run (handle mode s command).1 commands

/-! ## Results -/

/-- What a step ends with: its result, or its last label. -/
def result (label : String) : List Command → String × Bool
  | [] | .stop :: _ | .start _ :: _ | .startProgress _ _ _ :: _ => (label, true)
  | .setLabel message :: commands => result message commands
  | .complete message :: _ => (message, true)
  | .fail message :: _ => (message, false)
  | _ :: commands => result label commands

/-- The results of the steps that begin, in their order. -/
def results : List Command → List (String × Bool)
  | [] | .stop :: _ => []
  | .start message :: commands | .startProgress message _ _ :: commands =>
    result message commands :: results commands
  | _ :: commands => results commands

def failures : List Command → List (String × Bool)
  | [] | .stop :: _ => []
  | .fail message :: commands => (message, false) :: failures commands
  | _ :: commands => failures commands

/-- A line that stays. -/
def frozen : Line → Option (String × Bool)
  | .frozen message success => some (message, success)
  | _ => none

/-- One line that stays for every step, or a line for every failure and no other. -/
def Closes (commands : List Command) : Prop :=
  if mode = .quiet then
    (run mode ⟨none, 0⟩ commands).filterMap frozen = failures commands ∧
      ∀ line ∈ run mode ⟨none, 0⟩ commands, (frozen line).isSome
  else (run mode ⟨none, 0⟩ commands).filterMap frozen = results commands

/-! ## Labels -/

/-- What a command freezes while a step with this label goes on, and the label that follows. -/
def closing (label : Option String) : Command → List (String × Bool) × Option String
  | .start message | .startProgress message _ _ => ((label.map (·, true)).toList, some message)
  | .setLabel message => ([], label.map fun _ => message)
  | .complete message => (if mode = .quiet then [] else [(message, true)], none)
  | .fail message => ([(message, false)], none)
  | .stop => (if mode = .quiet then [] else (label.map (·, true)).toList, none)
  | _ => ([], label)

/-- A result is that of a step. In quiet mode no step ends another. -/
def Due (label : Option String) : Command → Prop
  | .start _ | .startProgress _ _ _ => mode = .quiet → label = none
  | .complete _ | .fail _ => mode ≠ .quiet → label ≠ none
  | _ => True

/-- Every command comes when it is due. -/
def Orderly (label : Option String) : List Command → Prop
  | [] | .stop :: _ => True
  | command :: commands => Due mode label command ∧ Orderly (closing mode label command).2 commands

/-- What the step that goes on and those that follow it end with. -/
def expected (label : Option String) (commands : List Command) : List (String × Bool) :=
  if mode = .quiet then failures commands
  else (label.map (result · commands)).toList ++ results commands

variable {mode}

/-- What is due is expected, and what is not comes on top of it. -/
theorem closing_expected {command : Command} (hs : command ≠ .stop) (label : Option String)
    (commands : List Command) :
    (Due mode label command ∧ expected mode label (command :: commands) =
      (closing mode label command).1 ++ expected mode (closing mode label command).2 commands) ∨
    (¬Due mode label command ∧ (closing mode label command).1.length = 1 ∧
      expected mode label (command :: commands) =
        expected mode (closing mode label command).2 commands) := by
  by_cases hm : mode = .quiet <;> cases label <;> cases command <;>
    simp [Due, closing, expected, result, results, failures, hm] at hs ⊢

/-- What some commands freeze. -/
def closings (mode : Mode) (label : Option String) : List Command → List (String × Bool)
  | [] | .stop :: _ => (closing mode label .stop).1
  | command :: commands =>
    (closing mode label command).1 ++ closings mode (closing mode label command).2 commands

theorem closings_eq_expected_iff (label : Option String) (commands : List Command) :
    (expected mode label commands).length ≤ (closings mode label commands).length ∧
      (closings mode label commands = expected mode label commands ↔
        Orderly mode label commands) := by
  fun_induction closings mode label commands with
  | case1 label | case2 label =>
    by_cases hm : mode = .quiet <;> cases label <;>
      simp [closing, expected, result, results, failures, Orderly, hm]
  | case3 label command commands hs ih =>
    rw [Orderly]
    · rcases closing_expected hs label commands with ⟨hd, heq⟩ | ⟨hd, ho, heq⟩
      · rw [heq, append_cancel_left_eq, ih.2]
        simp [hd, ih.1]
      · rw [heq, length_append, ho]
        refine ⟨by omega, iff_of_false (fun h => ?_) fun h => hd h.1⟩
        have hlen := congrArg length h
        rw [length_append, ho] at hlen
        omega
    · exact hs

theorem closing_handle (s : State) (command : Command) :
    ((handle mode s command).2.filterMap frozen, (handle mode s command).1.active.map (·.label)) =
        closing mode (s.active.map (·.label)) command := by
  rcases s with ⟨_ | ⟨label, _ | value⟩, frame⟩ <;> cases mode <;> cases command <;>
    simp [handle, begin, redraw, draw, freezeLabel, frozen, closing]

theorem filterMap_frozen_run (s : State) (commands : List Command) :
    (run mode s commands).filterMap frozen = closings mode (s.active.map (·.label)) commands := by
  fun_induction run mode s commands with
  | case1 s | case2 s => exact congrArg Prod.fst (closing_handle s .stop)
  | case3 s command commands hs ht ih =>
    cases command with
    | tick => exact ih
    | _ => exact absurd ht.1 (by simp)
  | case4 s command commands hs ht ih =>
    rw [filterMap_append, ih, closings, ← closing_handle]
    exact hs

/-- In quiet mode there are no other lines. -/
theorem isSome_frozen_of_quiet {s : State} {commands : List Command} :
    ∀ line ∈ run .quiet s commands, (frozen line).isSome := by
  intro line hl
  fun_induction run .quiet s commands with
  | case1 s | case2 s => simp [handle] at hl
  | case3 s command commands hs ht ih => exact ih hl
  | case4 s command commands hs ht ih =>
    rcases mem_append.1 hl with hl | hl
    · rcases s with ⟨_ | ⟨label, _ | value⟩, frame⟩ <;> cases command <;>
        simp_all [handle, begin, redraw, freezeLabel, frozen]
    · exact ih hl

/-- **The steps of a program**: all is as it should be exactly if the commands are in order. -/
theorem closes_iff (mode : Mode) (commands : List Command) :
    Closes mode commands ↔ Orderly mode none commands := by
  rw [← (closings_eq_expected_iff none commands).2, Closes, expected, filterMap_frozen_run]
  split_ifs with hm
  · subst hm
    exact and_iff_left isSome_frozen_of_quiet
  · rfl

theorem quiet_step_shown :
    run .quiet ⟨none, 0⟩ [.start "a", .start "b", .complete "c"] = [.frozen "a" true] ∧
      ¬Closes .quiet [.start "a", .start "b", .complete "c"] ∧
      ¬Closes .plain [.start "a", .complete "b", .complete "c"] := by
  unfold Closes
  exact ⟨rfl, by decide, by decide⟩

end Muak.Tui
