import Muak.Foundations.Text

/-!
# The state of a process

`init/granola/src/ipc/process.rs`: the state of a process is a letter behind its name in
`/proc/<pid>/stat`. It is looked for at the number of bytes before it, as if that were the number of
characters.

* `parseProcessStatus_statLine_iff`: the state is found exactly if the name has as many bytes as
  characters, or the state is unknown anyway.
* `accented_name_unknown`: the state of a process whose name has an accent.
-/

namespace Muak.Granola

open Text List Nat

/-- `str::rfind`: the bytes in front of the last occurrence. -/
def rfind (c : Char) (s : String) : Option ℕ :=
  match s.toList.reverse.dropWhile (· ≠ c) with
  | [] => none
  | _ :: front => some (String.ofList front.reverse).utf8ByteSize

def stateLabel : Char → String
  | 'R' => "running"
  | 'S' => "sleeping"
  | 'D' => "disk_sleep"
  | 'Z' => "zombie"
  | 'T' => "stopped"
  | 't' => "tracing_stop"
  | 'X' | 'x' => "dead"
  | 'K' => "wakekill"
  | 'W' => "waking"
  | 'P' => "parked"
  | 'I' => "idle"
  | _ => "unknown"

/-- The state from a line of `stat`. -/
def parseProcessStatus (stat : String) : String :=
  match (rfind ')' stat).bind fun closeParen => stat.toList[closeParen + 2]? with
  | some stateChar => stateLabel stateChar
  | none => "unknown"

/-- The line of a process, with the numbers that follow its state. -/
def statLine (pid : ℕ) (name : String) (state : Char) (fields : List ℤ) : String :=
  toString pid ++ " (" ++ name ++ ") " ++ String.singleton state ++
    String.ofList (fields.flatMap fun field => ' ' :: (toString field).toList)

theorem rfind_append {c : Char} {back : List Char} (h : c ∉ back) (front : List Char) :
    rfind c (String.ofList (front ++ c :: back)) = some (String.ofList front).utf8ByteSize := by
  have hb : ∀ x ∈ back.reverse, decide (x ≠ c) = true := fun x hx => by
    have hne : x ≠ c := fun heq => h (heq ▸ mem_reverse.1 hx)
    simpa using hne
  rw [rfind, String.toList_ofList, reverse_append, reverse_cons, append_assoc,
    dropWhile_append_of_pos hb]
  simp

theorem length_le_utf8ByteSize (s : List Char) : s.length ≤ (String.ofList s).utf8ByteSize := by
  induction s with
  | nil => simp
  | cons c s ih =>
    have ha : String.ofList (c :: s) = String.singleton c ++ String.ofList s := by simp
    have hp := c.utf8Size_pos
    rw [ha, String.utf8ByteSize_append, String.utf8ByteSize_singleton, length_cons]
    omega

/-- What stands behind the state is no state. -/
theorem stateLabel_of_mem {fields : List ℤ} {x : Char}
    (h : x ∈ fields.flatMap fun field => ' ' :: (toString field).toList) :
    stateLabel x = "unknown" ∧ x ≠ ')' := by
  have hd {n : ℕ} (hx : x ∈ n.repr.toList) : stateLabel x = "unknown" ∧ x ≠ ')' := by
    rw [toList_repr] at hx
    have hd := isDigit_of_mem_toDigits (by omega) (by omega) hx
    refine ⟨?_, by rintro rfl; cases hd⟩
    unfold stateLabel
    split <;> first | rfl | cases hd
  obtain ⟨field, -, hx⟩ := mem_flatMap.1 h
  rw [Int.toString_eq_repr, mem_cons] at hx
  rcases hx with rfl | hx
  · decide
  · cases field with
    | ofNat n => exact hd hx
    | negSucc n =>
      rcases mem_append.1 (String.toList_append ▸ hx) with hx | hx
      · rw [mem_singleton.1 hx]
        decide
      · exact hd hx

/-- What is taken for the state stands too far behind by the bytes that are not characters. -/
theorem parseProcessStatus_append {front rest : List Char} {k : ℕ} (hrest : ')' ∉ rest)
    (hf : (String.ofList front).utf8ByteSize = front.length + k) :
    parseProcessStatus (String.ofList (front ++ ')' :: rest)) =
      (rest[k + 1]?.map stateLabel).getD "unknown" := by
  have hi : (front ++ ')' :: rest)[front.length + k + 2]? = rest[k + 1]? := by
    have hs : front.length + k + 2 - front.length = k + 2 := by omega
    rw [getElem?_append_right (by omega), hs]
    rfl
  rw [parseProcessStatus, rfind_append hrest, hf, Option.bind_some, String.toList_ofList, hi]
  cases rest[k + 1]? <;> rfl

/-- **The state of a process** is found exactly if its name has as many bytes as characters, or the
state is unknown. -/
theorem parseProcessStatus_statLine_iff (pid : ℕ) (name : String) (state : Char) (fields : List ℤ) :
    parseProcessStatus (statLine pid name state fields) = stateLabel state ↔
      name.utf8ByteSize = name.length ∨ stateLabel state = "unknown" := by
  have hm {x : Char} := @stateLabel_of_mem fields x
  generalize hb : (fields.flatMap fun field => ' ' :: (toString field).toList) = back at hm
  have hu (i : ℕ) : (back[i]?.map stateLabel).getD "unknown" = "unknown" := by
    cases hx : back[i]? with
    | none => rfl
    | some x => exact (hm (mem_of_getElem? hx)).1
  have hno : ')' ∉ back := fun h => (hm h).2 rfl
  obtain ⟨k, hn⟩ := Nat.exists_eq_add_of_le (length_le_utf8ByteSize name.toList)
  rw [String.ofList_toList] at hn
  generalize hf : toDigits 10 pid ++ [' ', '('] ++ name.toList = front
  have hl : statLine pid name state fields =
      String.ofList (front ++ ')' :: ' ' :: state :: back) := by
    rw [← String.toList_inj, ← hb, ← hf]
    simp [statLine]
  have hcl : (String.ofList front).utf8ByteSize = front.length + k := by
    have hpd := utf8ByteSize_ofList_of_digits fun c hc =>
      isDigit_of_mem_toDigits (b := 10) (n := pid) (by omega) (by omega) hc
    have ho : (String.ofList [' ', '(']).utf8ByteSize = 2 := rfl
    rw [← hf, String.ofList_append, String.ofList_append, String.utf8ByteSize_append,
      String.utf8ByteSize_append, hpd, ho, String.ofList_toList, hn]
    simp only [length_append, length_cons, length_nil]
    omega
  rw [hl, ← String.length_toList]
  by_cases hp : state = ')'
  · have hcl' : (String.ofList (front ++ [')', ' '])).utf8ByteSize =
        (front ++ [')', ' ']).length + k := by
      rw [String.ofList_append, String.utf8ByteSize_append, hcl, length_append, Nat.add_right_comm]
      rfl
    have hs := parseProcessStatus_append hno hcl'
    rw [hu, append_assoc] at hs
    rw [hp]
    exact iff_of_true hs (.inr rfl)
  · rw [parseProcessStatus_append (by simp [hno, Ne.symm hp]) hcl]
    cases k with
    | zero => simp [hn]
    | succ k => simpa [hu, hn] using eq_comm

/-- A process that runs is not known to. -/
theorem accented_name_unknown : parseProcessStatus (statLine 1 "é" 'R' [0]) = "unknown" ∧
    stateLabel 'R' = "running" ∧ parseProcessStatus (statLine 1 "e" 'R' [0]) = "running" := by
  decide +kernel

end Muak.Granola
