import Mathlib.Algebra.Group.Int.Defs
import Muak.Foundations.Dict
import Muak.Foundations.Run

/-!
# The contexts of a client

`libs/config/src/user.rs`: a client keeps the servers that it knows by name, with the only copy of
its key for each, and the enrollments that wait for approval.

* `contexts_kept_iff`: no context is overwritten exactly if no call whose name is taken finds the
  name with the second behind it taken as well. The current context always exists.
* `third_context_overwrites`: the third context with one name in one second destroys the second one.

Base64 is a parameter.
-/

namespace Muak.Config

open Dict

/-- A server and the credentials for it. -/
structure ServerContext where
  endpoint : String
  ca : Option String
  crt : Option String
  key : Option String
  deriving DecidableEq

/-- An enrollment that is not approved yet. -/
structure PendingEnrollment where
  fingerprint : String
  key : String
  serverFingerprint : String

structure ClientConfig where
  context : Option String
  contexts : Dict String ServerContext
  pending : Dict String PendingEnrollment

/-- A context from the texts of the credentials. -/
def ServerContext.fromPem (encode : ByteArray → String) (endpoint ca crt : String)
    (key : ByteArray) : ServerContext :=
  ⟨endpoint, some (encode ca.toUTF8), some (encode crt.toUTF8), some (encode key)⟩

/-- The name that is tried when one is taken, from a clock that may stand before its epoch. -/
def stamped (baseName : String) (now : ℤ) : String := baseName ++ "-" ++ toString now.toNat

/-- A name that is taken gets the time behind it. -/
def resolveNameCollision (existing : Dict String ServerContext) (baseName : String) (now : ℤ) :
    String :=
  if baseName ∈ existing.keys then stamped baseName now else baseName

namespace ClientConfig

def default : ClientConfig := ⟨none, .empty, .empty⟩

variable (c : ClientConfig)

/-- Add a context under a free name. -/
def addContext (now : ℤ) (name : String) (ctx : ServerContext) : ClientConfig × String :=
  let actualName := resolveNameCollision c.contexts name now
  ({ c with contexts := c.contexts.insert actualName ctx }, actualName)

/-- Remove a context, also as the current one. -/
def removeContext (name : String) : Except String ClientConfig :=
  if name ∉ c.contexts.keys then .error ("Context '" ++ name ++ "' not found")
  else .ok { c with
    contexts := c.contexts.erase name
    context := if c.context = some name then none else c.context }

def setCurrent (name : String) : Except String ClientConfig :=
  if name ∉ c.contexts.keys then
    .error ("Context '" ++ name ++
      "' not found. Run 'muakctl context list' to see available contexts.")
  else .ok { c with context := some name }

variable (encode : ByteArray → String)

/-- Keep the key of an enrollment until it is approved. -/
def startEnrollment (endpoint keyPem fingerprint serverFingerprint : String) : ClientConfig :=
  { c with pending :=
      c.pending.insert endpoint ⟨fingerprint, encode keyPem.toUTF8, serverFingerprint⟩ }

/-- The enrollment becomes a context, which is the current one. -/
def completeEnrollment (now : ℤ) (endpoint serverName caPem certPem : String)
    (keyPem : ByteArray) : ClientConfig × String :=
  let ctx := ServerContext.fromPem encode endpoint caPem certPem keyPem
  let (added, name) := c.addContext now serverName ctx
  ({ added with pending := added.pending.erase endpoint, context := some name }, name)

def cancelEnrollment (endpoint : String) : ClientConfig :=
  { c with pending := c.pending.erase endpoint }

end ClientConfig

/-! ## Histories -/

/-- A call, with the time at which it is made where the clock is read. -/
inductive Call
  | addContext (now : ℤ) (name : String) (ctx : ServerContext)
  | completeEnrollment (now : ℤ) (endpoint serverName caPem certPem : String) (keyPem : ByteArray)
  | removeContext (name : String)
  | setCurrent (name : String)
  | startEnrollment (endpoint keyPem fingerprint serverFingerprint : String)
  | cancelEnrollment (endpoint : String)

section

variable (encode : ByteArray → String)

/-- The context that a call adds, with the name that it is to have. -/
def Call.adds : Call → Option (ℤ × String × ServerContext)
  | .addContext now name ctx => some (now, name, ctx)
  | .completeEnrollment now endpoint serverName caPem certPem keyPem =>
    some (now, serverName, .fromPem encode endpoint caPem certPem keyPem)
  | _ => none

variable (c : ClientConfig)

/-- A call that fails changes nothing. -/
def step : Call → ClientConfig
  | .addContext now name ctx => (c.addContext now name ctx).1
  | .completeEnrollment now endpoint serverName caPem certPem keyPem =>
    (c.completeEnrollment encode now endpoint serverName caPem certPem keyPem).1
  | .removeContext name => (c.removeContext name).toOption.getD c
  | .setCurrent name => (c.setCurrent name).toOption.getD c
  | .startEnrollment endpoint keyPem fingerprint serverFingerprint =>
    c.startEnrollment encode endpoint keyPem fingerprint serverFingerprint
  | .cancelEnrollment endpoint => c.cancelEnrollment endpoint

/-- A context is stored under a name that was unused, and no other is changed, but for the one that
is to be removed. -/
def Keeps (call : Call) : Prop :=
  match call.adds encode with
  | some (_, _, ctx) => ∃ name ∉ c.contexts.keys, ∀ other,
      (step encode c call).contexts.get? other =
        if other = name then some ctx else c.contexts.get? other
  | none => ∀ other, call ≠ .removeContext other →
      (step encode c call).contexts.get? other = c.contexts.get? other

/-- A name that is taken is not taken with the second behind it. -/
def Fresh (call : Call) : Prop :=
  ∀ now name ctx, call.adds encode = some (now, name, ctx) → name ∈ c.contexts.keys →
    stamped name now ∉ c.contexts.keys

end

/-- The current context exists. -/
def Placed (c : ClientConfig) : Prop := ∀ name ∈ c.context, name ∈ c.contexts.keys

variable {encode : ByteArray → String} {c : ClientConfig}

theorem contexts_removeContext (name : String) :
    (step encode c (.removeContext name)).contexts = c.contexts.erase name := by
  rw [step, ClientConfig.removeContext]
  by_cases hn : name ∈ c.contexts.keys
  · rw [if_neg (not_not_intro hn)]
    rfl
  · rw [if_pos hn]
    exact (erase_of_not_mem hn).symm

theorem placed_step (h : Placed c) (call : Call) : Placed (step encode c call) := by
  cases call with
  | addContext now name ctx =>
    exact fun current hcr => mem_keys_insert.2 (.inr (h current hcr))
  | completeEnrollment now endpoint serverName caPem certPem keyPem =>
    rintro current ⟨⟩
    exact mem_keys_insert.2 (.inl rfl)
  | removeContext name =>
    intro current hcr
    have hk : c.context = some current ∧ current ≠ name := by
      rw [step, ClientConfig.removeContext] at hcr
      split_ifs at hcr with hn hc
      · cases hcr
      · exact ⟨hcr, fun heq => hc (heq ▸ hcr)⟩
      · exact ⟨hcr, fun heq => hn (heq ▸ h current hcr)⟩
    rw [contexts_removeContext, mem_keys_iff, get?_erase, if_neg hk.2, ← mem_keys_iff]
    exact h current hk.1
  | setCurrent name =>
    rw [step, ClientConfig.setCurrent]
    by_cases hn : name ∈ c.contexts.keys
    · rw [if_neg (not_not_intro hn)]
      rintro current ⟨⟩
      exact hn
    · rwa [if_pos hn]
  | startEnrollment endpoint keyPem fingerprint serverFingerprint => exact h
  | cancelEnrollment endpoint => exact h

/-- An entry is added, and not replaced, exactly if its name was unused. -/
theorem exists_unused_iff (now : ℤ) (name : String) (ctx : ServerContext) :
    (∃ unused ∉ c.contexts.keys, ∀ other, (c.addContext now name ctx).1.contexts.get? other =
      if other = unused then some ctx else c.contexts.get? other) ↔
    (name ∈ c.contexts.keys → stamped name now ∉ c.contexts.keys) := by
  have hn : resolveNameCollision c.contexts name now ∉ c.contexts.keys ↔
      (name ∈ c.contexts.keys → stamped name now ∉ c.contexts.keys) := by
    rw [resolveNameCollision]
    split_ifs with hk <;> simp [hk]
  rw [← hn]
  refine ⟨?_, fun hf => ⟨_, hf, fun other => get?_insert ..⟩⟩
  rintro ⟨unused, hu, hget⟩
  have hs := hget unused
  rw [if_pos rfl, ClientConfig.addContext, get?_insert] at hs
  split_ifs at hs with heq
  · exact heq ▸ hu
  · exact absurd (mem_keys_iff.2 ⟨ctx, hs⟩) hu

theorem keeps_iff_fresh (call : Call) : Keeps encode c call ↔ Fresh encode c call := by
  have hf {call : Call} (hn : call.adds encode = none) : Fresh encode c call := by
    intro now name ctx ha
    cases hn.symm.trans ha
  cases call with
  | addContext now name ctx | completeEnrollment now endpoint name caPem certPem keyPem =>
    refine (exists_unused_iff now name _).trans ⟨?_, fun h => h now name _ rfl⟩
    rintro h now name ctx ⟨⟩
    exact h
  | removeContext name =>
    refine iff_of_true (fun other ho => ?_) (hf rfl)
    have hne : other ≠ name := fun heq => ho (heq ▸ rfl)
    rw [contexts_removeContext, get?_erase, if_neg hne]
  | setCurrent name =>
    refine iff_of_true (fun other _ => ?_) (hf rfl)
    rw [step, ClientConfig.setCurrent]
    split_ifs <;> rfl
  | startEnrollment _ _ _ _ | cancelEnrollment _ => exact iff_of_true (fun _ _ => rfl) (hf rfl)

/-- **Contexts are kept** by a history of calls exactly if every call finds a name that is not
taken, and the current context always exists. -/
theorem contexts_kept_iff (encode : ByteArray → String) (calls : List Call) :
    (Along (step encode) (Keeps encode) .default calls ↔
      Along (step encode) (Fresh encode) .default calls) ∧
    Placed (runFrom (step encode) .default calls) := by
  have hi : Placed .default := by
    rintro name ⟨⟩
  constructor
  · exact along_congr Placed (fun c call h => placed_step h call)
      (fun c call _ => keeps_iff_fresh call) hi calls
  · exact runFrom_invariant_always Placed (fun c call h => placed_step h call) hi calls

/-- A server that is added at this second. -/
def adding (endpoint : String) : Call := .addContext 5 "muak" ⟨endpoint, none, none, none⟩

/-- Three contexts with one name in one second: the second one is lost. -/
theorem third_context_overwrites :
    let calls := [adding "first", adding "second", adding "third"]
    let contexts := (runFrom (step fun _ => "") .default calls).contexts
    contexts.keys = ["muak", "muak-5"] ∧ contexts.get? "muak-5" = some ⟨"third", none, none, none⟩ ∧
      ¬Along (step fun _ => "") (Keeps fun _ => "") .default calls := by
  refine ⟨by decide +kernel, by decide +kernel, fun h => ?_⟩
  exact (keeps_iff_fresh _).1 h.2.2.1 5 "muak" _ rfl (by decide +kernel) (by decide +kernel)

end Muak.Config
