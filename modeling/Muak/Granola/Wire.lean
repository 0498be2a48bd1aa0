import Muak.Granola.Notify

/-!
# Which notifications survive the wire

A notification starts with a header, the `SERVICE_NAME=` line and the key of the second line,
which free text follows. When the header arrives, the fields are those of the lines after the
message's first line and, where these have none, those of the header (`lastWith_header`). When it
is cut off, the second key is missing (`lastWith_of_cut`). This settles each of the three
notifications: `status_iff`, `ready_iff` and `stopping_iff`, put together in
`wire_round_trip_iff`.
-/

namespace Muak.Granola

open Text List Option Nat

/-- A service name without line breaks. -/
def NoLineBreak (name : String) : Prop := '\n' ∉ name.toList ∧ '\r' ∉ name.toList

instance (name : String) : Decidable (NoLineBreak name) := inferInstanceAs (Decidable (_ ∧ _))

/-- The start of a notification: the name, and the key of the second line. -/
def header (name key : String) : String := "SERVICE_NAME=" ++ name ++ "\n" ++ key

variable {name key : String} {pid : UInt32} {t : String}

/-! ## The header arrives -/

theorem lines_header (hnm : NoLineBreak name) (m : String) :
    lines (header name key ++ m) = ("SERVICE_NAME=" ++ name) :: lines (key ++ m) := by
  have hn : '\n' ∉ ("SERVICE_NAME=" ++ name).toList := by
    rw [String.toList_append, mem_append, not_or]
    exact ⟨by decide, hnm.1⟩
  have hr : '\r' ∉ ("SERVICE_NAME=" ++ name).toList := by
    rw [String.toList_append, mem_append, not_or]
    exact ⟨by decide, hnm.2⟩
  have hs : header name key ++ m = "SERVICE_NAME=" ++ name ++ "\n" ++ (key ++ m) :=
    String.append_assoc
  rw [hs, lines_append_newline hn hr]

theorem fieldKeys_shape : ∀ k ∈ fieldKeys, '\n' ∉ k.toList ∧ k ≠ "" ∧
    k.toList.getLast? ≠ some '\r' := by decide

/-- The lines of a notification whose header arrived. -/
theorem lines_header_append (hnm : NoLineBreak name) (hk : key ∈ fieldKeys) (m : String) :
    ∃ v, lines (header name key ++ m) =
      ("SERVICE_NAME=" ++ name) :: (key ++ v) :: (lines m).tail := by
  obtain ⟨hn, hne, hcr⟩ := fieldKeys_shape key hk
  obtain ⟨v, hv⟩ := lines_key_append hn hne hcr m
  exact ⟨v, by rw [lines_header hnm, hv]⟩

theorem stripPrefix_key_append {k : String} (hk : k ∈ fieldKeys) (hky : key ∈ fieldKeys)
    (hne : k ≠ key) (v : String) : stripPrefix k (key ++ v) = none :=
  stripPrefix_of_key hky hk hne (stripPrefix_append key v)

/-- The fields of a notification whose header arrived. -/
theorem lastWith_header (hn : NoLineBreak name) (hky : key ∈ fieldKeys)
    (hky' : key ≠ "SERVICE_NAME=") (m : String) :
    lastWith "SERVICE_NAME=" (lines (header name key ++ m)) =
        some ((lastWith "SERVICE_NAME=" (lines m).tail).getD name) ∧
      (lastWith key (lines (header name key ++ m))).isSome ∧
      ∀ k ∈ fieldKeys, k ≠ "SERVICE_NAME=" → k ≠ key →
        lastWith k (lines (header name key ++ m)) = lastWith k (lines m).tail := by
  obtain ⟨v, hv⟩ := lines_header_append hn hky m
  have hsn : "SERVICE_NAME=" ∈ fieldKeys := by decide
  refine ⟨?_, ?_, fun k hk hk₁ hk₂ => ?_⟩
  · rw [hv, lastWith_cons, lastWith_cons, stripPrefix_append,
      stripPrefix_key_append hsn hky (Ne.symm hky')]
    cases lastWith "SERVICE_NAME=" (lines m).tail <;> rfl
  · rw [hv, lastWith_cons, lastWith_cons]
    cases lastWith key (lines m).tail <;> simp
  · rw [hv, lastWith_cons, lastWith_cons, stripPrefix_key_append hk hky hk₂,
      stripPrefix_key_append hk hsn hk₁]
    simp

/-! ## The header is cut off -/

theorem lines_eq_nil_or_singleton (h : '\n' ∉ t.toList) : lines t = [] ∨ lines t = [t] := by
  by_cases ht : t = ""
  · exact .inl (by rw [ht]; rfl)
  · exact .inr (lines_of_not_mem h ht)

theorem lastWith_lines_of_stripPrefix {t k : String} (h : '\n' ∉ t.toList)
    (hk : stripPrefix k t = none) : lastWith k (lines t) = none := by
  rcases lines_eq_nil_or_singleton h with ht | ht <;> simp [ht, lastWith_cons, hk]

/-- A key is not found in a part of the first line. -/
theorem lastWith_of_cut_name (hn : NoLineBreak name) (hk : key ∈ fieldKeys)
    (hk' : key ≠ "SERVICE_NAME=") {t c : String} (h : "SERVICE_NAME=" ++ name = t ++ c) :
    lastWith key (lines t) = none := by
  have hf : stripPrefix key ("SERVICE_NAME=" ++ name) = none :=
    stripPrefix_key_append hk (by decide) hk' name
  have hl : '\n' ∉ t.toList := by
    intro hm
    have hm' : '\n' ∈ ("SERVICE_NAME=" ++ name).toList := by
      rw [h, String.toList_append]
      exact mem_append_left _ hm
    rw [String.toList_append, mem_append] at hm'
    exact hm'.elim (by decide) hn.1
  refine lastWith_lines_of_stripPrefix hl (eq_none_iff_forall_ne_some.2 fun v hv => ?_)
  have hs : stripPrefix key ("SERVICE_NAME=" ++ name) = some (v ++ c) := by
    rw [stripPrefix_eq_some_iff] at hv ⊢
    rw [h, hv, String.append_assoc]
  rw [hf] at hs
  cases hs

/-- A key is not found where only a proper part of it is left. -/
theorem lastWith_of_cut_key (hn : NoLineBreak name) (hk : key ∈ fieldKeys)
    (hk' : key ≠ "SERVICE_NAME=") {u r : String} (h : key = u ++ r) (hr : r ≠ "") :
    lastWith key (lines (header name u)) = none := by
  have hln : '\n' ∉ u.toList := by
    intro hm
    refine (fieldKeys_shape key hk).1 ?_
    rw [h, String.toList_append]
    exact mem_append_left _ hm
  have hl : lines (header name u) = ("SERVICE_NAME=" ++ name) :: lines u := by
    simpa using lines_header hn ""
  rw [hl, lastWith_cons, stripPrefix_key_append hk (by decide) hk' name, or_none]
  refine lastWith_lines_of_stripPrefix hln (eq_none_iff_forall_ne_some.2 fun v hv => ?_)
  rw [stripPrefix_eq_some_iff] at hv
  -- the key would be a proper part of itself
  have hlen := congrArg String.length hv
  have hlen' := congrArg String.length h
  rw [String.length_append] at hlen hlen'
  have hr' : r.length ≠ 0 := by simpa using hr
  omega

theorem toList_header (name key : String) :
    (header name key).toList = ("SERVICE_NAME=" ++ name).toList ++ '\n' :: key.toList := by
  have hb : "\n".toList = ['\n'] := rfl
  rw [header, String.toList_append, String.toList_append, hb, append_assoc, singleton_append]

/-- The value of a key that is cut off is not found. -/
theorem lastWith_of_cut (hn : NoLineBreak name) (hk : key ∈ fieldKeys)
    (hk' : key ≠ "SERVICE_NAME=") {t r : String} (h : header name key = t ++ r) (hr : r ≠ "") :
    lastWith key (lines t) = none := by
  have hl : ("SERVICE_NAME=" ++ name).toList ++ '\n' :: key.toList = t.toList ++ r.toList := by
    rw [← String.toList_append, ← h, toList_header]
  rcases append_eq_append_iff.1 hl with ⟨c, ht, hc⟩ | ⟨c, ht, -⟩
  · rcases c with _ | ⟨x, u⟩
    · refine lastWith_of_cut_name hn hk hk' (c := "") ?_
      rw [String.append_empty, ← String.toList_inj, ht, append_nil]
    · obtain ⟨rfl, hu⟩ := cons_eq_cons.1 hc
      have ht' : t = header name (String.ofList u) := by
        rw [← String.toList_inj, ht, toList_header, String.toList_ofList]
      have hu' : key = String.ofList u ++ r := by
        rw [← String.toList_inj, hu]
        simp
      rw [ht']
      exact lastWith_of_cut_key hn hk hk' hu' hr
  · refine lastWith_of_cut_name hn hk hk' (c := String.ofList c) ?_
    rw [← String.toList_inj, ht]
    simp

/-- A notification arrives with its header, or is cut inside it. -/
theorem received_header {n : ℕ} {body t : String}
    (h : received n (header name key ++ body).toUTF8 = some t) :
    (∃ m, t = header name key ++ m) ∨ ∃ r, r ≠ "" ∧ header name key = t ++ r := by
  obtain ⟨-, r, hr⟩ := eq_append_of_received h
  have hl : (header name key).toList ++ body.toList = t.toList ++ r.toList := by
    rw [← String.toList_append, ← String.toList_append, hr]
  rcases append_eq_append_iff.1 hl with ⟨c, ht, -⟩ | ⟨c, ht, -⟩
  · exact .inl ⟨String.ofList c, by rw [← String.toList_inj, ht]; simp⟩
  · by_cases hc : c = []
    · exact .inl ⟨"", by rw [← String.toList_inj]; simp [ht, hc]⟩
    · exact .inr ⟨String.ofList c, by simpa using hc, by rw [← String.toList_inj, ht]; simp⟩

/-! ## The three notifications -/

/-- Lines that do not take a notification over: none renames the service or makes it ready. -/
structure Quiet (name : String) (ls : List String) : Prop where
  name_eq : ∀ v, lastWith "SERVICE_NAME=" ls = some v → v = name
  not_ready : lastReady ls = none

theorem getD_eq_iff_of_quiet {o : Option String} :
    o.getD name = name ↔ ∀ v, o = some v → v = name := by
  cases o <;> simp

/-- The condition for a status message: the header arrives, and among the received lines after
the message's first one the last name, if any, is the service's, the last `READY=` line, if any,
holds no process id, and the last `HEALTH=` line reads `health`. -/
def StatusSurvives (n : Notifier) (message : String) (health : Health) : Prop :=
  ∃ m, received maxDatagramSize (n.status message health) =
      some (header n.serviceName "STATUS=" ++ m) ∧
    Quiet n.serviceName (lines m).tail ∧ lastHealth (lines m).tail = health

/-- The condition for a stopping notification: as for a status message, and no received line
after the first one of the reason is a status line. -/
def StoppingSurvives (n : Notifier) (reason : String) : Prop :=
  ∃ m, received maxDatagramSize (n.stopping reason) = some (header n.serviceName "STOPPING=" ++ m) ∧
    Quiet n.serviceName (lines m).tail ∧ lastWith "STATUS=" (lines m).tail = none

variable {n : Notifier}

theorem status_eq (message : String) (health : Health) : n.status message health =
      (header n.serviceName "STATUS=" ++ (message ++ "\nHEALTH=" ++ health.asStr)).toUTF8 := by
  simp only [Notifier.status, header, String.append_assoc]
  rfl

theorem stopping_eq (reason : String) :
    n.stopping reason = (header n.serviceName "STOPPING=" ++ reason).toUTF8 := by
  simp only [Notifier.stopping, header, String.append_assoc]
  rfl

theorem ready_eq (pid : UInt32) :
    n.ready pid = (header n.serviceName "READY=" ++ pid.toNat.repr).toUTF8 := by
  simp only [Notifier.ready, header, String.append_assoc]
  rfl

theorem parse_status_header (hn : NoLineBreak name) (m : String) (health : Health) :
    (∃ text, parseNotification (header name "STATUS=" ++ m) =
        some (.statusUpdate name text health)) ↔
      Quiet name (lines m).tail ∧ lastHealth (lines m).tail = health := by
  obtain ⟨h₁, h₂, h₃⟩ := lastWith_header hn (show "STATUS=" ∈ fieldKeys by decide) (by decide) m
  obtain ⟨text, ht⟩ := isSome_iff_exists.1 h₂
  have hrd := h₃ "READY=" (by decide) (by decide) (by decide)
  have hhl := h₃ "HEALTH=" (by decide) (by decide) (by decide)
  rw [parseNotification_eq, h₁, ht]
  simp only [lastReady, lastHealth, hrd, hhl]
  constructor
  · rintro ⟨text', h⟩
    split at h
    · simp at h
    · next hr =>
      simp only [some.injEq, ServiceNotification.statusUpdate.injEq] at h
      exact ⟨⟨getD_eq_iff_of_quiet.1 h.1, hr⟩, h.2.2⟩
  · rintro ⟨hq, hh⟩
    have hr : (lastWith "READY=" (lines m).tail).bind parseU32 = none := hq.not_ready
    exact ⟨text, by rw [hr, hh, getD_eq_iff_of_quiet.2 hq.name_eq]⟩

theorem parse_stopping_header (hn : NoLineBreak name) (m : String) :
    parseNotification (header name "STOPPING=" ++ m) = some (.stopping name) ↔
      Quiet name (lines m).tail ∧ lastWith "STATUS=" (lines m).tail = none := by
  obtain ⟨h₁, h₂, h₃⟩ := lastWith_header hn (show "STOPPING=" ∈ fieldKeys by decide) (by decide) m
  obtain ⟨reason, hrs⟩ := isSome_iff_exists.1 h₂
  have hrd := h₃ "READY=" (by decide) (by decide) (by decide)
  have hst := h₃ "STATUS=" (by decide) (by decide) (by decide)
  rw [parseNotification_eq, h₁, hrs]
  simp only [lastReady, hrd, hst]
  constructor
  · intro h
    split at h
    · simp at h
    · next hr =>
      split at h
      · simp at h
      · next hs =>
        simp only [some.injEq, ServiceNotification.stopping.injEq] at h
        exact ⟨⟨getD_eq_iff_of_quiet.1 h, hr⟩, hs⟩
  · rintro ⟨hq, hs⟩
    have hr : (lastWith "READY=" (lines m).tail).bind parseU32 = none := hq.not_ready
    rw [hr, hs, getD_eq_iff_of_quiet.2 hq.name_eq]

theorem isSome_of_parse_statusUpdate {t text : String} {health : Health}
    (h : parseNotification t = some (.statusUpdate name text health)) :
    (lastWith "STATUS=" (lines t)).isSome := by
  rw [parseNotification_eq] at h
  repeat' split at h
  all_goals simp_all

theorem isSome_of_parse_stopping (h : parseNotification t = some (.stopping name)) :
    (lastWith "STOPPING=" (lines t)).isSome := by
  rw [parseNotification_eq] at h
  repeat' split at h
  all_goals simp_all

theorem isSome_of_parse_ready (h : parseNotification t = some (.ready name)) :
    (lastReady (lines t)).isSome := by
  rw [parseNotification_eq] at h
  repeat' split at h
  all_goals simp_all

theorem status_iff (hn : NoLineBreak n.serviceName) (message : String) (health : Health) :
    (∃ text, notification? (n.status message health) =
        some (.statusUpdate n.serviceName text health)) ↔ StatusSurvives n message health := by
  constructor
  · rintro ⟨text, h⟩
    obtain ⟨t, ht, hp⟩ := bind_eq_some_iff.1 h
    rw [status_eq] at ht
    rcases received_header ht with ⟨m, rfl⟩ | ⟨r, hr, hc⟩
    · exact ⟨m, by rw [status_eq, ht], (parse_status_header hn m health).1 ⟨text, hp⟩⟩
    · have hnn := lastWith_of_cut hn (by decide) (by decide) hc hr
      exact absurd (isSome_of_parse_statusUpdate hp) (by simp [hnn])
  · rintro ⟨m, hm, hm'⟩
    obtain ⟨text, hp⟩ := (parse_status_header hn m health).2 hm'
    exact ⟨text, by rw [notification?, hm, bind_some, hp]⟩

theorem stopping_iff (hn : NoLineBreak n.serviceName) (reason : String) :
    notification? (n.stopping reason) = some (.stopping n.serviceName) ↔
      StoppingSurvives n reason := by
  constructor
  · intro h
    obtain ⟨t, ht, hp⟩ := bind_eq_some_iff.1 h
    rw [stopping_eq] at ht
    rcases received_header ht with ⟨m, rfl⟩ | ⟨r, hr, hc⟩
    · exact ⟨m, by rw [stopping_eq, ht], (parse_stopping_header hn m).1 hp⟩
    · have hnn := lastWith_of_cut hn (by decide) (by decide) hc hr
      exact absurd (isSome_of_parse_stopping hp) (by simp [hnn])
  · rintro ⟨m, hm, hm'⟩
    rw [notification?, hm, bind_some, (parse_stopping_header hn m).2 hm']

/-- A ready notification of which at least one digit of the process id arrived. -/
theorem parse_ready_header (hnm : NoLineBreak name) {ds es : List Char} (hds : ds ≠ [])
    (h : ds ++ es = toDigits 10 pid.toNat) :
    parseNotification (header name "READY=" ++ String.ofList ds) = some (.ready name) := by
  have hd : ∀ c ∈ ds, c.isDigit := fun c hc =>
    isDigit_of_mem_toDigits (by omega) (by omega) (h ▸ mem_append_left es hc)
  have hn : '\n' ∉ ("READY=" ++ String.ofList ds).toList := by
    rw [String.toList_append, mem_append, not_or]
    exact ⟨by decide, fun hm => absurd (hd '\n' (by simpa using hm)) (by decide)⟩
  have hne : "READY=" ++ String.ofList ds ≠ "" := by
    simp
  have hsn : stripPrefix "READY=" ("SERVICE_NAME=" ++ name) = none :=
    stripPrefix_key_append (by decide) (by decide) (by decide) name
  have hrs : stripPrefix "SERVICE_NAME=" ("READY=" ++ String.ofList ds) = none :=
    stripPrefix_key_append (by decide) (by decide) (by decide) _
  obtain ⟨p, hp⟩ := isSome_iff_exists.1 (parseU32_isSome_of_toDigits pid.toNat_lt hds h)
  rw [parseNotification_eq, lines_header hnm, lines_of_not_mem hn hne]
  simp [lastReady, lastWith_cons, hrs, hp]

theorem utf8ByteSize_header (name key : String) :
    (header name key).utf8ByteSize = 14 + name.utf8ByteSize + key.utf8ByteSize := by
  have h₁ : "SERVICE_NAME=".utf8ByteSize = 13 := by decide
  have h₂ : "\n".utf8ByteSize = 1 := by decide
  simp only [header, String.utf8ByteSize_append]
  omega

theorem utf8ByteSize_pos {s : String} (h : s ≠ "") : 0 < s.utf8ByteSize :=
  Nat.pos_of_ne_zero fun h0 => h (String.utf8ByteSize_eq_zero_iff.1 h0)

/-- A `READY` notification that is understood arrived with a digit at least. -/
theorem lt_of_ready (hn : NoLineBreak n.serviceName)
    (h : notification? (n.ready pid) = some (.ready n.serviceName)) :
    (header n.serviceName "READY=").utf8ByteSize < maxDatagramSize := by
  obtain ⟨t, ht, hp⟩ := bind_eq_some_iff.1 h
  rw [ready_eq] at ht
  rcases received_header ht with ⟨m, rfl⟩ | ⟨r, hr, hc⟩
  · have hm : m ≠ "" := by
      rintro rfl
      have hrd := isSome_of_parse_ready hp
      rw [lines_header hn, lastReady, lastWith_cons,
        stripPrefix_key_append (by decide) (by decide) (by decide)] at hrd
      exact absurd hrd (by decide)
    have hle := (eq_append_of_received ht).1
    have hps := utf8ByteSize_pos hm
    rw [String.utf8ByteSize_append] at hle
    omega
  · have hnn := lastWith_of_cut hn (by decide) (by decide) hc hr
    exact absurd (isSome_of_parse_ready hp) (by simp [lastReady, hnn])

/-- What arrives of a `READY` notification whose header arrives: `k` digits at most. -/
theorem received_ready {k : ℕ}
    (hk : (header n.serviceName "READY=").utf8ByteSize + k = maxDatagramSize) :
    received maxDatagramSize (n.ready pid) = some (header n.serviceName "READY=" ++
        String.ofList ((toDigits 10 pid.toNat).take k)) := by
  set ds := toDigits 10 pid.toNat with hds
  have hr : pid.toNat.repr = String.ofList ds := repr_eq_ofList_toDigits
  have hd : ∀ c ∈ ds, c.isDigit := fun c hc =>
    isDigit_of_mem_toDigits (by omega) (by omega) hc
  rw [ready_eq, hr]
  by_cases hf : ds.length ≤ k
  · rw [take_of_length_le hf]
    refine received_toUTF8 ?_
    rw [String.utf8ByteSize_append, utf8ByteSize_ofList_of_digits hd]
    omega
  · have hct : String.ofList ds = String.ofList (ds.take k) ++ String.ofList (ds.drop k) := by
      rw [← String.toList_inj]
      simp
    rw [hct, ← String.append_assoc]
    refine received_append ?_ _
    rw [String.utf8ByteSize_append,
      utf8ByteSize_ofList_of_digits fun c hc => hd c (mem_of_mem_take hc),
      length_take]
    omega

theorem ready_iff (hn : NoLineBreak n.serviceName) (pid : UInt32) :
    notification? (n.ready pid) = some (.ready n.serviceName) ↔
      n.serviceName.utf8ByteSize + 21 ≤ maxDatagramSize := by
  have hs := utf8ByteSize_header n.serviceName "READY="
  rw [show "READY=".utf8ByteSize = 6 by decide] at hs
  constructor
  · intro h
    have hlt := lt_of_ready hn h
    omega
  · intro h
    -- the digits that fit, at least one
    obtain ⟨k, hk⟩ : ∃ k, (header n.serviceName "READY=").utf8ByteSize + k = maxDatagramSize :=
      ⟨maxDatagramSize - (header n.serviceName "READY=").utf8ByteSize, by omega⟩
    have hne : toDigits 10 pid.toNat ≠ [] := toDigits_ne_nil
    have hp : (toDigits 10 pid.toNat).take k ≠ [] := by
      rw [Ne, take_eq_nil_iff, not_or]
      exact ⟨by omega, hne⟩
    rw [notification?, received_ready hk, bind_some,
      parse_ready_header hn hp (take_append_drop k _)]

/-- A message of one line that fits the buffer survives. -/
theorem statusSurvives_of_oneLine {message : String} (hms : '\n' ∉ message.toList)
    (health : Health) (hf : (n.status message health).size ≤ maxDatagramSize) :
    StatusSurvives n message health := by
  have hr : received maxDatagramSize (n.status message health) = some
      (header n.serviceName "STATUS=" ++ (message ++ "\nHEALTH=" ++ health.asStr)) := by
    rw [status_eq] at hf ⊢
    exact received_toUTF8 (by simpa using hf)
  have hm : message ++ "\nHEALTH=" ++ health.asStr =
      message ++ "\n" ++ ("HEALTH=" ++ health.asStr) := by
    simp only [String.append_assoc]
    rfl
  have ht : (lines (message ++ "\nHEALTH=" ++ health.asStr)).tail =
      ["HEALTH=" ++ health.asStr] := by
    rw [hm, tail_lines_append_newline hms]
    cases health <;> decide
  refine ⟨_, hr, ?_, ?_⟩
  · rw [ht]
    have hn : lastWith "SERVICE_NAME=" ["HEALTH=" ++ health.asStr] = none := by
      cases health <;> decide
    exact ⟨fun v hv => absurd (hn.symm.trans hv) (by simp), by cases health <;> decide⟩
  · rw [ht]
    cases health <;> decide

/-- **The wire round trip**, for a service name without line breaks: when each of the three
notifications is understood as what was sent. -/
theorem wire_round_trip_iff (n : Notifier) (hname : NoLineBreak n.serviceName)
    (message reason : String) (health : Health) (pid : UInt32) :
    ((∃ text, notification? (n.status message health) =
        some (.statusUpdate n.serviceName text health)) ↔ StatusSurvives n message health) ∧
      (notification? (n.ready pid) = some (.ready n.serviceName) ↔
        n.serviceName.utf8ByteSize + 21 ≤ maxDatagramSize) ∧
      (notification? (n.stopping reason) = some (.stopping n.serviceName) ↔
        StoppingSurvives n reason) :=
  ⟨status_iff hname message health, ready_iff hname pid, stopping_iff hname reason⟩

/-- A one-line message of `timed` arrives as it was sent. -/
theorem wire_round_trip_timed : NoLineBreak "timed" ∧
    ∃ text, notification? (Notifier.status ⟨"timed"⟩ "clock step failed" .degraded) =
      some (.statusUpdate "timed" text .degraded) :=
  ⟨by decide, ((wire_round_trip_iff ⟨"timed"⟩ (by decide) "clock step failed" "" .degraded 1).1).2
    (statusSurvives_of_oneLine (by decide) .degraded (by decide))⟩

/-- A message whose second line looks like a field takes the notification over: the degraded
service is reported ready. -/
theorem status_message_taken_over : NoLineBreak "timed" ∧
    notification? (Notifier.status ⟨"timed"⟩ "sync failed:\nREADY=1" .degraded) =
      some (.ready "timed") ∧
    ¬ ∃ text, notification? (Notifier.status ⟨"timed"⟩ "sync failed:\nREADY=1" .degraded) =
      some (.statusUpdate "timed" text .degraded) := by
  have h : notification? (Notifier.status ⟨"timed"⟩ "sync failed:\nREADY=1" .degraded) =
      some (.ready "timed") := by
    rw [notification?, Notifier.status, received_toUTF8 (by decide)]
    decide
  refine ⟨by decide, h, ?_⟩
  rintro ⟨text, ht⟩
  rw [h] at ht
  simp at ht

end Muak.Granola
