import Muak.Luks2.Volume

/-!
# The TPM2 token over the life of a volume

`read_tpm2_token` and `write_tpm2_token` of `libs/luks2/src/lib.rs`. Every call reads the metadata,
puts the token in the place of the one before and writes all of them back.

* `Carries`: metadata with at most one token, and in all else those of `format`.
* `carries_setTpm2Token`, `kept_call`: what one call makes of them.
* `last_token_kept`: whatever the calls of a history, the token read is that of the last which
  succeeded.

The maps of the metadata are hash maps, whose order changes from call to call. Each call is made
under an `Order` of its own.
-/

namespace Muak.Luks2

open Muak.Bytes Option Dict

/-! ## Orders of the maps -/

namespace Metadata

variable {left middle right : Metadata}

theorem Same.trans (h : left.Same middle) (h' : middle.Same right) : left.Same right :=
  ⟨fun id => (h.keyslots id).trans (h'.keyslots id), fun id => (h.tokens id).trans (h'.tokens id),
    fun id => (h.segments id).trans (h'.segments id),
    fun id => (h.digests id).trans (h'.digests id), h.config.trans h'.config⟩

theorem Same.symm (h : left.Same right) : right.Same left :=
  ⟨fun id => (h.keyslots id).symm, fun id => (h.tokens id).symm, fun id => (h.segments id).symm,
    fun id => (h.digests id).symm, h.config.symm⟩

end Metadata

/-- The order in which a call finds the entries of its maps. -/
structure Order where
  arrange : Metadata → Metadata
  same : ∀ metadata, (arrange metadata).Same metadata

/-- Serialization as it is in a call with this order. -/
def JsonCodec.under (codec : JsonCodec) (order : Order) : JsonCodec where
  toVecPretty metadata := codec.toVecPretty (order.arrange metadata)
  fromSlice text := (codec.fromSlice text).map order.arrange
  zero_not_mem metadata := codec.zero_not_mem _
  fromSlice_toVecPretty metadata hfits := by
    obtain ⟨back, hback, hsame⟩ := codec.fromSlice_toVecPretty _ hfits
    rw [hback]
    exact ⟨_, rfl, ((order.same back).trans hsame).trans (order.same metadata)⟩

def Env.under (env : Env) (order : Order) : Env := ⟨env.crypto, env.codec.under order⟩

variable {env : Env} {order : Order} {device : Device} {metadata : Metadata}

theorem readMetadata_under : readMetadata (env.under order) device =
    (readMetadata env device).map order.arrange := by
  unfold readMetadata
  cases readAt device binaryHeaderSize defaultJsonSize <;> rfl

/-! ## Reading the token -/

/-- What becomes of a JSON value that should be a token. -/
structure TokenReader where
  fromValue : TokenValue → Result Tpm2Token
  fromValue_serialized : ∀ token, fromValue (.serialized token) = .ok token

variable (reader : TokenReader)

/-- The first token for a TPM. -/
def Metadata.getTpm2Token (metadata : Metadata) : Result Tpm2Token := do
  let (_, value) ← okOr (metadata.tokens.entries.find? fun entry => entry.2.type = some "tpm2")
    .noTpm2Token
  reader.fromValue value

def readTpm2Token (env : Env) (device : Device) : Result Tpm2Token := do
  let metadata ← readMetadata env device
  metadata.getTpm2Token reader

/-! ## Metadata with at most one token -/

variable {base : Metadata} {last : Option Tpm2Token}

/-- `base`, with the token of the last write as the only one. -/
structure Carries (base : Metadata) (last : Option Tpm2Token) (metadata : Metadata) : Prop where
  keyslots : ∀ id, metadata.keyslots.get? id = base.keyslots.get? id
  segments : ∀ id, metadata.segments.get? id = base.segments.get? id
  digests : ∀ id, metadata.digests.get? id = base.digests.get? id
  config : metadata.config = base.config
  tokens : ∃ place, ∀ id,
    metadata.tokens.get? id = if id = place then last.map .serialized else none

theorem Carries.of_same {back : Metadata} (h : Carries base last metadata)
    (hs : back.Same metadata) : Carries base last back :=
  ⟨fun id => (hs.keyslots id).trans (h.keyslots id),
    fun id => (hs.segments id).trans (h.segments id),
    fun id => (hs.digests id).trans (h.digests id), hs.config.trans h.config,
    h.tokens.imp fun _ hp id => (hs.tokens id).trans (hp id)⟩

section

variable (h : Carries base last metadata) (htype : ∀ token ∈ last, token.type = "tpm2")

include h htype

/-- The search for a token of the type finds the one there is, and no other. -/
theorem Carries.find_token : ∃ place,
    (∀ id, metadata.tokens.get? id = if id = place then last.map .serialized else none) ∧
    (metadata.tokens.entries.find? fun entry => entry.2.type = some "tpm2") =
      last.map fun token => (place, .serialized token) := by
  obtain ⟨place, hp⟩ := h.tokens
  have hm : ∀ entry ∈ metadata.tokens.entries,
      ∃ token ∈ last, entry = (place, .serialized token) := by
    rintro ⟨id, value⟩ he
    have hget := get?_eq_some_iff.2 he
    rw [hp id] at hget
    split_ifs at hget with hid
    obtain ⟨token, ht, hv⟩ := map_eq_some_iff.1 hget
    exact ⟨token, ht, by rw [hid, hv]⟩
  refine ⟨place, hp, ?_⟩
  cases last with
  | none =>
    exact List.find?_eq_none.2 fun entry he => absurd (hm entry he) (by simp)
  | some token =>
    have he : (place, TokenValue.serialized token) ∈ metadata.tokens.entries :=
      get?_eq_some_iff.1 (by simp [hp])
    have hs : (metadata.tokens.entries.find? fun entry =>
        entry.2.type = some "tpm2").isSome :=
      List.find?_isSome.2 ⟨_, he, by simpa [TokenValue.type] using htype token rfl⟩
    obtain ⟨found, hf⟩ := isSome_iff_exists.1 hs
    obtain ⟨token', ht', rfl⟩ := hm found (List.mem_of_find?_eq_some hf)
    rw [hf, mem_some.1 ht']
    rfl

theorem carries_setTpm2Token (token : Tpm2Token) :
    Carries base (some token) (metadata.setTpm2Token token) := by
  obtain ⟨place, hp, hfn⟩ := h.find_token htype
  refine ⟨h.keyslots, h.segments, h.digests, h.config, metadata.findOrAllocTpm2TokenId,
    fun id => ?_⟩
  simp only [Metadata.setTpm2Token, get?_insert]
  split_ifs with hid
  · rfl
  -- another id: had there been a token, the new one would have taken its place
  rw [hp id]
  cases last with
  | none => exact ite_self _
  | some old =>
    have hf : metadata.findOrAllocTpm2TokenId = place := by
      simp [Metadata.findOrAllocTpm2TokenId, hfn]
    exact if_neg (hf ▸ hid)

theorem Carries.getTpm2Token : metadata.getTpm2Token reader = okOr last .noTpm2Token := by
  obtain ⟨place, -, hf⟩ := h.find_token htype
  rw [Metadata.getTpm2Token, hf]
  cases last with
  | none => rfl
  | some token => exact reader.fromValue_serialized token

end

/-! ## Histories -/

/-- A call of `write_tpm2_token`. -/
structure Call where
  token : Tpm2Token
  order : Order

/-- The device, and the token of the last call that succeeded. -/
structure History where
  device : Device
  last : Option Tpm2Token

/-- One call more, and its token if it succeeds. -/
def History.call (env : Env) (history : History) (call : Call) : History :=
  match writeTpm2Token (env.under call.order) history.device call.token with
  | (device, .ok ()) => ⟨device, some call.token⟩
  | (device, .error _) => ⟨device, history.last⟩

/-- A volume as its history says. -/
structure Kept (env : Env) (base : Metadata) (history : History) : Prop where
  size : defaultHeaderSize + binaryHeaderSize + defaultJsonSize ≤ history.device.length
  type_last : ∀ token ∈ history.last, token.type = "tpm2"
  carries : ∃ metadata, readMetadata env history.device = .ok metadata ∧
    Carries base history.last metadata

variable {history : History}

/-- What a call finds, in the order it finds it. -/
theorem Kept.read_under (h : Kept env base history) (order : Order) :
    ∃ metadata, readMetadata (env.under order) history.device = .ok metadata ∧
      Carries base history.last metadata := by
  obtain ⟨metadata, hr, hc⟩ := h.carries
  rw [readMetadata_under, hr]
  exact ⟨_, rfl, hc.of_same (order.same metadata)⟩

/-- **One call**: it fails, with the device as it was, when the new JSON is too long, and else puts
its token in the place of the last. -/
theorem writeTpm2Token_cases_of_kept (h : Kept env base history) {token : Tpm2Token}
    (htype : token.type = "tpm2") (order : Order) : ∃ metadata,
    readMetadata (env.under order) history.device = .ok metadata ∧
    ((∃ e, (env.under order).codec.toJsonBuffer (metadata.setTpm2Token token) defaultJsonSize =
        .error e ∧
      writeTpm2Token (env.under order) history.device token = (history.device, .error e)) ∨
    ∃ newJson device,
      (env.under order).codec.toJsonBuffer (metadata.setTpm2Token token) defaultJsonSize =
        .ok newJson ∧
      writeTpm2Token (env.under order) history.device token = (device, .ok ()) ∧
      Kept env base ⟨device, some token⟩) := by
  obtain ⟨metadata, hr, hc⟩ := h.read_under order
  refine ⟨metadata, hr, ?_⟩
  obtain hf | ⟨newJson, hj, hlen, hw⟩ := writeTpm2Token_cases h.size hr token
  · exact .inl hf
  refine .inr ⟨newJson, _, hj, hw, by simpa using h.size,
    fun _ ht => mem_some.1 ht ▸ htype, ?_⟩
  -- the text is that of the arranged metadata
  obtain ⟨back, hb, hs⟩ := @exists_readMetadata env _
    (order.arrange (metadata.setTpm2Token token)) newJson (slice_newJson h.size hlen) hj
  exact ⟨back, hb, (carries_setTpm2Token hc h.type_last token).of_same (hs.trans (order.same _))⟩

theorem kept_call (h : Kept env base history) {call : Call} (htype : call.token.type = "tpm2") :
    Kept env base (history.call env call) := by
  obtain ⟨metadata, -, ⟨e, -, hw⟩ | ⟨newJson, device, -, hw, hk⟩⟩ :=
    writeTpm2Token_cases_of_kept h htype call.order
  · simpa [History.call, hw] using h
  · simpa [History.call, hw] using hk

theorem kept_format {random : Random} {device' : Device} {sectorSize : Option UInt32}
    {passphrase : Bytes} {label : String}
    (h : format (env.under order) random device sectorSize passphrase label = (device', .ok ())) :
    Kept env (formatMetadata env.crypto random (normalizeSectorSize sectorSize))
      ⟨device', none⟩ := by
  obtain ⟨hsz, metadata, hr, hs⟩ := readMetadata_format h
  refine ⟨hsz, fun _ ht => (nomatch ht), ?_⟩
  rw [readMetadata_under] at hr
  obtain ⟨found, hfn, rfl⟩ := map_eq_ok_iff.1 hr
  have hf := (order.same found).symm.trans hs
  refine ⟨found, hfn, hf.keyslots, hf.segments, hf.digests, hf.config, "",
    fun id => ?_⟩
  rw [hf.tokens, map_none, ite_self]
  rfl

/-- **The token of the last write.** However a formatted volume is written to, and in whatever
orders the calls find the maps: a read returns the token of the last write that succeeded, no other
token is there and the rest of the metadata is that of `format`. The next write succeeds exactly
if its JSON fits, and otherwise leaves the device as it is. -/
theorem last_token_kept (env : Env) (random : Random) (sectorSize : Option UInt32)
    (passphrase : Bytes) (label : String) (order : Order) {device device' : Device}
    (h : format (env.under order) random device sectorSize passphrase label = (device', .ok ()))
    (calls : List Call) (htype : ∀ call ∈ calls, call.token.type = "tpm2") :
    let history := runFrom (History.call env) ⟨device', none⟩ calls
    let base := formatMetadata env.crypto random (normalizeSectorSize sectorSize)
    ∀ order : Order,
      readTpm2Token reader (env.under order) history.device = okOr history.last .noTpm2Token ∧
      ∃ metadata, readMetadata (env.under order) history.device = .ok metadata ∧
        (∀ id id' value value', metadata.tokens.get? id = some value →
          metadata.tokens.get? id' = some value' → value.type = some "tpm2" →
          value'.type = some "tpm2" → id = id') ∧
        (∀ id, metadata.keyslots.get? id = base.keyslots.get? id) ∧
        (∀ id, metadata.digests.get? id = base.digests.get? id) ∧
        (∀ id, metadata.segments.get? id = base.segments.get? id) ∧
        metadata.config = base.config ∧
        ∀ token : Tpm2Token, token.type = "tpm2" →
          let next := writeTpm2Token (env.under order) history.device token
          (next.2 = .ok () ↔ ((env.under order).codec.toVecPretty
            (metadata.setTpm2Token token)).length ≤ defaultJsonSize) ∧
          (next.2 ≠ .ok () → next.1 = history.device) := by
  intro history base order'
  have hk : Kept env base history := runFrom_invariant_mem (Kept env base)
    (fun call hcl history hk => kept_call hk (htype call hcl)) (kept_format h)
  obtain ⟨metadata, hr, hc⟩ := hk.read_under order'
  have hget := hc.getTpm2Token reader hk.type_last
  refine ⟨by rw [readTpm2Token, hr]; exact hget, metadata, hr, ?_, hc.keyslots,
    hc.digests, hc.segments, hc.config, fun token ht => ?_⟩
  · intro id id' value value' hid hid' _ _
    obtain ⟨place, hp⟩ := hc.tokens
    rw [hp] at hid hid'
    split_ifs at hid hid' with heq heq'
    rw [heq, heq']
  · obtain ⟨found, hf, hcs⟩ := writeTpm2Token_cases_of_kept hk ht order'
    obtain rfl := Except.ok.inj (hr.symm.trans hf)
    obtain ⟨e, hj, hw⟩ | ⟨newJson, device, hj, hw, -⟩ := hcs
    · have hl : ¬ ((env.under order').codec.toVecPretty
          (metadata.setTpm2Token token)).length ≤ defaultJsonSize := fun hft =>
        nomatch hj.symm.trans (JsonCodec.toJsonBuffer_eq_ok_iff.2 ⟨hft, rfl⟩)
      simp [hw, hl]
    · simpa [hw] using (JsonCodec.toJsonBuffer_eq_ok_iff.1 hj).1

/-- The maps in the order in which they were built. -/
def asBuilt : Order := ⟨id, .refl⟩

/-- A reader of the tokens that were serialized. -/
def plainReader : TokenReader where
  fromValue
    | .serialized token => .ok token
    | .other _ _ => .error (.json "missing field")
  fromValue_serialized _ := rfl

theorem last_token_kept_plain : ∃ device',
    format (plainEnv.under asBuilt) plainRandom (zeros (2 ^ 25)) none [] "STATE" =
      (device', .ok ()) ∧
    let history := runFrom (History.call plainEnv) ⟨device', none⟩ [⟨plainToken, asBuilt⟩]
    readTpm2Token plainReader (plainEnv.under asBuilt) history.device =
      okOr history.last .noTpm2Token := by
  obtain ⟨device', h⟩ : ∃ device', format (plainEnv.under asBuilt) plainRandom (zeros (2 ^ 25))
      none [] "STATE" = (device', .ok ()) :=
    exists_format (by rw [Room, length_zeros]; decide) rfl rfl toJsonBuffer_plain
  exact ⟨device', h, (last_token_kept plainReader plainEnv plainRandom none [] "STATE" asBuilt h _
    (by simp [plainToken]) asBuilt).1⟩

end Muak.Luks2
