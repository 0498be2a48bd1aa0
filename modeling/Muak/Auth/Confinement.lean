import Muak.Auth.Enrollment

/-!
# Confinement of the enrollment endpoints

`ack_enrollment` and `get_csr_status` of `services/provisiond/src/ipc/auth.rs` take a fingerprint
from clients that are not authenticated, and make file names of it. Here the paths are resolved in a
tree of directories, with `..` leading to the parent.

* `AckConfined`, `StatusConfined`: the first removes at most one file of the staging directory, and
  the answer of the second depends on the files of the two directories and on `ca.crt` only.
* `confinement_iff`: this is so exactly for the fingerprints whose paths lead nowhere else.
* `harmless_of_no_slash`: those without a slash are of this kind.
* `ca_certificate_removed`: the fingerprint `../ca` removes the certificate of the authority.
-/

namespace Muak.Auth

open Muak.Path List Dict

variable {κ δ : Type} {path file : String} {loc : Location}

/-- The environment with paths resolved in a tree of directories. -/
def Env.within (env : Env κ δ) (d : Tree) : Env κ δ :=
  { env with resolve := d.resolve, isDir := fun file => d.isDir (components file) }

def stagingDir : Location := components (join secretsDir "staging")

def pendingDir : Location := components (join secretsDir "pending")

/-- The file is directly inside the directory. -/
def InDir (dir : Location) (file : String) : Prop :=
  ∃ name, IsName name ∧ file = render (dir ++ [name])

/-- The files that the status of a request may be read from. -/
def Readable (file : String) : Prop :=
  InDir stagingDir file ∨ InDir pendingDir file ∨ file = caCertPath

/-- All files are in directories of the tree. -/
def Held (d : Tree) (files : Dict String String) : Prop := ∀ file ∈ files.keys, d.Holds file

/-- Acknowledging removes nothing, or one file of the staging directory. -/
def AckConfined (env : Env κ δ) (fingerprint : String) : Prop :=
  ∀ (d : Tree) (s : Service κ δ), Held d s.files → s.ackEnrollment (env.within d) fingerprint = s ∨
    ∃ file, InDir stagingDir file ∧
      s.ackEnrollment (env.within d) fingerprint = { s with files := s.files.erase file }

/-- Two services whose files differ only where the status may not be read from give the same answer,
and their files stay as they are. -/
def StatusConfined (env : Env κ δ) (fingerprint : String) : Prop :=
  ∀ (d : Tree) (s t : Service κ δ), Held d s.files → Held d t.files → s.host = t.host →
    (∀ file, Readable file → s.files.get? file = t.files.get? file) →
    (s.getCsrStatus (env.within d) fingerprint).2 = (t.getCsrStatus (env.within d) fingerprint).2 ∧
    (s.getCsrStatus (env.within d) fingerprint).1.files = s.files

/-- The paths made of the fingerprint lead to no other files. -/
def Harmless (fingerprint : String) : Prop :=
  (∀ loc, Reaches (stagingCertPath fingerprint) loc → InDir stagingDir (render loc)) ∧
  ∀ loc, Reaches (pendingCsrPath fingerprint) loc → Readable (render loc)

/-! ## Files at the end of a path -/

variable {env : Env κ δ} {fingerprint : String} {d : Tree} {s t : Service κ δ}

/-- A path that is resolved to a file can lead to it. -/
theorem reaches_of_mem {files : Dict String String} (hh : Held d files)
    (hr : d.resolve path = .ok file) (hf : file ∈ files.keys) :
    ∃ loc, Reaches path loc ∧ render loc = file := by
  obtain ⟨loc, hlc, rfl⟩ := d.resolve_eq_ok_iff.1 hr
  obtain ⟨dir, name, heq, hn, -, hnt⟩ := hh _ hf
  have hl : ∀ n ∈ loc, IsName n := by
    rw [← ((d.locate_eq_ok_iff).1 hlc).2.2]
    exact isName_of_mem_follow_components path
  have hc : loc = dir ++ [name] := by
    have h := congrArg components heq
    rwa [components_render hl, components_render hn] at h
  rw [← hc] at hnt
  exact ⟨loc, Tree.reaches_of_locate hlc hnt, rfl⟩

/-- **What acknowledging does**: it removes the file at the end of the path, if there is one. -/
theorem ackEnrollment_cases (env : Env κ δ) (s : Service κ δ) (fingerprint : String) :
    s.ackEnrollment env fingerprint = s ∨
    ∃ file ∈ s.files.keys, env.resolve (stagingCertPath fingerprint) = .ok file ∧
      s.ackEnrollment env fingerprint = { s with files := s.files.erase file } := by
  unfold Service.ackEnrollment Service.removeFile
  split_ifs
  · cases hr : env.resolve (stagingCertPath fingerprint) with
    | error e => exact .inl rfl
    | ok file =>
      by_cases hf : file ∈ s.files.keys
      · exact .inr ⟨file, hf, rfl, rfl⟩
      · refine .inl ?_
        simp [Dict.erase_of_not_mem hf]
  · exact .inl rfl

/-- Files that agree where they may be read agree at the end of a path that leads nowhere else. -/
theorem get?_eq_of_reaches (hs : Held d s.files) (ht : Held d t.files)
    (hagree : ∀ file, Readable file → s.files.get? file = t.files.get? file)
    (hp : ∀ loc, Reaches path loc → Readable (render loc))
    (hrs : d.resolve path = .ok file) : s.files.get? file = t.files.get? file := by
  have hr : ∀ {files : Dict String String}, Held d files → file ∈ files.keys → Readable file := by
    intro files hh hm
    obtain ⟨loc, hrc, rfl⟩ := reaches_of_mem hh hrs hm
    exact hp loc hrc
  by_cases hf : Readable file
  · exact hagree file hf
  · rw [get?_eq_none_iff.2 fun hm => hf (hr hs hm), get?_eq_none_iff.2 fun hm => hf (hr ht hm)]

section Status

variable (hs : Held d s.files) (ht : Held d t.files)
  (hagree : ∀ file, Readable file → s.files.get? file = t.files.get? file)
include hs ht hagree

theorem readToString_eq (hp : ∀ loc, Reaches path loc → Readable (render loc)) :
    s.readToString (env.within d) path = t.readToString (env.within d) path := by
  unfold Service.readToString
  cases hr : (env.within d).resolve path with
  | error e => rfl
  | ok file => simp [get?_eq_of_reaches hs ht hagree hp hr]

theorem hasFile_eq (hp : ∀ loc, Reaches path loc → Readable (render loc)) :
    s.hasFile (env.within d) path = t.hasFile (env.within d) path := by
  unfold Service.hasFile
  cases hr : (env.within d).resolve path with
  | error e => rfl
  | ok file => simp [get?_eq_of_reaches hs ht hagree hp hr]

theorem stagedStatus_eq (h : Harmless fingerprint) :
    s.stagedStatus (env.within d) fingerprint = t.stagedStatus (env.within d) fingerprint := by
  have hca : ∀ loc, Reaches caCertPath loc → Readable (render loc) := by
    rintro loc ⟨-, rfl, -⟩
    exact .inr (.inr (by decide))
  unfold Service.stagedStatus Service.loadStagingCert
  rw [readToString_eq hs ht hagree hca, hasFile_eq hs ht hagree h.2,
    readToString_eq hs ht hagree fun loc hl => .inl (h.1 loc hl)]

end Status

/-! ## The two endpoints -/

theorem ackConfined_of_harmless (h : Harmless fingerprint) : AckConfined env fingerprint := by
  intro d s hh
  obtain hsm | ⟨file, hf, hrs, heq⟩ := ackEnrollment_cases (env.within d) s fingerprint
  · exact .inl hsm
  · obtain ⟨loc, hr, rfl⟩ := reaches_of_mem hh hrs hf
    exact .inr ⟨render loc, h.1 loc hr, heq⟩

theorem statusConfined_of_harmless (h : Harmless fingerprint) : StatusConfined env fingerprint := by
  intro d s t hs ht hh hagree
  unfold Service.getCsrStatus
  rw [hh]
  simp only
  split_ifs
  · exact ⟨rfl, rfl⟩
  · refine ⟨?_, rfl⟩
    exact stagedStatus_eq hs ht hagree h

/-- A service with one file. -/
def lone (file : String) : Service κ δ := ⟨⟨none, none⟩, empty.insert file "", []⟩

theorem held_lone (hf : d.Holds file) : Held d (lone file : Service κ δ).files := by
  intro other ho
  obtain ⟨contents, hget⟩ := mem_keys_iff.1 ho
  rw [lone, get?_insert] at hget
  split_ifs at hget with heq
  · rwa [heq]
  · simp at hget

/-- A path that can lead outside removes a file there. -/
theorem inDir_of_ackConfined (h : AckConfined env fingerprint)
    (hr : Reaches (stagingCertPath fingerprint) loc) : InDir stagingDir (render loc) := by
  obtain ⟨d, hl, -, hh⟩ := hr.exists_tree
  have hrs : (env.within d).resolve (stagingCertPath fingerprint) = .ok (render loc) :=
    d.resolve_eq_ok_iff.2 ⟨loc, hl, rfl⟩
  have hget : (lone (render loc) : Service κ δ).files.get? (render loc) = some "" :=
    get?_insert_self _ _ _
  have ha : ((lone (render loc) : Service κ δ).ackEnrollment (env.within d) fingerprint).files =
      (lone (render loc) : Service κ δ).files.erase (render loc) := by
    unfold Service.ackEnrollment Service.hasFile Service.removeFile
    simp [hrs, hget]
  obtain hsm | ⟨file, hf, heq⟩ := h d (lone (render loc)) (held_lone hh)
  · rw [hsm] at ha
    rw [ha, get?_erase] at hget
    simp at hget
  · rw [heq] at ha
    have hn := congrArg (get? · (render loc)) ha
    simp only [get?_erase] at hn
    split_ifs at hn with hsm
    · rwa [hsm]
    · rw [hget] at hn
      simp at hn

/-- Without the certificate of the authority, only the request itself is looked for. -/
theorem stagedStatus_of_no_ca (env : Env κ δ) (s : Service κ δ) (fingerprint : String)
    (hca : ∀ caPem, s.readToString env caCertPath ≠ .ok caPem) :
    s.stagedStatus env fingerprint =
      if s.hasFile env (pendingCsrPath fingerprint) then Service.bare .pending
      else Service.bare .notFound := by
  unfold Service.stagedStatus
  split
  · next caPem certPem hl =>
    obtain ⟨pem, hp, -⟩ := of_bind hl
    exact absurd hp (hca pem)
  · rfl

/-- A path that can lead outside tells whether there is a file. -/
theorem readable_of_statusConfined (h : StatusConfined env fingerprint)
    (hrc : Reaches (pendingCsrPath fingerprint) loc) : Readable (render loc) := by
  obtain ⟨d, hl, hn, hh⟩ := hrc.exists_tree
  have hr : (env.within d).resolve (pendingCsrPath fingerprint) = .ok (render loc) :=
    d.resolve_eq_ok_iff.2 ⟨loc, hl, rfl⟩
  have hc : components (render loc) = loc := by
    refine components_render ?_
    rw [← ((d.locate_eq_ok_iff).1 hl).2.2]
    exact isName_of_mem_follow_components _
  by_contra hu
  -- a service with a file at the end of the path, and one without files
  let full : Service κ δ := lone (render loc)
  let vacant : Service κ δ := ⟨⟨none, none⟩, empty, []⟩
  have hagree : ∀ file, Readable file → full.files.get? file = vacant.files.get? file := by
    intro file hf
    have hne : file ≠ render loc := fun heq => hu (heq ▸ hf)
    exact get?_insert_of_ne _ _ hne
  have hcV : ∀ caPem, vacant.readToString (env.within d) caCertPath ≠ .ok caPem := by
    intro caPem hre
    obtain ⟨file, -, hget⟩ := of_bind hre
    exact absurd (okOr_eq_ok_iff.1 hget) (by simp [vacant])
  have hcF : ∀ caPem, full.readToString (env.within d) caCertPath ≠ .ok caPem := by
    intro caPem hre
    obtain ⟨file, hf, hget⟩ := of_bind hre
    obtain ⟨ca, hca, rfl⟩ := d.resolve_eq_ok_iff.1 hf
    have hrd : Readable (render ca) := by
      rw [← ((d.locate_eq_ok_iff).1 hca).2.2]
      exact .inr (.inr (by decide))
    rw [hagree _ hrd] at hget
    exact absurd (okOr_eq_ok_iff.1 hget) (by simp [vacant])
  have ha := (h d full vacant (held_lone hh) (fun _ hm => absurd hm not_mem_nil)
    rfl hagree).1
  change full.stagedStatus (env.within d) fingerprint =
    vacant.stagedStatus (env.within d) fingerprint at ha
  have hfl : full.hasFile (env.within d) (pendingCsrPath fingerprint) = true := by
    simp [Service.hasFile, hr, full, lone]
  have hv : vacant.hasFile (env.within d) (pendingCsrPath fingerprint) = false := by
    have hi : (env.within d).isDir (render loc) = false := by
      simp [Env.within, hc, hn]
    simp [Service.hasFile, hr, hi, vacant]
  rw [stagedStatus_of_no_ca _ _ _ hcF, stagedStatus_of_no_ca _ _ _ hcV, hfl, hv] at ha
  simp [Service.bare] at ha

/-- **Confinement of the enrollment endpoints**, for every fingerprint: they keep to the staging and
the pending directory exactly if the two paths made of the fingerprint lead to no file elsewhere. -/
theorem confinement_iff (env : Env κ δ) (fingerprint : String) :
    AckConfined env fingerprint ∧ StatusConfined env fingerprint ↔ Harmless fingerprint := by
  constructor
  · rintro ⟨ha, hst⟩
    exact ⟨fun _ => inDir_of_ackConfined ha, fun _ => readable_of_statusConfined hst⟩
  · intro h
    exact ⟨ackConfined_of_harmless h, statusConfined_of_harmless h⟩

/-! ## Fingerprints that are names -/

theorem isName_append {ext : String} (h : '/' ∉ fingerprint.toList) (he : '/' ∉ ext.toList)
    (hlen : 2 < ext.length) : IsName (fingerprint ++ ext) := by
  have hne {name : String} (hn : name.length ≤ 2) : fingerprint ++ ext ≠ name := by
    rintro rfl
    rw [String.length_append] at hn
    omega
  refine ⟨hne (by decide), ?_, hne (by decide), hne (by decide)⟩
  rw [String.toList_append, mem_append]
  exact not_or.2 ⟨h, he⟩

/-- A path of names leads right into its directory. -/
theorem inDir_of_reaches {dir : Location} {name : String} (hc : components path = dir ++ [name])
    (hd : follow [] dir = dir) (hn : IsName name) (h : Reaches path loc) :
    InDir dir (render loc) := by
  obtain ⟨-, rfl, -⟩ := h
  refine ⟨name, hn, ?_⟩
  have hf : follow [] (dir ++ [name]) = enter (follow [] dir) name := foldl_append
  rw [hc, hf, hd, enter, if_neg hn.ne_dot, if_neg hn.ne_dotdot]

/-- A fingerprint without a slash, as those that the service gives out, does no harm. -/
theorem harmless_of_no_slash (h : '/' ∉ fingerprint.toList) : Harmless fingerprint := by
  have hp {dir ext : String} (hn : IsName (fingerprint ++ ext)) :
      components (join dir (fingerprint ++ ext)) = components dir ++ [fingerprint ++ ext] := by
    rw [components_join _ fun hh => hn.no_slash (mem_of_mem_head? hh),
      components_of_not_mem hn.ne_empty hn.no_slash]
  have hc : IsName (fingerprint ++ ".crt") := isName_append h (by decide) (by decide)
  have hpm : IsName (fingerprint ++ ".pem") := isName_append h (by decide) (by decide)
  exact ⟨fun loc hr => inDir_of_reaches (hp hc) (by decide) hc hr,
    fun loc hr => .inr (.inl (inDir_of_reaches (hp hpm) (by decide) hpm hr))⟩

/-- **The certificate of the authority is removed** by acknowledging `../ca`. -/
theorem ca_certificate_removed :
    let d := Tree.spanning [stagingDir]
    Held d installed.files ∧ installed.files.get? caCertPath = some "ca" ∧
    (installed.ackEnrollment (namedEnv.within d) "../ca").files.get? caCertPath = none ∧
    ¬ InDir stagingDir caCertPath := by
  refine ⟨?_, by decide, by decide, ?_⟩
  · intro file hfl
    have hf : file = caKeyPath ∨ file = caCertPath := by
      simpa using (show file ∈ [caKeyPath, caCertPath] from hfl)
    have hnm : ∀ n ∈ ["run", "state", "secrets", "ca.key", "ca.crt"], IsName n := by
      intro n hn
      simp only [mem_cons, not_mem_nil, or_false] at hn
      rcases hn with rfl | rfl | rfl | rfl | rfl <;> constructor <;> decide
    rcases hf with rfl | rfl
    · exact ⟨["run", "state", "secrets"], "ca.key", by decide,
        fun n hn => hnm n (by simp at hn ⊢; tauto), by decide, by decide⟩
    · exact ⟨["run", "state", "secrets"], "ca.crt", by decide,
        fun n hn => hnm n (by simp at hn ⊢; tauto), by decide, by decide⟩
  · rintro ⟨name, hnm, heq⟩
    have h := congrArg components heq
    rw [render_concat, components_append_slash, components_of_not_mem hnm.ne_empty
      hnm.no_slash] at h
    have hlen := congrArg length h
    rw [length_append, length_singleton] at hlen
    exact absurd hlen (by decide)

end Muak.Auth
