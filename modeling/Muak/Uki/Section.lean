import Mathlib.Data.List.Sort
import Muak.Uki.Metadata

/-!
# Sections of a unified kernel image

`libs/uki/src/section.rs`: the names of the sections that a unified kernel image adds to its stub,
their canonical order, and how they are found in an image that was loaded into memory.

* `canonicalName`: the name in a section header.
* `Sections.parse`, `Sections.iterSections`: the sections of a loaded image, in canonical order.
-/

namespace Muak.Uki

/-- The sections of a unified kernel image. -/
inductive SectionName
  | cmdline | initrd | kernel | osrel
  deriving DecidableEq

def SectionName.text : SectionName → String
  | .kernel => ".kernel"
  | .initrd => ".initrd"
  | .cmdline => ".cmdline"
  | .osrel => ".osrel"

/-- The text as the bytes of a section header. -/
def SectionName.bytes : SectionName → Bytes
  | .kernel => [0x2e, 0x6b, 0x65, 0x72, 0x6e, 0x65, 0x6c, 0]
  | .initrd => [0x2e, 0x69, 0x6e, 0x69, 0x74, 0x72, 0x64, 0]
  | .cmdline => [0x2e, 0x63, 0x6d, 0x64, 0x6c, 0x69, 0x6e, 0x65]
  | .osrel => [0x2e, 0x6f, 0x73, 0x72, 0x65, 0x6c, 0, 0]

variable (name : SectionName)

theorem SectionName.length_bytes : name.bytes.length = 8 := by
  cases name <;> rfl

def canonicalOrder : List SectionName := [.cmdline, .initrd, .kernel, .osrel]

def canonicalRank : ℕ := canonicalOrder.idxOf name

/-- The canonical name of a section, whose text may be padded with zeros. -/
def canonicalName (raw : Bytes) : Result (Option SectionName) :=
  match String.fromUTF8? ⟨raw.toArray⟩ with
  | none => .error (.invalidPe "invalid section name")
  | some text =>
    let name := String.ofList (text.toList.reverse.dropWhile (· = '\x00')).reverse
    .ok (canonicalOrder.find? (·.text = name))

theorem canonicalName_bytes : canonicalName name.bytes = .ok (some name) := by
  cases name <;> decide

/-! ## Loaded images -/

/-- The data of a section, if it is one of a unified kernel image and not empty. -/
def ukiSectionData (data : Bytes) (header : SectionHeader) :
    Result (Option (SectionName × Bytes)) := do
  match ← canonicalName header.name with
  | none => .ok none
  | some name =>
    if header.virtualSize = 0 then .ok none
    else do
      let sectionData ← okOr (Bytes.slice data header.virtualAddress header.virtualSize)
        (.invalidPe "section data out of bounds")
      .ok (some (name, sectionData))

/-- The data of all sections of a table. -/
def ukiSections (data : Bytes) : List SectionHeader → Result (List (SectionName × Bytes))
  | [] => .ok []
  | header :: headers => do
    let item ← ukiSectionData data header
    let items ← ukiSections data headers
    .ok (item.toList ++ items)

/-- The sections that were found. -/
structure Found where
  kernel : Option Bytes := none
  initrd : Option Bytes := none
  cmdline : Option Bytes := none
  osrel : Option Bytes := none

/-- `set_uki_section`. -/
def Found.set (found : Found) (item : SectionName × Bytes) : Found :=
  match item.1 with
  | .kernel => { found with kernel := some item.2 }
  | .initrd => { found with initrd := some item.2 }
  | .cmdline => { found with cmdline := some item.2 }
  | .osrel => { found with osrel := some item.2 }

structure Sections where
  kernel : Bytes
  initrd : Option Bytes
  cmdline : Option Bytes
  osrel : Option Bytes

/-- The sections of an image, of which the kernel has to be there. -/
def Sections.parse [PeParser] (data : Bytes) : Result Sections :=
  if data.length < 0x40 then .error (.invalidPe "file too small")
  else do
    let pe ← okOr (PeParser.parse data) (.invalidPe "invalid PE format")
    let items ← ukiSections data pe.sections
    let found : Found := items.foldl Found.set {}
    let kernel ← okOr found.kernel (.invalidPe "missing .kernel section")
    .ok ⟨kernel, found.initrd, found.cmdline, found.osrel⟩

/-- In canonical order. -/
def sortByRank {α : Type} (items : List (SectionName × α)) : List (SectionName × α) :=
  items.insertionSort fun a b => canonicalRank a.1 ≤ canonicalRank b.1

/-- The sections in the order in which they are measured. -/
def Sections.iterSections (sections : Sections) : List (SectionName × Bytes) :=
  (sortByRank [(.kernel, some sections.kernel), (.cmdline, sections.cmdline),
    (.initrd, sections.initrd), (.osrel, sections.osrel)]).filterMap fun (name, data) =>
      data.map (name, ·)

section

variable {data : Bytes}

theorem ukiSections_append {headers rest : List SectionHeader}
    (h : ∀ header ∈ headers, canonicalName header.name = .ok none) :
    ukiSections data (headers ++ rest) = ukiSections data rest := by
  induction headers with
  | nil => rfl
  | cons header headers ih =>
    obtain ⟨hhd, hh⟩ := List.forall_mem_cons.1 h
    rw [List.cons_append, ukiSections, ukiSectionData, hhd, ih hh]
    cases ukiSections data rest <;> rfl

/-- The header of a section, with its data in memory. -/
def Loaded (data : Bytes) (header : SectionHeader) (item : SectionName × Bytes) : Prop :=
  header.name = item.1.bytes ∧ header.virtualSize ≠ 0 ∧
    Bytes.slice data header.virtualAddress header.virtualSize = some item.2

theorem ukiSections_eq {headers : List SectionHeader} {items : List (SectionName × Bytes)}
    (h : List.Forall₂ (Loaded data) headers items) : ukiSections data headers = .ok items := by
  induction h with
  | nil => rfl
  | cons hi _ ih =>
    obtain ⟨hn, hsz, hs⟩ := hi
    rw [ukiSections, ukiSectionData, hn, canonicalName_bytes, ok_bind]
    dsimp only
    rw [if_neg hsz, hs, ih]
    rfl

end

end Muak.Uki
