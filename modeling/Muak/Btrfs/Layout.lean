import Mathlib.Algebra.Order.Group.Nat
import Mathlib.Data.Nat.Bitwise
import Muak.Foundations.U64

/-!
# The layout of a btrfs volume

`libs/btrfs/src/format/layout.rs`: where the chunks and the tree blocks of a new file system are.
All of it is fixed but the size of the two stripes of the metadata, which depends on the device.

* `DiskLayout.new_eq`: the layout in numbers.
* `stripe_bounds`: a stripe has 32 MiB, or at most a twentieth of the device, or of a large one a
  tenth.
* `minDeviceSize_le_iff`, `stripes_fit_iff`: a device is accepted from 89 MiB on, and the stripes
  are within it from 101 MiB on.
-/

namespace Muak.Btrfs

open U64 List Nat

/-! ## Constants -/

def rootTreeObjectid : ℕ := 1

def extentTreeObjectid : ℕ := 2

def chunkTreeObjectid : ℕ := 3

def devTreeObjectid : ℕ := 4

def fsTreeObjectid : ℕ := 5

def csumTreeObjectid : ℕ := 7

def uuidTreeObjectid : ℕ := 9

def freeSpaceTreeObjectid : ℕ := 10

def blockGroupTreeObjectid : ℕ := 11

def dataRelocTreeObjectid : ℕ := maxValue - 8

def firstChunkTreeObjectid : ℕ := 256

def nodesize : ℕ := 0x4000

def sectorsize : ℕ := 4096

def stripeLen : ℕ := 0x00010000

/-- The area before all chunks. -/
def reservedSize : ℕ := 1024 * 1024

def dataGroupSize : ℕ := 8 * 1024 * 1024

def systemDupSize : ℕ := 8 * 1024 * 1024

def metaDupMinStripe : ℕ := 32 * 1024 * 1024

/-- The number of tree blocks, and of those in the metadata. -/
def treeBlockCount : ℕ := 10

def metadataTreeBlockCount : ℕ := 9

def tempSystemSize : ℕ := 4 * 1024 * 1024

def tempMetaSize : ℕ := 8 * 1024 * 1024

def dataLogicalOffset : ℕ := saturatingAdd (saturatingAdd reservedSize tempSystemSize) tempMetaSize

def systemLogicalOffset : ℕ := saturatingAdd dataLogicalOffset dataGroupSize

def metaLogicalOffset : ℕ := saturatingAdd systemLogicalOffset systemDupSize

/-- The blocks of the metadata trees, in order. -/
inductive Block
  | blockGroup | dev | fs | uuid | csum | dataReloc | freeSpace | extent | root
  deriving DecidableEq

/-- The place of a tree in the metadata chunk. -/
def Block.index : Block → ℕ
  | .blockGroup => 0
  | .dev => 1
  | .fs => 2
  | .uuid => 3
  | .csum => 4
  | .dataReloc => 5
  | .freeSpace => 6
  | .extent => 7
  | .root => 8

/-! ## The layout -/

/-- `round_down`, for an alignment that is a power of two. -/
def roundDown (value align : ℕ) : ℕ := value &&& (maxValue - (align - 1))

/-- The size of a stripe of the metadata. -/
def computeDupMetaStripeSize (deviceSize : ℕ) : ℕ :=
  let initial :=
    if saturatingMul 50 (1024 * 1024 * 1024) < deviceSize then 1024 * 1024 * 1024
    else 256 * 1024 * 1024
  let maxChunkSize := min (deviceSize / 10) initial
  let stripe := if maxChunkSize < initial then roundDown (maxChunkSize / 2) stripeLen else initial
  let stripe := max stripe metaDupMinStripe
  roundDown stripe stripeLen

/-- Where the chunks are, in logical and in physical addresses. -/
structure DiskLayout where
  dataLogical : ℕ
  dataPhys : ℕ
  sysLogical : ℕ
  sysPhys0 : ℕ
  sysPhys1 : ℕ
  metaLogical : ℕ
  metaStripeSize : ℕ
  metaPhys0 : ℕ
  metaPhys1 : ℕ
  chunkTreeLogical : ℕ
  metaBlocks : List ℕ

namespace DiskLayout

/-- The chunks one after the other, those of metadata as large as the device allows. -/
def new (deviceSize : ℕ) : DiskLayout :=
  let metaStripeSize := computeDupMetaStripeSize deviceSize
  let dataPhys := dataLogicalOffset
  let sysPhys0 := saturatingAdd dataPhys dataGroupSize
  let sysPhys1 := saturatingAdd sysPhys0 systemDupSize
  let metaPhys0 := saturatingAdd sysPhys1 systemDupSize
  { dataLogical := dataLogicalOffset
    dataPhys
    sysLogical := systemLogicalOffset
    sysPhys0, sysPhys1
    metaLogical := metaLogicalOffset
    metaStripeSize, metaPhys0
    metaPhys1 := saturatingAdd metaPhys0 metaStripeSize
    chunkTreeLogical := saturatingAdd systemLogicalOffset nodesize
    metaBlocks := (range metadataTreeBlockCount).map fun index =>
      saturatingAdd metaLogicalOffset (saturatingMul index nodesize) }

variable (layout : DiskLayout)

/-- Sum of all physical device extents. -/
def devBytesUsed : ℕ :=
  saturatingAdd (saturatingAdd dataGroupSize (saturatingMul systemDupSize 2))
    (saturatingMul layout.metaStripeSize 2)

/-- All bytes that are used, by tree blocks. -/
def totalBytesUsed : ℕ := saturatingMul treeBlockCount nodesize

def metaBytesUsed : ℕ := saturatingMul metadataTreeBlockCount nodesize

/-- The end of the last chunk. -/
def minDeviceSize : ℕ :=
  saturatingAdd
    (saturatingAdd (saturatingAdd reservedSize dataGroupSize) (saturatingMul systemDupSize 2))
    (saturatingMul layout.metaStripeSize 2)

/-- An address in the system chunk or in the metadata, on the first stripe. -/
def sysLogicalToPhys (logical : ℕ) : ℕ :=
  saturatingAdd layout.sysPhys0 (logical - layout.sysLogical)

def metaLogicalToPhys (logical : ℕ) : ℕ :=
  saturatingAdd layout.metaPhys0 (logical - layout.metaLogical)

def metaBlock (block : Block) : ℕ := layout.metaBlocks.getD block.index 0

/-- All tree blocks, with the trees they belong to. -/
def allTreeBlocks : List (ℕ × ℕ) :=
  [(layout.chunkTreeLogical, chunkTreeObjectid),
   (layout.metaBlock .blockGroup, blockGroupTreeObjectid),
   (layout.metaBlock .dev, devTreeObjectid),
   (layout.metaBlock .fs, fsTreeObjectid),
   (layout.metaBlock .uuid, uuidTreeObjectid),
   (layout.metaBlock .csum, csumTreeObjectid),
   (layout.metaBlock .dataReloc, dataRelocTreeObjectid),
   (layout.metaBlock .freeSpace, freeSpaceTreeObjectid),
   (layout.metaBlock .extent, extentTreeObjectid),
   (layout.metaBlock .root, rootTreeObjectid)]

end DiskLayout

/-! ## The layout in numbers -/

/-- `1 MiB`, the unit of the layout. -/
def mib : ℕ := 1024 * 1024

theorem roundDown_stripeLen {value : ℕ} (h : value < 2 ^ 64) :
    roundDown value stripeLen = value / 2 ^ 16 * 2 ^ 16 := by
  have hm : maxValue - (stripeLen - 1) = (2 ^ 48 - 1) <<< 16 := by decide
  have hl : value &&& (2 ^ 48 - 1) <<< 16 = ((value >>> 16) &&& (2 ^ 48 - 1)) <<< 16 := by
    refine eq_of_testBit_eq fun i => ?_
    by_cases hi : 16 ≤ i
    · simp only [Nat.testBit_shiftLeft, Nat.testBit_and, Nat.testBit_shiftRight, hi,
        Nat.add_sub_cancel' hi, decide_true, Bool.true_and]
    · simp only [Nat.testBit_shiftLeft, Nat.testBit_and, hi, decide_false, Bool.false_and,
        Bool.and_false]
  rw [roundDown, hm, hl, and_two_pow_sub_one_eq_mod, shiftRight_eq_div_pow,
    mod_eq_of_lt (by omega), shiftLeft_eq]

theorem stripe_bounds {deviceSize : ℕ} (h : deviceSize < 2 ^ 64) :
    32 * mib ≤ computeDupMetaStripeSize deviceSize ∧
      computeDupMetaStripeSize deviceSize ≤ 1024 * mib ∧
      (computeDupMetaStripeSize deviceSize = 32 * mib ∨
        20 * computeDupMetaStripeSize deviceSize ≤ deviceSize ∨
        10 * computeDupMetaStripeSize deviceSize ≤ deviceSize ∧ 2560 * mib ≤ deviceSize) := by
  unfold computeDupMetaStripeSize
  simp only [show saturatingMul 50 (1024 * 1024 * 1024) = 50 * (1024 * 1024 * 1024) by decide,
    metaDupMinStripe, mib]
  generalize hi : (if 50 * (1024 * 1024 * 1024) < deviceSize then 1024 * 1024 * 1024
    else 256 * 1024 * 1024) = initial
  have hc : initial = 1024 * 1024 * 1024 ∧ 50 * (1024 * 1024 * 1024) < deviceSize ∨
      initial = 256 * 1024 * 1024 := by
    split_ifs at hi <;> omega
  rw [@roundDown_stripeLen (min (deviceSize / 10) initial / 2) (by omega)]
  split_ifs with hlt
  · rw [roundDown_stripeLen (by omega)]
    omega
  · rw [roundDown_stripeLen (by omega)]
    omega

namespace DiskLayout

theorem new_eq {deviceSize : ℕ} (h : deviceSize < 2 ^ 64) : new deviceSize =
      { dataLogical := 13 * mib
        dataPhys := 13 * mib
        sysLogical := 21 * mib
        sysPhys0 := 21 * mib
        sysPhys1 := 29 * mib
        metaLogical := 29 * mib
        metaStripeSize := computeDupMetaStripeSize deviceSize
        metaPhys0 := 37 * mib
        metaPhys1 := 37 * mib + computeDupMetaStripeSize deviceSize
        chunkTreeLogical := 21 * mib + nodesize
        metaBlocks := (range 9).map fun index => 29 * mib + index * nodesize } := by
  have hle := (stripe_bounds h).2.1
  have hs : saturatingAdd (37 * mib) (computeDupMetaStripeSize deviceSize) =
      37 * mib + computeDupMetaStripeSize deviceSize := by
    refine saturatingAdd_of_lt ?_
    simp only [mib] at hle ⊢
    omega
  have hb : ((range metadataTreeBlockCount).map fun index =>
      saturatingAdd metaLogicalOffset (saturatingMul index nodesize)) =
        (range 9).map fun index => 29 * mib + index * nodesize := by
    decide
  rw [new, hb, ← hs]
  rfl

theorem metaStripeSize_new (deviceSize : ℕ) :
    (new deviceSize).metaStripeSize = computeDupMetaStripeSize deviceSize := rfl

variable {deviceSize : ℕ} (h : deviceSize < 2 ^ 64)
include h

theorem metaBlock_new (block : Block) :
    (new deviceSize).metaBlock block = 29 * mib + block.index * nodesize := by
  have hi : block.index < 9 := by cases block <;> decide
  rw [new_eq h, metaBlock, getD_eq_getElem?_getD, getElem?_map, getElem?_range hi,
    Option.map_some, Option.getD_some]

theorem minDeviceSize_new :
    (new deviceSize).minDeviceSize = 25 * mib + 2 * computeDupMetaStripeSize deviceSize := by
  have hle := (stripe_bounds h).2.1
  simp only [mib] at hle ⊢
  rw [minDeviceSize, metaStripeSize_new,
    show saturatingAdd (saturatingAdd reservedSize dataGroupSize) (saturatingMul systemDupSize 2) =
      25 * (1024 * 1024) by decide,
    saturatingMul_of_lt (by omega), saturatingAdd_of_lt (by omega)]
  omega

theorem minDeviceSize_le_iff : (new deviceSize).minDeviceSize ≤ deviceSize ↔
    89 * mib ≤ deviceSize := by
  have hs := stripe_bounds h
  rw [minDeviceSize_new h]
  omega

theorem stripes_fit_iff : 37 * mib + 2 * computeDupMetaStripeSize deviceSize ≤ deviceSize ↔
    101 * mib ≤ deviceSize := by
  have hs := stripe_bounds h
  simp only [mib] at hs ⊢
  omega

end DiskLayout

end Muak.Btrfs
