import EmbedCache.Bitmask
import EmbedCache.ModifyList
import EmbedCache.Lib.Subwarps

/-! The lookup kernels of `ec_set_associative.cuh` and `embed_cache.cuh`: the two `query`
kernels and `query_uvm`, and the calls that choose their template arguments.

A thread looks for one key. Then the lanes of a subwarp copy the rows that its lanes
have found, one row after another. The cache does not change during a lookup, so the
stores and the atomic increments of a launch are taken in an arbitrary order. A launch
has no outcome when its grid is rejected, when a loop does not end, or when an element
is accessed at an address that is not a multiple of its size. -/

namespace EmbedCache.LookupKernels

open Lib

variable {w : Nat} {C : Type*}

/-! ### Launches -/

def blockX : Nat := 32

def blockY : Nat := 4

def blockSize : Nat := blockX * blockY

def numBlocks (len : Nat) : Nat := wrap32 (len / blockSize + min (len % blockSize) 1)

def Launchable (blocks : Nat) : Prop := 0 < blocks ∧ blocks < 2 ^ 31

instance (blocks : Nat) : Decidable (Launchable blocks) := inferInstanceAs (Decidable (_ ∧ _))

/-- `SUBWARP_WIDTH` and `sizeof(DataType)`. -/
structure Template where
  subwarpWidth : Nat
  elementSize : Nat
  deriving DecidableEq, Repr

def callCacheQuery (rowSize : Nat) : Template :=
  if rowSize % (16 * 32) = 0 then ⟨32, 16⟩
  else if rowSize % (4 * 32) = 0 then ⟨32, 4⟩
  else if rowSize % (16 * 4) = 0 then ⟨4, 16⟩
  else ⟨blockX, 1⟩

/-- The choice that `call_cache_query_hit_mask` and `call_cache_query_uvm` make. -/
def wholeWarp (rowSize : Nat) : Template :=
  if rowSize % 16 = 0 then ⟨blockX, 16⟩
  else if rowSize % 4 = 0 then ⟨blockX, 4⟩
  else ⟨blockX, 1⟩

def callCacheQueryHitMask (rowSize : Nat) : Template := wholeWarp rowSize

def callCacheQueryUvm (rowSize : Nat) : Template := wholeWarp rowSize

/-! ### Arguments -/

/-- The sizes and addresses of a lookup. `CacheData::num_sets` is a `uint32_t` and a divisor. -/
structure Geometry (w : Nat) (C : Type*) where
  cfg : CacheConfig w C
  /-- `curr_table`. -/
  table : Nat
  stride : Nat
  len : Nat
  dValues : Nat
  dTable : Nat
  /-- `IndexT` is a signed type. -/
  signedKeys : Bool
  wide : 32 ≤ w
  positive : 0 < cfg.numSets
  narrow : cfg.numSets < 2 ^ 32
  spaced : cfg.embedWidthInBytes ≤ stride
  mapped : dTable ≠ 0

abbrev Geometry.rowSize (g : Geometry w C) : Nat := g.cfg.embedWidthInBytes

def Geometry.threads (g : Geometry w C) : Nat := numBlocks g.len * blockSize

/-- What the buffers contain. Rows and tags are those of the cache, `uvm` starts at `d_table`,
`values` at `d_values`. -/
structure Contents (g : Geometry w C) where
  tags : Tags w
  rows : Memory
  uvm : Int → UInt8
  keys : List (BitVec w)
  counted : keys.length = g.len
  values : Memory
  hitMask : Nat → BitVec 32
  countMisses : Bool
  misses : Nat

structure Source where
  address : Int
  bytes : Nat → UInt8

/-- `embed_cache_get_address` for a hit: the slot is added up in 64 bits. -/
def getAddress (cfg : CacheConfig w C) (table : Nat) (tags : Tags w) (key : BitVec w) :
    Option Nat :=
  let sets := wrap32 cfg.numSets
  (wayOfMask cfg table tags key).map fun way =>
    (table * sets * numWays + hashSetIdx key sets * numWays + way) * cfg.embedWidthInBytes

namespace Contents

variable {g : Geometry w C} (contents : Contents g)

def key (i : Nat) : BitVec w := contents.keys.getD i 0

def resident (i : Nat) : Bool := (wayOfMask g.cfg g.table contents.tags (contents.key i)).isSome

/-- A row of the cache; `cache_ptr` is a multiple of 16. -/
def cached (offset : Nat) : Source := ⟨offset, fun i => contents.rows (offset + i)⟩

def uvmSource (key : BitVec w) : Source :=
  let index : Int := if g.signedKeys then key.toInt else key.toNat
  ⟨g.dTable + index * g.rowSize, fun i => contents.uvm (index * g.rowSize + i)⟩

/-! ### `query` with a list of missing keys -/

def queryPointer (tid : Nat) : Option Source :=
  if g.len ≤ tid then none
  else (queryAddress g.cfg g.table contents.tags (contents.key tid)).map contents.cached

def queryTid (n : Nat) : Nat := wrap32 (wrap32 (n / blockSize * blockSize) + n % blockSize)

variable (template : Template)

/-- Thread `n`. A lane `s` of its subwarp is thread `subwarp_idx * SUBWARP_WIDTH + s` of the
block. -/
def query (fuel n : Nat) : Option (List (LaneCopy Source)) :=
  let blockPtr := wrap32 (n / blockSize * blockSize)
  let subwarpIdx := n % blockSize / template.subwarpWidth
  let subwarpPtr := wrap32 (blockPtr + subwarpIdx * template.subwarpWidth)
  laneCopies (2 ^ 32) g.rowSize template.elementSize template.subwarpWidth fuel subwarpPtr
    (n % blockSize % template.subwarpWidth)
    fun s => contents.queryPointer (wrap32 (blockPtr + (subwarpIdx * template.subwarpWidth + s)))

/-- The entries written to `d_missing_index` and `d_missing_keys`. -/
def missing : List (Nat × BitVec w) :=
  (List.range g.threads).filterMap fun n =>
    let tid := queryTid n
    if tid < g.len ∧ contents.resident tid = false then some (tid, contents.key tid) else none

/-! ### `query` with a hit mask -/

def warpPtr (n : Nat) : Nat := wrap32 (n / blockSize * blockSize + n % blockSize / blockX * blockX)

def hitMaskSubwarpPtr (n : Nat) : Nat :=
  wrap32 (warpPtr n + n % blockX / template.subwarpWidth * template.subwarpWidth)

/-- There was a hit earlier at lane `x`. -/
def hitEarlier (subwarpPtr x : Nat) : Bool := (contents.hitMask (subwarpPtr / 32)).getLsbD x

def hitMaskPointer (n s : Nat) : Option Source :=
  let x := n % blockX / template.subwarpWidth * template.subwarpWidth + s
  let tid := wrap32 (warpPtr n + x)
  if g.len ≤ tid then none
  else if contents.hitEarlier (hitMaskSubwarpPtr template n) x then none
  else (queryAddress g.cfg g.table contents.tags (contents.key tid)).map contents.cached

def queryHitMask (fuel n : Nat) : Option (List (LaneCopy Source)) :=
  let subwarpPtr := hitMaskSubwarpPtr template n
  if g.len ≤ subwarpPtr then some []
  else laneCopies (2 ^ 32) g.rowSize template.elementSize template.subwarpWidth fuel subwarpPtr
    (n % blockX % template.subwarpWidth) (contents.hitMaskPointer template n)

def localHitMask (n : Nat) : BitVec 32 :=
  (List.range template.subwarpWidth).foldl
    (fun mask s => if (contents.hitMaskPointer template n s).isSome then Bitmask.set mask s
      else mask) 0

/-- The words that the first threads of the warps join into `d_hit_mask`. -/
def hitMaskStores : List (Nat × BitVec 32) :=
  (List.range g.threads).filterMap fun n =>
    let subwarpPtr := hitMaskSubwarpPtr template n
    if subwarpPtr < g.len ∧ n % blockX = 0 then
      some (subwarpPtr / 32, contents.localHitMask template n)
      else none

def hitMaskMiss (n : Nat) : Bool :=
  let tid := wrap32 (warpPtr n + n % blockX)
  let subwarpPtr := hitMaskSubwarpPtr template n
  decide (subwarpPtr < g.len) && decide (tid < g.len) && !contents.hitEarlier subwarpPtr
    (n % blockX) &&
    !contents.resident tid

/-! ### `query_uvm` -/

def tidBatch (n : Nat) : Nat :=
  wrap32 (n / blockSize * template.subwarpWidth * blockY + n % blockSize / blockX *
    template.subwarpWidth)

/-- `AddressFunctor::get_address`, or zero behind the last key. -/
def uvmPointer (tid : Nat) : Option Source :=
  if g.len ≤ tid then none
  else match getAddress g.cfg g.table contents.tags (contents.key tid) with
    | some offset => some (contents.cached offset)
    | none => if g.dTable = 0 then none else some (contents.uvmSource (contents.key tid))

def queryUvm (fuel n : Nat) : Option (List (LaneCopy Source)) :=
  laneCopies (2 ^ 32) g.rowSize template.elementSize template.subwarpWidth fuel
    (tidBatch template n) (n % blockX)
    fun s => contents.uvmPointer (wrap32 (tidBatch template n + s))

def uvmMiss (n : Nat) : Bool :=
  let tid := wrap32 (tidBatch template n + n % blockX)
  decide (tid < g.len) && !contents.resident tid

end Contents

/-! ### The three lookups -/

structure Schedule (w : Nat) where
  stores : Arrangement (Write UInt8)
  reports : Arrangement (Nat × BitVec w)
  words : Arrangement (Nat × BitVec 32)

structure Outcome (ρ : Type*) where
  values : Memory
  misses : Nat
  report : ρ

/-- `d_hit_mask[subwarp_ptr / 32] |= local_hit_mask`, warp after warp. -/
def joinWords (mask : Nat → BitVec 32) (words : List (Nat × BitVec 32)) : Nat → BitVec 32 :=
  words.foldl (fun mask word => Function.update mask word.1 (Bitmask.join (mask word.1) word.2))
    mask

def Geometry.Aligned (g : Geometry w C) (template : Template) (copy : LaneCopy Source) : Prop :=
  (template.elementSize : Int) ∣ copy.source.address + copy.offset ∧
    template.elementSize ∣ g.dValues + copy.position * g.stride + copy.offset

instance (g : Geometry w C) (template : Template) (copy : LaneCopy Source) :
    Decidable (g.Aligned template copy) :=
  inferInstanceAs (Decidable (_ ∧ _))

def Geometry.store (g : Geometry w C) (template : Template) (copy : LaneCopy Source) :
    Write UInt8 :=
  ⟨copy.position * g.stride + copy.offset, template.elementSize, fun i =>
    copy.source.bytes (copy.offset + i)⟩

def launch {g : Geometry w C} (contents : Contents g) (template : Template)
    (kernel : Nat → Option (List (LaneCopy Source))) (stores : Arrangement (Write UInt8)) :
      Option Memory :=
  if Launchable (numBlocks g.len) then
    (gather kernel (List.range g.threads)).bind fun copies =>
      if ∀ copy ∈ copies, g.Aligned template copy then
        some (applyWrites contents.values (stores.iterate (copies.map (g.store template))))
      else none
  else none

section Lookups

variable {g : Geometry w C} (contents : Contents g) (fuel : Nat) (schedule : Schedule w)

/-- `data.misses` after `number` atomic increments, if `count_misses` asks for them. -/
def countedMisses (number : Nat) : Nat :=
  contents.misses + if contents.countMisses then number else 0

/-- `lookup` with a list of missing keys, whose length it sets to zero first. -/
def lookupMissing : Option (Outcome (List (Nat × BitVec w))) :=
  if g.len = 0 then some ⟨contents.values, contents.misses, []⟩
  else
    let template := callCacheQuery g.rowSize
    (launch contents template (contents.query template fuel) schedule.stores).map fun values =>
      ⟨values, countedMisses contents contents.missing.length,
        schedule.reports.iterate contents.missing⟩

def lookupHitMask : Option (Outcome (Nat → BitVec 32)) :=
  if g.len = 0 then some ⟨contents.values, contents.misses, contents.hitMask⟩
  else
    let template := callCacheQueryHitMask g.rowSize
    (launch contents template (contents.queryHitMask template fuel) schedule.stores).map
      fun values =>
      ⟨values, countedMisses contents
        ((List.range g.threads).countP (contents.hitMaskMiss template)),
        joinWords contents.hitMask (schedule.words.iterate (contents.hitMaskStores template))⟩

def lookupUvm : Option (Outcome Unit) :=
  if g.len = 0 then some ⟨contents.values, contents.misses, ()⟩
  else
    let template := callCacheQueryUvm g.rowSize
    (launch contents template (contents.queryUvm template fuel) schedule.stores).map fun values =>
      ⟨values, countedMisses contents ((List.range g.threads).countP (contents.uvmMiss template)),
        ()⟩

end Lookups

end EmbedCache.LookupKernels
