import EmbedCache.GpuTable

/-! The memory block over several GPUs (`memblock.cpp`). -/

namespace EmbedCache

open List

def kLargePageSizeBytes : Nat := 2 * 1024 * 1024

def alignLargePages (bytes : Nat) : Nat :=
  wrap64 (bytes + kLargePageSizeBytes - 1) / kLargePageSizeBytes * kLargePageSizeBytes

structure GpuAllocationInfo where
  sz : Nat
  id : Int

inductive NVLError
  | tooManyDevices
  | notEnoughMemory

structure NVLMemBlock where
  totalBytes : Nat
  handles : List Nat

namespace NVLMemBlock

/-- A handle with what it was created for. -/
abbrev Chunk := Nat × GpuAllocationInfo

def bytePerGpu (sizeToAlloc numDevices : Nat) : Nat :=
  alignLargePages (wrap64 (sizeToAlloc + numDevices - 1) / numDevices)

/-- The loop over `gpu_ids`. -/
def allocationInfo (share : Nat) : Nat → List Int → List GpuAllocationInfo
  | _, [] => []
  | remined, peerDevice :: rest =>
    if share < remined then ⟨share, peerDevice⟩ :: allocationInfo share (remined - share) rest
    else [⟨alignLargePages remined, peerDevice⟩]

def mapChunks : Nat → List Chunk → List (Nat × Chunk)
  | _, [] => []
  | offset, chunk :: rest => (offset, chunk) :: mapChunks (wrap64 (offset + chunk.2.sz)) rest

/-- The block, the chunks created, where the call for chunk `i` returns `handle i`, and where in the
reserved `totalBytes` they are mapped. -/
def assemble (handle : Nat → Nat) (infos : List GpuAllocationInfo) :
    NVLMemBlock × List Chunk × List (Nat × Chunk) :=
  let chunks := infos.zipIdx.map fun (info, i) => (handle i, info)
  (⟨infos.foldl (fun total info => wrap64 (total + info.sz)) 0, chunks.map Prod.fst⟩, chunks,
    mapChunks 0 chunks)

/-- The constructor, where the calls of CUDA succeed; `avail i` is the free memory that round `i` of
the loop is told. -/
def construct (numGpusInSystem : Nat) (avail handle : Nat → Nat) (sizeToAlloc : Nat)
    (gpuIds : List Int) :
    Except NVLError (NVLMemBlock × List Chunk × List (Nat × Chunk)) :=
  let infos := allocationInfo (bytePerGpu sizeToAlloc gpuIds.length) sizeToAlloc gpuIds
  if numGpusInSystem < gpuIds.length then .error .tooManyDevices
  else if infos.zipIdx.any fun (info, i) => avail i < info.sz then .error .notEnoughMemory
  else .ok (assemble handle infos)

/-- The bytes unmapped, the chunks released and the bytes of address space freed. -/
def destroy (block : NVLMemBlock) : Nat × List Nat × Nat :=
  (block.totalBytes, block.handles, block.totalBytes)

/-- The chunks follow on each other from `start` to `stop`. -/
def Tiles : Nat → Nat → List (Nat × Chunk) → Prop
  | start, stop, [] => start = stop
  | start, stop, (offset, chunk) :: rest => offset = start ∧ Tiles (start + chunk.2.sz) stop rest

structure Layout (size : Nat) (gpuIds : List Int)
    (made : NVLMemBlock × List Chunk × List (Nat × Chunk)) : Prop where
  least : IsLeast {bytes | kLargePageSizeBytes ∣ bytes ∧ size ≤ bytes} made.1.totalBytes
  sized : ∀ info ∈ made.2.1.map Prod.snd, 0 < info.sz ∧ kLargePageSizeBytes ∣ info.sz ∧ info.sz ≤
    ((size + gpuIds.length - 1) / gpuIds.length + kLargePageSizeBytes - 1) / kLargePageSizeBytes *
      kLargePageSizeBytes
  tiles : Tiles 0 made.1.totalBytes made.2.2
  whole : made.2.2.map Prod.snd = made.2.1
  entries : (made.2.1.map Prod.snd).map GpuAllocationInfo.id <+: gpuIds
  released : made.1.destroy = (made.1.totalBytes, made.2.1.map Prod.fst, made.1.totalBytes)

theorem align_eq {bytes : Nat} (fits : bytes + kLargePageSizeBytes ≤ 2 ^ 64) :
    alignLargePages bytes = (bytes + kLargePageSizeBytes - 1) / kLargePageSizeBytes *
      kLargePageSizeBytes ∧
      bytes ≤ alignLargePages bytes ∧ alignLargePages bytes < bytes + kLargePageSizeBytes := by
  simp only [alignLargePages, wrap64, kLargePageSizeBytes] at *
  omega

theorem align_dvd (bytes : Nat) : kLargePageSizeBytes ∣ alignLargePages bytes :=
  Nat.dvd_mul_left _ _

theorem allocationInfo_spec {share remined : Nat} {peers : List Int}
    (pages : kLargePageSizeBytes ∣ share)
    (positive : 0 < remined) (fits : remined + kLargePageSizeBytes ≤ 2 ^ 64)
    (enough : remined ≤ peers.length * share) :
    let infos := allocationInfo share remined peers
    (∀ info ∈ infos, 0 < info.sz ∧ kLargePageSizeBytes ∣ info.sz ∧ info.sz ≤ share) ∧
      infos.map GpuAllocationInfo.id <+: peers ∧ remined ≤ (infos.map GpuAllocationInfo.sz).sum ∧
      (infos.map GpuAllocationInfo.sz).sum < remined + kLargePageSizeBytes := by
  induction peers generalizing remined with
  | nil => exact absurd (enough.trans_eq (Nat.zero_mul _)) positive.not_ge
  | cons peer rest ih =>
    dsimp only
    unfold allocationInfo
    by_cases more : share < remined
    · rw [length_cons, Nat.add_one_mul] at enough
      obtain ⟨sized, entries, above, below⟩ :=
        ih (Nat.sub_pos_of_lt more) (by omega) (Nat.sub_le_iff_le_add.mpr enough)
      have some : 0 < share := Nat.pos_of_ne_zero fun none => by
        rw [none, Nat.mul_zero] at enough
        omega
      rw [if_pos more, map_cons, map_cons, sum_cons, forall_mem_cons, prefix_cons_inj]
      dsimp only
      exact ⟨⟨⟨some, pages, le_rfl⟩, sized⟩, entries, by omega, by omega⟩
    · obtain ⟨_, above, below⟩ := align_eq fits
      have dvd := align_dvd remined
      have last : alignLargePages remined ≤ share := by
        simp only [kLargePageSizeBytes] at *
        omega
      rw [if_neg more, map_singleton, map_singleton, sum_singleton, forall_mem_singleton]
      exact ⟨⟨positive.trans_le above, dvd, last⟩, ⟨rest, rfl⟩, above, below⟩

theorem assemble_chunks (handle : Nat → Nat) (infos : List GpuAllocationInfo) :
    (assemble handle infos).2.1.map Prod.snd = infos := by
  simp [assemble, Function.comp_def]

theorem assemble_total (infos : List GpuAllocationInfo) {start : Nat} (bounded : start < 2 ^ 64) :
    infos.foldl (fun total info => wrap64 (total + info.sz)) start =
      wrap64 (start + (infos.map GpuAllocationInfo.sz).sum) := by
  induction infos generalizing start with
  | nil => exact (Nat.mod_eq_of_lt bounded).symm
  | cons info rest ih =>
    have next := ih (Nat.mod_lt (start + info.sz) (Nat.two_pow_pos 64))
    rw [map_cons, sum_cons, ← Nat.add_assoc]
    exact next.trans (Nat.mod_add_mod _ _ _)

theorem mapChunks_tiles (chunks : List Chunk) {start stop : Nat} (bounded : stop < 2 ^ 64)
    (covers : start + ((chunks.map Prod.snd).map GpuAllocationInfo.sz).sum = stop) :
    Tiles start stop (mapChunks start chunks) ∧ (mapChunks start chunks).map Prod.snd = chunks := by
  induction chunks generalizing start with
  | nil => exact ⟨covers, rfl⟩
  | cons chunk rest ih =>
    rw [map_cons, map_cons, sum_cons, ← Nat.add_assoc] at covers
    have next : wrap64 (start + chunk.2.sz) = start + chunk.2.sz := Nat.mod_eq_of_lt (by omega)
    simpa [mapChunks, Tiles, next] using ih covers

section Main

variable {size : Nat} {gpuIds : List Int} (positive : 0 < size) (nonempty : 0 < gpuIds.length)
  (few : size + gpuIds.length ≤ 2 ^ 64) (fits : size + kLargePageSizeBytes ≤ 2 ^ 64)

include positive nonempty few fits

theorem bytePerGpu_eq : size ≤ gpuIds.length * bytePerGpu size gpuIds.length ∧
    bytePerGpu size gpuIds.length =
    ((size + gpuIds.length - 1) / gpuIds.length + kLargePageSizeBytes - 1) / kLargePageSizeBytes *
      kLargePageSizeBytes := by
  have whole : wrap64 (size + gpuIds.length - 1) = size + gpuIds.length - 1 :=
    Nat.mod_eq_of_lt (by omega)
  have above := Nat.lt_mul_div_succ (size + gpuIds.length - 1) nonempty
  have below : (size + gpuIds.length - 1) / gpuIds.length ≤ size :=
    Nat.div_le_of_le_mul (Nat.mul_comm size _ ▸ Nat.add_sub_one_le_mul positive.ne' nonempty.ne')
  rw [bytePerGpu, whole]
  generalize (size + gpuIds.length - 1) / gpuIds.length = each at above below ⊢
  obtain ⟨same, covered, _⟩ := align_eq ((Nat.add_le_add_right below _).trans fits)
  have spread := Nat.mul_le_mul_left gpuIds.length covered
  rw [Nat.mul_succ] at above
  exact ⟨by omega, same⟩

theorem layout_of_fits (handle : Nat → Nat) :
    Layout size gpuIds
      (assemble handle (allocationInfo (bytePerGpu size gpuIds.length) size gpuIds)) := by
  obtain ⟨enough, share⟩ := bytePerGpu_eq positive nonempty few fits
  obtain ⟨sized, entries, above, below⟩ := allocationInfo_spec (align_dvd _) positive fits enough
  rw [← bytePerGpu] at sized entries above below
  generalize allocationInfo (bytePerGpu size gpuIds.length) size gpuIds = infos at *
  have bounded : (infos.map GpuAllocationInfo.sz).sum < 2 ^ 64 := below.trans_le fits
  have dvd : kLargePageSizeBytes ∣ (infos.map GpuAllocationInfo.sz).sum :=
    dvd_sum (forall_mem_map.mpr fun info member => (sized info member).2.1)
  have total : (assemble handle infos).1.totalBytes = (infos.map GpuAllocationInfo.sz).sum := by
    refine (assemble_total infos (Nat.two_pow_pos 64)).trans ?_
    rw [Nat.zero_add]
    exact Nat.mod_eq_of_lt bounded
  obtain ⟨tiles, whole⟩ :=
    mapChunks_tiles (assemble handle infos).2.1 bounded (by rw [assemble_chunks, Nat.zero_add])
  constructor
  · rw [total]
    refine ⟨⟨dvd, above⟩, ?_⟩
    rintro bytes ⟨multiple, le⟩
    simp only [kLargePageSizeBytes] at *
    omega
  · rw [assemble_chunks, ← share]
    exact sized
  · rw [total]
    exact tiles
  · exact whole
  · rw [assemble_chunks]
    exact entries
  · rfl

end Main

/-- The layout is as described exactly where `size_t` holds the sum and the size rounded up, and
every device with its share of memory free gives its chunk. -/
theorem layout_iff (numGpusInSystem : Nat) (avail handle : Nat → Nat) {size : Nat}
    (positive : 0 < size) (gpuIds : List Int)
    (nonempty : 0 < gpuIds.length) (bounded : size < 2 ^ 64) :
    (∀ made, construct numGpusInSystem avail handle size gpuIds = .ok made →
      (Layout size gpuIds made ↔ size + gpuIds.length ≤ 2 ^ 64 ∧
        size + kLargePageSizeBytes ≤ 2 ^ 64)) ∧
    (size + gpuIds.length ≤ 2 ^ 64 → size + kLargePageSizeBytes ≤ 2 ^ 64 →
      gpuIds.length ≤ numGpusInSystem →
      (∀ i, bytePerGpu size gpuIds.length ≤ avail i) →
        ∃ made, construct numGpusInSystem avail handle size gpuIds = .ok made) := by
  constructor
  · intro made returned
    unfold construct at returned
    dsimp only at returned
    split_ifs at returned
    cases returned
    constructor
    · intro layout
      obtain ⟨multiple, covered⟩ := layout.least.1
      have total :=
        assemble_total (allocationInfo (bytePerGpu size gpuIds.length) size gpuIds)
          (Nat.two_pow_pos 64)
      have small : _ < 2 ^ 64 := total.trans_lt (Nat.mod_lt _ (Nat.two_pow_pos 64))
      constructor
      · by_contra many
        -- the share wraps to nothing, and the first device is asked for an empty chunk
        have wrapped : wrap64 (size + gpuIds.length - 1) < gpuIds.length := by
          rw [wrap64]
          omega
        have none : bytePerGpu size gpuIds.length = 0 := by
          rw [bytePerGpu, Nat.div_eq_of_lt wrapped]
          rfl
        have sized := layout.sized
        rw [assemble_chunks, none] at sized
        cases gpuIds with
        | nil => cases nonempty
        | cons peer rest =>
          rw [allocationInfo, if_pos positive] at sized
          exact (sized _ mem_cons_self).1.ne rfl
      · change kLargePageSizeBytes ∣ (foldl _ _ _) at multiple
        change size ≤ (foldl _ _ _) at covered
        generalize foldl _ _ _ = reserved at multiple covered small
        simp only [kLargePageSizeBytes] at *
        omega
    · rintro ⟨few, fits⟩
      exact layout_of_fits positive nonempty few fits handle
  · intro few fits enough room
    have spec :=
      (allocationInfo_spec (align_dvd _) positive fits
        (bytePerGpu_eq positive nonempty few fits).1).1
    refine ⟨_, (if_neg enough.not_gt).trans (if_neg ?_)⟩
    rw [any_eq_true]
    rintro ⟨chunk, member, beyond⟩
    have within := (spec chunk.1 (fst_mem_of_mem_zipIdx member)).2.2.trans (room chunk.2)
    exact within.not_gt (of_decide_eq_true beyond)

theorem layout_two_devices : ∃ made, construct 2 (fun _ => 2 ^ 22) id 3000000 [0, 1] = .ok made ∧
    Layout 3000000 [0, 1] made := by
  have both :=
    layout_iff 2 (fun _ => 2 ^ 22) id (by decide : 0 < 3000000) [0, 1] (by decide) (by decide)
  obtain ⟨made, returned⟩ := both.2 (by decide) (by decide) le_rfl fun _ => by decide
  exact ⟨made, returned, (both.1 made returned).mpr ⟨by decide, by decide⟩⟩

/-- The largest size gives two devices nothing. -/
theorem layout_wraps : ∃ made, construct 2 (fun _ => 0) id (2 ^ 64 - 1) [0, 1] = .ok made ∧
    made.1.totalBytes = 0 ∧
    made.2.1.map (fun chunk => chunk.2.sz) = [0, 0] :=
  ⟨_, rfl, rfl, rfl⟩

end NVLMemBlock

end EmbedCache
