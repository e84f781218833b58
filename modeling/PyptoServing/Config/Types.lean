import Mathlib

/-!
# Cache layout configuration

The frozen dataclasses that describe one cache family. Their `__post_init__`
checks are fields, so a value of the structure has passed them; `new` is the
constructor with the checks in the source's order and with its messages.
-/
namespace PyptoServing.Config

/-- Source-token and physical-storage layout of one cache block. -/
structure KVCacheSpec where
  blockSize : Nat
  pageSizeBytes : Nat
  compressRatio : Nat
  blockSize_pos : 0 < blockSize
  pageSizeBytes_pos : 0 < pageSizeBytes
  compressRatio_pos : 0 < compressRatio
  compress_dvd : blockSize % compressRatio = 0
  deriving DecidableEq, Repr

namespace KVCacheSpec

/-- `KVCacheSpec(...)`: the first failing check names the error. -/
def new (blockSize pageSizeBytes : Nat) (compressRatio : Nat := 1) : Except String KVCacheSpec :=
  if h1 : 0 < blockSize then
    if h2 : 0 < pageSizeBytes then
      if h3 : 0 < compressRatio then
        if h4 : blockSize % compressRatio = 0 then
          .ok ⟨blockSize, pageSizeBytes, compressRatio, h1, h2, h3, h4⟩
        else .error "KV cache block_size must be divisible by compress_ratio"
      else .error "KV cache compress_ratio must be positive"
    else .error "KV cache page_size_bytes must be positive"
  else .error "KV cache block_size must be positive"

/-- A layout without compression. -/
def uncompressed (blockSize pageSizeBytes : Nat) (hblock : 0 < blockSize)
    (hpage : 0 < pageSizeBytes) : KVCacheSpec :=
  ⟨blockSize, pageSizeBytes, 1, hblock, hpage, Nat.one_pos, Nat.mod_one blockSize⟩

/-- The number of source tokens represented by one block. -/
def tokenCapacity (s : KVCacheSpec) : Nat := s.blockSize

theorem tokenCapacity_pos (s : KVCacheSpec) : 0 < s.tokenCapacity := s.blockSize_pos

end KVCacheSpec

/-- One independently allocated model-specific cache family. A rolling group has a
`slidingWindow`; a full-history group has none. -/
structure KVCacheGroupSpec where
  name : String
  layerIndices : List Nat
  spec : KVCacheSpec
  maxBlocksPerSeq : Nat
  numBlocks : Option Nat
  numPartitions : Nat
  slidingWindow : Option Nat
  isEagleGroup : Bool
  name_ne : name ≠ ""
  maxBlocksPerSeq_pos : 0 < maxBlocksPerSeq
  numBlocks_pos : ∀ n ∈ numBlocks, 0 < n
  numPartitions_pos : 0 < numPartitions
  window_pos : ∀ w ∈ slidingWindow, 0 < w
  window_dvd : ∀ w ∈ slidingWindow, w % spec.tokenCapacity = 0
  window_fits : ∀ w ∈ slidingWindow, w / spec.tokenCapacity ≤ maxBlocksPerSeq
  deriving DecidableEq, Repr

namespace KVCacheGroupSpec

/-- `KVCacheGroupSpec(...)`: the first failing check names the error. -/
def new (name : String) (layerIndices : List Nat) (spec : KVCacheSpec) (maxBlocksPerSeq : Nat)
    (numBlocks : Option Nat := none) (numPartitions : Nat := 1)
    (slidingWindow : Option Nat := none) (isEagleGroup : Bool := false) :
    Except String KVCacheGroupSpec :=
  if h1 : name ≠ "" then
    if h2 : 0 < maxBlocksPerSeq then
      if h3 : ∀ n ∈ numBlocks, 0 < n then
        if h4 : 0 < numPartitions then
          if h5 : ∀ w ∈ slidingWindow, 0 < w then
            if h6 : ∀ w ∈ slidingWindow, w % spec.tokenCapacity = 0 then
              if h7 : ∀ w ∈ slidingWindow, w / spec.tokenCapacity ≤ maxBlocksPerSeq then
                .ok ⟨name, layerIndices, spec, maxBlocksPerSeq, numBlocks, numPartitions,
                  slidingWindow, isEagleGroup, h1, h2, h3, h4, h5, h6, h7⟩
              else .error "KV cache sliding_window requires more blocks than max_blocks_per_seq"
            else .error "KV cache sliding_window must be a multiple of the block token capacity"
          else .error "KV cache sliding_window must be positive"
        else .error "KV cache num_partitions must be positive"
      else .error "KV cache num_blocks must be positive when specified"
    else .error "KV cache max_blocks_per_seq must be positive"
  else .error "KV cache group name must not be empty"

/-- A bound that is not set passes its check. -/
theorem unset_pos : ∀ n ∈ (none : Option Nat), 0 < n := by simp

end KVCacheGroupSpec
end PyptoServing.Config
