import LakeUpload.Fault
import LakeUpload.Text.Decimal

/-!
# Chunk plans

A source is sent in chunks of one size, the last one shorter where the sizes do not divide.
Offsets and lengths are 64-bit words and wrap like them.
-/

namespace LakeUpload

open Bytes (ascii decimal)

structure ChunkPlan where
  /-- Size of every chunk except possibly the last one. -/
  chunkSize : UInt32 := 0
  /-- Number of chunks, zero for an empty source. -/
  count : UInt64 := 0
  deriving DecidableEq, Repr

namespace ChunkPlan

def blockSizeZero : Fault :=
  ⟨.invalidChunkSize, ascii "block size must be greater than zero"⟩

/-- As many chunks of the block size as it takes to cover the source. -/
def ofSource (sourceSize : UInt64) (blockSize : UInt32) : Except Fault ChunkPlan :=
  if blockSize = 0 then .error blockSizeZero
  else
    let whole := sourceSize / blockSize.toUInt64
    let count := if sourceSize % blockSize.toUInt64 = 0 then whole else whole + 1
    .ok { chunkSize := blockSize, count }

/-- Where a chunk starts in the source. -/
def offset (plan : ChunkPlan) (index : UInt64) : UInt64 :=
  index * plan.chunkSize.toUInt64

def indexOutOfRange (plan : ChunkPlan) (index : UInt64) : Fault :=
  ⟨.invalidChunkIndex,
    ascii "chunk index " ++ decimal index.toNat ++ ascii " out of range (chunks: " ++
      decimal plan.count.toNat ++ ascii ")"⟩

/-- The chunk size, or what is left of the source behind the chunk's offset if that is less. -/
def length (plan : ChunkPlan) (index sourceSize : UInt64) : Except Fault UInt64 :=
  if plan.count ≤ index then .error (plan.indexOutOfRange index)
  else .ok (min plan.chunkSize.toUInt64 (sourceSize - plan.offset index))

theorem ofSource_eq_error_iff {sourceSize : UInt64} {blockSize : UInt32} {fault : Fault} :
    ofSource sourceSize blockSize = .error fault ↔ blockSize = 0 ∧ fault = blockSizeZero := by
  unfold ofSource
  by_cases hblock : blockSize = 0
  · simp [hblock, eq_comm]
  · simp [hblock]

theorem chunkSize_of_ofSource {sourceSize : UInt64} {blockSize : UInt32} {plan : ChunkPlan}
    (hplan : ofSource sourceSize blockSize = .ok plan) : plan.chunkSize = blockSize := by
  unfold ofSource at hplan
  by_cases hblock : blockSize = 0
  · simp [hblock] at hplan
  · simp only [hblock, if_false, Except.ok.injEq] at hplan
    simp [← hplan]

theorem length_of_le {plan : ChunkPlan} {index sourceSize : UInt64} (hindex : plan.count ≤ index) :
    plan.length index sourceSize = .error (plan.indexOutOfRange index) := by
  simp [length, hindex]

theorem length_eq_ok_iff {plan : ChunkPlan} {index sourceSize n : UInt64} :
    plan.length index sourceSize = .ok n ↔
      index < plan.count ∧ n = min plan.chunkSize.toUInt64 (sourceSize - plan.offset index) := by
  rw [← UInt64.not_le]
  by_cases hindex : plan.count ≤ index
  · simp [length, hindex]
  · simp [length, hindex, eq_comm]

end ChunkPlan

end LakeUpload
