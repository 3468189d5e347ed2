import LakeUpload.ChunkPlan
import Mathlib.Algebra.GroupWithZero.Nat
import Mathlib.Logic.ExistsUnique

/-!
# Chunks tile their source

The number of chunks is the least one whose chunks reach the end of the source. From that alone it
follows that no offset of a chunk wraps, that each chunk starts where the one before it ends, and
that together they hold every byte of the source once.
-/

namespace LakeUpload

namespace ChunkPlan

/-! ## What the plan for a source is like -/

/-- The chunks reach the end of the source, and all but the last do not. -/
structure Covers (plan : ChunkPlan) (sourceSize : UInt64) : Prop where
  positive : 0 < plan.chunkSize.toNat
  reach : sourceSize.toNat ≤ plan.count.toNat * plan.chunkSize.toNat
  tight : plan.count.toNat * plan.chunkSize.toNat < sourceSize.toNat + plan.chunkSize.toNat

theorem toNat_count_of_ofSource {sourceSize : UInt64} {blockSize : UInt32} {plan : ChunkPlan}
    (hplan : ofSource sourceSize blockSize = .ok plan) :
    plan.count.toNat = sourceSize.toNat / blockSize.toNat +
      if sourceSize.toNat % blockSize.toNat = 0 then 0 else 1 := by
  unfold ofSource at hplan
  split at hplan
  · cases hplan
  · cases hplan
    have hdiv : (sourceSize / blockSize.toUInt64).toNat = sourceSize.toNat / blockSize.toNat := by
      rw [UInt64.toNat_div, UInt32.toNat_toUInt64]
    have hmod : (sourceSize % blockSize.toUInt64).toNat = sourceSize.toNat % blockSize.toNat := by
      rw [UInt64.toNat_mod, UInt32.toNat_toUInt64]
    have hzero : sourceSize % blockSize.toUInt64 = 0 ↔
        sourceSize.toNat % blockSize.toNat = 0 := by
      rw [← hmod, ← UInt64.toNat_inj, UInt64.toNat_zero]
    by_cases hrest : sourceSize.toNat % blockSize.toNat = 0
    · simp only [hzero.2 hrest, hrest, if_true, hdiv, Nat.add_zero]
    · -- a remainder takes a block of at least two bytes, so the quotient has room for one more
      have hblock : blockSize.toNat ≠ 1 := by
        intro hone
        rw [hone, Nat.mod_one] at hrest
        exact hrest rfl
      have hquotient : sourceSize.toNat / blockSize.toNat ≤ sourceSize.toNat / 2 := by
        by_cases hnone : blockSize.toNat = 0
        · rw [hnone, Nat.div_zero]
          exact Nat.zero_le _
        · exact Nat.div_le_div_left (by omega) (by omega)
      have hsize := sourceSize.toNat_lt
      simp only [mt hzero.1 hrest, hrest, if_false, UInt64.toNat_add, hdiv, UInt64.toNat_one]
      omega

theorem covers_of_ofSource {sourceSize : UInt64} {blockSize : UInt32} {plan : ChunkPlan}
    (hblock : 0 < blockSize) (hplan : ofSource sourceSize blockSize = .ok plan) :
    plan.Covers sourceSize := by
  have hpositive : 0 < blockSize.toNat := UInt32.lt_iff_toNat_lt.1 hblock
  have hcount := toNat_count_of_ofSource hplan
  have hdivision := Nat.div_add_mod sourceSize.toNat blockSize.toNat
  have hrest := Nat.mod_lt sourceSize.toNat hpositive
  have hchunk := chunkSize_of_ofSource hplan
  refine ⟨?_, ?_, ?_⟩
  · rwa [hchunk]
  · rw [hchunk, hcount, Nat.add_mul, Nat.mul_comm]
    split <;> omega
  · rw [hchunk, hcount, Nat.add_mul, Nat.mul_comm]
    split <;> omega

/-- A length is the smaller of the chunk size and a difference of words. -/
theorem toNat_of_length {plan : ChunkPlan} {index sourceSize n : UInt64}
    (hlength : plan.length index sourceSize = .ok n) :
    n.toNat = min plan.chunkSize.toNat (sourceSize - plan.offset index).toNat := by
  rw [(length_eq_ok_iff.1 hlength).2, Std.min_eq_if]
  split
  · rename_i hle
    rw [UInt64.le_iff_toNat_le, UInt32.toNat_toUInt64] at hle
    rw [UInt32.toNat_toUInt64]
    omega
  · rename_i hlt
    rw [UInt64.le_iff_toNat_le, UInt32.toNat_toUInt64] at hlt
    omega

namespace Covers

variable {plan : ChunkPlan} {sourceSize : UInt64} (h : plan.Covers sourceSize)
include h

theorem start_lt {index : Nat} (hindex : index < plan.count.toNat) :
    index * plan.chunkSize.toNat < sourceSize.toNat := by
  have hnext := Nat.mul_le_mul_right plan.chunkSize.toNat hindex
  have htight := h.tight
  rw [Nat.succ_mul] at hnext
  omega

theorem toNat_offset {index : UInt64} (hindex : index < plan.count) :
    (plan.offset index).toNat = index.toNat * plan.chunkSize.toNat := by
  have hstart := h.start_lt (UInt64.lt_iff_toNat_lt.1 hindex)
  have hsize := sourceSize.toNat_lt
  rw [offset, UInt64.toNat_mul, UInt32.toNat_toUInt64, Nat.mod_eq_of_lt (by omega)]

/-- A chunk is as long as its size and the source allow. -/
theorem exists_length {index : UInt64} (hindex : index < plan.count) :
    ∃ n, plan.length index sourceSize = .ok n ∧
      n.toNat = min plan.chunkSize.toNat
        (sourceSize.toNat - index.toNat * plan.chunkSize.toNat) := by
  have hoffset := h.toNat_offset hindex
  have hstart := h.start_lt (UInt64.lt_iff_toNat_lt.1 hindex)
  have hinside : plan.offset index ≤ sourceSize := by
    rw [UInt64.le_iff_toNat_le]
    omega
  have hlength : plan.length index sourceSize = .ok _ := length_eq_ok_iff.2 ⟨hindex, rfl⟩
  refine ⟨_, hlength, ?_⟩
  rw [toNat_of_length hlength, UInt64.toNat_sub_of_le _ _ hinside, hoffset]

end Covers

/-! ## Tilings -/

/-- A chunk of this length stands at its place in the source. -/
structure Placed (plan : ChunkPlan) (sourceSize index n : UInt64) : Prop where
  positive : 1 ≤ n.toNat
  bounded : n.toNat ≤ plan.chunkSize.toNat
  full : index.toNat + 1 < plan.count.toNat → n.toNat = plan.chunkSize.toNat
  within : (plan.offset index + n).toNat = (plan.offset index).toNat + n.toNat
  next : index.toNat + 1 < plan.count.toNat → plan.offset index + n = plan.offset (index + 1)
  last : index.toNat + 1 = plan.count.toNat → plan.offset index + n = sourceSize

theorem Covers.placed {plan : ChunkPlan} {sourceSize : UInt64} (h : plan.Covers sourceSize)
    {index n : UInt64} (hindex : index < plan.count)
    (hn : n.toNat = min plan.chunkSize.toNat
      (sourceSize.toNat - index.toNat * plan.chunkSize.toNat)) :
    plan.Placed sourceSize index n := by
  have hlt := UInt64.lt_iff_toNat_lt.1 hindex
  have hpositive := h.positive
  have hstart := h.start_lt hlt
  have hoffset := h.toNat_offset hindex
  have hsize := sourceSize.toNat_lt
  have hsucc : (index.toNat + 1) * plan.chunkSize.toNat =
      index.toNat * plan.chunkSize.toNat + plan.chunkSize.toNat := Nat.succ_mul _ _
  have hwithin : (plan.offset index + n).toNat = (plan.offset index).toNat + n.toNat := by
    rw [UInt64.toNat_add, Nat.mod_eq_of_lt]
    omega
  have hfull (hmore : index.toNat + 1 < plan.count.toNat) : n.toNat = plan.chunkSize.toNat := by
    have hnext := h.start_lt hmore
    omega
  refine ⟨by omega, by omega, hfull, hwithin, ?_, ?_⟩
  · intro hmore
    have hbound := plan.count.toNat_lt
    have hindexSucc : (index + 1).toNat = index.toNat + 1 := by
      rw [UInt64.toNat_add, UInt64.toNat_one, Nat.mod_eq_of_lt (by omega)]
    have hnextLt : index + 1 < plan.count := by
      rw [UInt64.lt_iff_toNat_lt, hindexSucc]
      exact hmore
    rw [← UInt64.toNat_inj, hwithin, h.toNat_offset hnextLt, hindexSucc, hoffset, hfull hmore]
    omega
  · intro hlast
    have hreach := h.reach
    rw [← hlast] at hreach
    rw [← UInt64.toNat_inj, hwithin, hoffset]
    omega

/-- The chunk with this index holds the byte at this position. -/
def Holds (plan : ChunkPlan) (sourceSize index : UInt64) (position : Nat) : Prop :=
  ∃ n, plan.length index sourceSize = .ok n ∧ (plan.offset index).toNat ≤ position ∧
    position < (plan.offset index).toNat + n.toNat

theorem Covers.holds_iff {plan : ChunkPlan} {sourceSize : UInt64} (h : plan.Covers sourceSize)
    {index : UInt64} (hindex : index < plan.count) {position : Nat}
    (hposition : position < sourceSize.toNat) :
    plan.Holds sourceSize index position ↔ position / plan.chunkSize.toNat = index.toNat := by
  obtain ⟨n, hlength, hn⟩ := h.exists_length hindex
  have hoffset := h.toNat_offset hindex
  have hsucc : (index.toNat + 1) * plan.chunkSize.toNat =
      index.toNat * plan.chunkSize.toNat + plan.chunkSize.toNat := Nat.succ_mul _ _
  constructor
  · rintro ⟨m, hm, hfrom, hto⟩
    rw [hlength] at hm
    cases hm
    exact Nat.div_eq_of_lt_le (by omega) (by omega)
  · intro hdiv
    have hfrom := Nat.div_mul_le_self position plan.chunkSize.toNat
    rw [hdiv] at hfrom
    have hto : position < (index.toNat + 1) * plan.chunkSize.toNat := by
      apply Nat.lt_mul_of_div_lt _ h.positive
      rw [hdiv]
      exact Nat.lt_succ_self _
    exact ⟨n, hlength, by omega, by omega⟩

theorem toNat_ofNat_of_lt_count (plan : ChunkPlan) {k : Nat} (hk : k < plan.count.toNat) :
    (UInt64.ofNat k).toNat = k := by
  have hbound := plan.count.toNat_lt
  rw [UInt64.toNat_ofNat', Nat.mod_eq_of_lt (by omega)]

/-- The lengths of all chunks, in order. -/
def lengths (plan : ChunkPlan) (sourceSize : UInt64) : Except Fault (List UInt64) :=
  (List.range plan.count.toNat).mapM fun index => plan.length (UInt64.ofNat index) sourceSize

/-- The first chunks hold what the source has up to their end. -/
theorem Covers.sum_lengths {plan : ChunkPlan} {sourceSize : UInt64} (h : plan.Covers sourceSize)
    {k : Nat} (hk : k ≤ plan.count.toNat) :
    ∃ found, ((List.range k).mapM fun index => plan.length (UInt64.ofNat index) sourceSize) =
        .ok found ∧
      (found.map UInt64.toNat).sum = min (k * plan.chunkSize.toNat) sourceSize.toNat := by
  induction k with
  | zero =>
      refine ⟨[], rfl, ?_⟩
      rw [Nat.zero_mul, Nat.zero_min]
      rfl
  | succ k ih =>
      obtain ⟨found, hfound, hsum⟩ := ih (by omega)
      have hnat := plan.toNat_ofNat_of_lt_count hk
      have hindex : UInt64.ofNat k < plan.count := by
        rw [UInt64.lt_iff_toNat_lt, hnat]
        exact hk
      obtain ⟨n, hlength, hn⟩ := h.exists_length hindex
      rw [hnat] at hn
      have hstart := h.start_lt hk
      have hsucc : (k + 1) * plan.chunkSize.toNat =
          k * plan.chunkSize.toNat + plan.chunkSize.toNat := Nat.succ_mul _ _
      refine ⟨found ++ [n], ?_, ?_⟩
      · rw [List.range_succ, List.mapM_append, hfound, List.mapM_cons, hlength]
        rfl
      · rw [List.map_append, List.sum_append, hsum, List.map_singleton, List.sum_singleton, hn]
        omega

/-- The chunks of the plan stand one behind the other and make up the source; an index past them
is refused. -/
structure Tiles (plan : ChunkPlan) (sourceSize : UInt64) : Prop where
  placed : ∀ index, index < plan.count →
    ∃ n, plan.length index sourceSize = .ok n ∧ plan.Placed sourceSize index n
  once : ∀ position, position < sourceSize.toNat →
    ∃! index, index < plan.count ∧ plan.Holds sourceSize index position
  total : ∃ found, plan.lengths sourceSize = .ok found ∧
    (found.map UInt64.toNat).sum = sourceSize.toNat
  empty : plan.count = 0 ↔ sourceSize = 0
  refused : ∀ index size, plan.count ≤ index →
    ∃ fault, plan.length index size = .error fault ∧ fault.code = .invalidChunkIndex

theorem Covers.exists_unique_holds {plan : ChunkPlan} {sourceSize : UInt64}
    (h : plan.Covers sourceSize) {position : Nat} (hposition : position < sourceSize.toNat) :
    ∃! index, index < plan.count ∧ plan.Holds sourceSize index position := by
  have hchunk : position / plan.chunkSize.toNat < plan.count.toNat := by
    apply Nat.div_lt_of_lt_mul
    have hreach := h.reach
    rw [Nat.mul_comm]
    omega
  have hnat := plan.toNat_ofNat_of_lt_count hchunk
  have hindex : UInt64.ofNat (position / plan.chunkSize.toNat) < plan.count := by
    rw [UInt64.lt_iff_toNat_lt, hnat]
    exact hchunk
  refine ⟨_, ⟨hindex, (h.holds_iff hindex hposition).2 hnat.symm⟩, ?_⟩
  rintro other ⟨hother, hholds⟩
  rw [← UInt64.toNat_inj, hnat, (h.holds_iff hother hposition).1 hholds]

theorem Covers.count_eq_zero_iff {plan : ChunkPlan} {sourceSize : UInt64}
    (h : plan.Covers sourceSize) : plan.count = 0 ↔ sourceSize = 0 := by
  have hreach := h.reach
  have htight := h.tight
  rw [← UInt64.toNat_inj, ← UInt64.toNat_inj, UInt64.toNat_zero]
  constructor
  · intro hcount
    rw [hcount, Nat.zero_mul] at hreach
    omega
  · intro hsize
    apply Nat.eq_zero_of_not_pos
    intro hcount
    have hstart := h.start_lt hcount
    omega

theorem Covers.tiles {plan : ChunkPlan} {sourceSize : UInt64} (h : plan.Covers sourceSize) :
    plan.Tiles sourceSize := by
  refine ⟨?_, fun _ => h.exists_unique_holds, ?_, h.count_eq_zero_iff, ?_⟩
  · intro index hindex
    obtain ⟨n, hlength, hn⟩ := h.exists_length hindex
    exact ⟨n, hlength, h.placed hindex hn⟩
  · obtain ⟨found, hfound, hsum⟩ := h.sum_lengths (Nat.le_refl _)
    have hreach := h.reach
    exact ⟨found, hfound, by omega⟩
  · intro index size hindex
    exact ⟨plan.indexOutOfRange index, length_of_le hindex, rfl⟩

theorem ofSource_tiles (sourceSize : UInt64) {blockSize : UInt32} (hblock : 0 < blockSize) :
    ∃ plan, ofSource sourceSize blockSize = .ok plan ∧ plan.chunkSize = blockSize ∧
      plan.Tiles sourceSize := by
  cases hplan : ofSource sourceSize blockSize with
  | error fault =>
      obtain ⟨hzero, -⟩ := ofSource_eq_error_iff.1 hplan
      rw [hzero] at hblock
      exact absurd hblock (by decide)
  | ok plan =>
      exact ⟨plan, rfl, chunkSize_of_ofSource hplan, (covers_of_ofSource hblock hplan).tiles⟩

/-- The largest source, in the largest blocks that leave a shorter one for its end. -/
theorem largest_source_tiles :
    (0 : UInt32) < 4294967294 ∧
      ∃ plan, ofSource 18446744073709551615 4294967294 = .ok plan ∧
        plan.chunkSize = 4294967294 ∧ plan.Tiles 18446744073709551615 := by
  have hblock : (0 : UInt32) < 4294967294 := by decide
  exact ⟨hblock, ofSource_tiles 18446744073709551615 hblock⟩

end ChunkPlan

end LakeUpload
