import LakeUpload.Proofs.Chunks.Tiling

/-!
# Chunks of a source that changed its size

A plan is made once, and the size of the source is given again for each length. What is left of the
source behind the start of a chunk is a difference of words. It is the true one exactly for the
chunks that start inside the source as it is now, and these are the ones that end inside it.
-/

namespace LakeUpload

namespace ChunkPlan

/-- A chunk of this length lies in a source of this size, and no word on the way there wraps. -/
structure Inside (plan : ChunkPlan) (size index n : UInt64) : Prop where
  left : (plan.offset index).toNat + (size - plan.offset index).toNat = size.toNat
  sum : (plan.offset index + n).toNat = (plan.offset index).toNat + n.toNat
  within : plan.offset index + n ≤ size

section

variable {plan : ChunkPlan} {size index n : UInt64}

theorem inside_of_le (hlength : plan.length index size = .ok n)
    (hstart : plan.offset index ≤ size) : plan.Inside size index n := by
  have hn := toNat_of_length hlength
  have hleft : (plan.offset index).toNat + (size - plan.offset index).toNat = size.toNat := by
    have hle := UInt64.le_iff_toNat_le.1 hstart
    rw [UInt64.toNat_sub_of_le _ _ hstart]
    omega
  have hsum : (plan.offset index + n).toNat = (plan.offset index).toNat + n.toNat := by
    have hsize := size.toNat_lt
    rw [UInt64.toNat_add, Nat.mod_eq_of_lt]
    omega
  refine ⟨hleft, hsum, ?_⟩
  rw [UInt64.le_iff_toNat_le, hsum]
  omega

theorem Inside.start_le (h : plan.Inside size index n) : plan.offset index ≤ size := by
  have hleft := h.left
  rw [UInt64.le_iff_toNat_le]
  omega

/-- The difference comes out one turn of the words too high. -/
theorem toNat_left_of_lt (hstart : size < plan.offset index) :
    (size - plan.offset index).toNat =
      0x10000000000000000 + size.toNat - (plan.offset index).toNat := by
  have hlt := UInt64.lt_iff_toNat_lt.1 hstart
  have hoffset := (plan.offset index).toNat_lt
  rw [UInt64.toNat_sub, Nat.mod_eq_of_lt]
  · omega
  · omega

end

/-- How a chunk comes out that is measured against a source of this size. -/
structure Measured (plan : ChunkPlan) (size index n : UInt64) : Prop where
  inside_iff : plan.Inside size index n ↔ index.toNat * plan.chunkSize.toNat ≤ size.toNat
  fitted : index.toNat * plan.chunkSize.toNat ≤ size.toNat →
    n.toNat = min plan.chunkSize.toNat (size.toNat - index.toNat * plan.chunkSize.toNat)
  /-- Behind the end of the source there still are bytes, as many as up to the last word. -/
  wrapped : size.toNat < index.toNat * plan.chunkSize.toNat → 0 < n.toNat ∧
    n.toNat = min plan.chunkSize.toNat
      (0x10000000000000000 + size.toNat - index.toNat * plan.chunkSize.toNat)

theorem Covers.measured {plan : ChunkPlan} {sourceSize size index n : UInt64}
    (h : plan.Covers sourceSize) (hlength : plan.length index size = .ok n) :
    plan.Measured size index n := by
  have hpositive := h.positive
  have hoffset := h.toNat_offset (length_eq_ok_iff.1 hlength).1
  have hn := toNat_of_length hlength
  have hstart : plan.offset index ≤ size ↔
      index.toNat * plan.chunkSize.toNat ≤ size.toNat := by
    rw [UInt64.le_iff_toNat_le, hoffset]
  refine ⟨?_, ?_, ?_⟩
  · rw [← hstart]
    exact ⟨Inside.start_le, inside_of_le hlength⟩
  · intro hle
    rw [hn, UInt64.toNat_sub_of_le _ _ (hstart.2 hle), hoffset]
  · intro hlt
    have hword := (plan.offset index).toNat_lt
    rw [hoffset] at hword
    have hbehind : size < plan.offset index := by
      rw [UInt64.lt_iff_toNat_lt, hoffset]
      exact hlt
    rw [toNat_left_of_lt hbehind, hoffset] at hn
    exact ⟨by omega, hn⟩

/-- Every chunk of a plan has a length, whatever size is given, and it stays inside a source of that
size exactly if it starts there. So it does in a source that did not shrink. -/
theorem length_inside_iff {sourceSize : UInt64} {blockSize : UInt32} {plan : ChunkPlan}
    (hplan : ofSource sourceSize blockSize = .ok plan) (index size : UInt64) :
    (index < plan.count ↔ ∃ n, plan.length index size = .ok n) ∧
      ∀ n, plan.length index size = .ok n →
        plan.Measured size index n ∧ (sourceSize ≤ size → plan.Inside size index n) := by
  have hblock : 0 < blockSize := by
    apply UInt32.pos_iff_ne_zero.2
    intro hzero
    rw [ofSource_eq_error_iff.2 ⟨hzero, rfl⟩] at hplan
    cases hplan
  have hcovers := covers_of_ofSource hblock hplan
  constructor
  · simp [length_eq_ok_iff]
  · intro n hlength
    have hmeasured := hcovers.measured hlength
    refine ⟨hmeasured, fun hsize => hmeasured.inside_iff.2 ?_⟩
    have hindex := UInt64.lt_iff_toNat_lt.1 (length_eq_ok_iff.1 hlength).1
    have hstart := hcovers.start_lt hindex
    have hgrown := UInt64.le_iff_toNat_le.1 hsize
    omega

/-- A source of ten bytes in blocks of four, cut down to five bytes and to nine. -/
theorem shrunkSource_inside_iff :
    ofSource 10 4 = .ok ⟨4, 3⟩ ∧
      (ChunkPlan.mk 4 3).length 2 5 = .ok 4 ∧ (ChunkPlan.mk 4 3).Measured 5 2 4 ∧
      (ChunkPlan.mk 4 3).length 2 9 = .ok 1 ∧ (ChunkPlan.mk 4 3).Measured 9 2 1 := by
  have hplan : ofSource 10 4 = .ok ⟨4, 3⟩ := by rfl
  have hfive : (ChunkPlan.mk 4 3).length 2 5 = .ok 4 := by rfl
  have hnine : (ChunkPlan.mk 4 3).length 2 9 = .ok 1 := by rfl
  exact ⟨hplan, hfive, ((length_inside_iff hplan 2 5).2 4 hfive).1, hnine,
    ((length_inside_iff hplan 2 9).2 1 hnine).1⟩

/-- The last chunk of a source that was cut down in front of it reaches behind the end. -/
theorem not_always_inside :
    ¬ ∀ (sourceSize : UInt64) (blockSize : UInt32) (plan : ChunkPlan) (index size n : UInt64),
      ofSource sourceSize blockSize = .ok plan → plan.length index size = .ok n →
        plan.Inside size index n := by
  intro h
  have hinside := h 10 4 ⟨4, 3⟩ 2 5 4 (by rfl) (by rfl)
  exact absurd hinside.within (by decide)

end ChunkPlan

end LakeUpload
