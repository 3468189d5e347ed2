/-!
# Lists

What is at a place of a list once it was extended or changed at one place, the order of lists with
fronts of one length, and lists that are too short for two of their elements to be compared.
-/

namespace LakeUpload

namespace Lists

theorem getD_concat {α : Type} (xs : List α) (x fallback : α) (index : Nat) :
    (xs ++ [x]).getD index fallback = if index = xs.length then x else xs.getD index fallback := by
  simp only [List.getD_eq_getElem?_getD]
  rcases Nat.lt_trichotomy index xs.length with hlt | rfl | hgt
  · rw [List.getElem?_append_left hlt, if_neg (Nat.ne_of_lt hlt)]
  · simp
  · have hnew : (xs ++ [x]).length ≤ index := by
      rw [List.length_append]
      exact hgt
    rw [if_neg (Nat.ne_of_gt hgt), List.getElem?_eq_none (Nat.le_of_lt hgt),
      List.getElem?_eq_none hnew]

theorem getD_set {α : Type} (xs : List α) (place : Nat) (x fallback : α) (index : Nat) :
    (xs.set place x).getD index fallback =
      if index = place ∧ place < xs.length then x else xs.getD index fallback := by
  simp only [List.getD_eq_getElem?_getD]
  by_cases hindex : index = place
  · subst hindex
    by_cases hlt : index < xs.length
    · rw [List.getElem?_set_self hlt, if_pos ⟨rfl, hlt⟩, Option.getD_some]
    · rw [List.set_eq_of_length_le (Nat.le_of_not_lt hlt), if_neg fun h => hlt h.2]
  · rw [List.getElem?_set_ne (Ne.symm hindex), if_neg fun h => hindex h.1]

theorem append_lt_append_iff {α : Type} [LT α] {s t : List α} (h : s.length = t.length)
    (s' t' : List α) : s ++ s' < t ++ t' ↔ s < t ∨ s = t ∧ s' < t' := by
  induction s generalizing t with
  | nil =>
      cases t with
      | nil =>
          simp
      | cons c t =>
          cases h
  | cons b s ih =>
      cases t with
      | nil =>
          cases h
      | cons c t =>
          rw [List.cons_append, List.cons_append, List.cons_lt_cons_iff, List.cons_lt_cons_iff,
            ih (Nat.succ.inj h), List.cons.injEq]
          simp only [and_or_left, or_assoc, and_assoc]

theorem pairwise_of_length_le {α : Type} {related : α → α → Prop} {xs : List α}
    (h : xs.length ≤ 1) : xs.Pairwise related := by
  cases xs with
  | nil =>
      exact List.Pairwise.nil
  | cons x rest =>
      have hrest : rest = [] := by simpa using h
      rw [hrest]
      exact List.pairwise_singleton related x

end Lists

end LakeUpload
