import Mathlib

/-!
# Interpolation between order statistics

A sequence over the integers is read at a position between two of them by linear
interpolation. A list becomes such a sequence when its first value is continued
to the left and its last value to the right; for a sorted list these are its
order statistics. Interpolated values grow with the position and with the
values, and least values put in front of a list push its values back by as many
positions.
-/

-- ════════════════════════════════════════════════════════════════════════
-- Interpolation
-- ════════════════════════════════════════════════════════════════════════

section Interpolation

variable {K : Type*} [Field K] [LinearOrder K] [FloorRing K] {x y : ℤ → K}

/-- The value of a sequence at a position, on the line between its two
    neighbours. -/
def interpolate (x : ℤ → K) (h : K) : K := x ⌊h⌋ + (h - ⌊h⌋) * (x (⌊h⌋ + 1) - x ⌊h⌋)

/-- An interpolated value is a weighted mean of its two neighbours. -/
theorem interpolate_eq_weighted (x : ℤ → K) (h : K) :
    interpolate x h = (1 - Int.fract h) * x ⌊h⌋ + Int.fract h * x (⌊h⌋ + 1) := by
  rw [interpolate, Int.self_sub_floor]
  ring

/-- Where both neighbours agree, so does the interpolated value. -/
theorem interpolate_eq_of_eq {c : K} {h : K} (hfloor : x ⌊h⌋ = c) (hnext : x (⌊h⌋ + 1) = c) :
    interpolate x h = c := by
  rw [interpolate, hfloor, hnext, sub_self, mul_zero, add_zero]

variable [IsStrictOrderedRing K]

/-- Larger values give larger interpolated values. -/
theorem interpolate_le_interpolate (hxy : ∀ i, x i ≤ y i) (h : K) :
    interpolate x h ≤ interpolate y h := by
  have hleft : 0 ≤ 1 - Int.fract h := sub_nonneg.mpr (Int.fract_lt_one h).le
  rw [interpolate_eq_weighted, interpolate_eq_weighted]
  apply add_le_add
  · exact mul_le_mul_of_nonneg_left (hxy _) hleft
  · exact mul_le_mul_of_nonneg_left (hxy _) (Int.fract_nonneg h)

theorem interpolate_le {c : K} (hx : ∀ i, x i ≤ c) (h : K) : interpolate x h ≤ c := by
  have hconst : interpolate (fun _ => c) h = c := interpolate_eq_of_eq rfl rfl
  exact (interpolate_le_interpolate hx h).trans hconst.le

/-- A growing sequence lies between its neighbours at every position. -/
theorem interpolate_mem_neighbours (hx : Monotone x) (h : K) :
    x ⌊h⌋ ≤ interpolate x h ∧ interpolate x h ≤ x (⌊h⌋ + 1) := by
  have hstep : 0 ≤ x (⌊h⌋ + 1) - x ⌊h⌋ := sub_nonneg.mpr (hx (by omega))
  have hlow := Int.fract_nonneg h
  have hhigh := (Int.fract_lt_one h).le
  rw [interpolate, Int.self_sub_floor]
  constructor
  · exact le_add_of_nonneg_right (mul_nonneg hlow hstep)
  · have := mul_le_of_le_one_left hstep hhigh
    linarith

/-- The interpolation of a growing sequence grows with the position. -/
theorem interpolate_mono (hx : Monotone x) : Monotone (interpolate x) := by
  intro h h' hle
  rcases (Int.floor_mono hle).eq_or_lt with heq | hlt
  · -- within one interval the value grows with the slope
    have hslope : 0 ≤ x (⌊h'⌋ + 1) - x ⌊h'⌋ := sub_nonneg.mpr (hx (by omega))
    rw [interpolate, interpolate, heq]
    have hoff : h - (⌊h'⌋ : K) ≤ h' - ⌊h'⌋ := sub_le_sub_right hle _
    have := mul_le_mul_of_nonneg_right hoff hslope
    linarith
  · -- across an integer the value there lies in between
    calc interpolate x h ≤ x (⌊h⌋ + 1) := (interpolate_mem_neighbours hx h).2
      _ ≤ x ⌊h'⌋ := hx (by omega)
      _ ≤ interpolate x h' := (interpolate_mem_neighbours hx h').1

/-- A sequence moved by `k` is read `k` positions further. -/
theorem interpolate_add_intCast (x : ℤ → K) (h : K) (k : ℤ) :
    interpolate x (h + k) = interpolate (fun i => x (i + k)) h := by
  have hoff : h + k - ((⌊h⌋ + k : ℤ) : K) = h - ⌊h⌋ := by
    push_cast
    ring
  rw [interpolate, interpolate, Int.floor_add_intCast, hoff, add_right_comm]

end Interpolation

-- ════════════════════════════════════════════════════════════════════════
-- Lists as sequences
-- ════════════════════════════════════════════════════════════════════════

section OrderStat

variable {K : Type*} [Zero K]

/-- The `i`-th value of a list, counted from 1, with the first value to the left
    and the last value to the right. -/
def orderStat (l : List K) (i : ℤ) : K := l.getD (min (i - 1).toNat (l.length - 1)) 0

theorem orderStat_of_le_one {l : List K} {i : ℤ} (hi : i ≤ 1) : orderStat l i = l.getD 0 0 := by
  have : (i - 1).toNat = 0 := by omega
  rw [orderStat, this, Nat.zero_min]

theorem orderStat_of_length_le {l : List K} {i : ℤ} (hi : (l.length : ℤ) ≤ i) :
    orderStat l i = l.getD (l.length - 1) 0 := by
  rw [orderStat, Nat.min_eq_right (by omega)]

/-- Every order statistic of a list with values is one of them. -/
theorem orderStat_mem {l : List K} (hl : l ≠ []) (i : ℤ) : orderStat l i ∈ l := by
  have hpos := List.length_pos_iff.mpr hl
  rw [orderStat, List.getD_eq_getElem _ _ (by omega)]
  exact List.getElem_mem _

variable [LinearOrder K]

/-- The order statistics of a sorted list grow. -/
theorem orderStat_mono {l : List K} (hl : l.Pairwise (· ≤ ·)) : Monotone (orderStat l) := by
  intro i j hij
  rcases eq_or_ne l [] with rfl | hne
  · exact le_rfl
  have hpos := List.length_pos_iff.mpr hne
  rw [orderStat, orderStat, List.getD_eq_getElem _ _ (by omega),
    List.getD_eq_getElem _ _ (by omega)]
  rcases Nat.eq_or_lt_of_le (show min (i - 1).toNat (l.length - 1) ≤
    min (j - 1).toNat (l.length - 1) by omega) with heq | hlt
  · simp only [heq, le_refl]
  · exact List.pairwise_iff_getElem.mp hl _ _ _ _ hlt

/-- Pointwise ordered lists have ordered order statistics. -/
theorem orderStat_le_orderStat {l l' : List K} (h : List.Forall₂ (· ≤ ·) l l') (i : ℤ) :
    orderStat l i ≤ orderStat l' i := by
  have hlen := h.length_eq
  rcases eq_or_ne l [] with rfl | hne
  · rw [List.forall₂_nil_left_iff.mp h]
  have hpos := List.length_pos_iff.mpr hne
  rw [orderStat, orderStat, ← hlen, List.getD_eq_getElem _ _ (by omega),
    List.getD_eq_getElem _ _ (by omega)]
  exact (List.forall₂_iff_get.mp h).2 _ _ _

/-- Least values in front push the order statistics back. -/
theorem orderStat_replicate_append_le {l : List K} (hne : l ≠ []) {c : K} (hc : ∀ x ∈ l, c ≤ x)
    (k : ℕ) (i : ℤ) : orderStat (List.replicate k c ++ l) (i + k) ≤ orderStat l i := by
  have hpos := List.length_pos_iff.mpr hne
  have hmem := orderStat_mem hne i
  rw [orderStat, List.length_append, List.length_replicate]
  by_cases hfront : (i + k - 1).toNat < k
  · rw [List.getD_append _ _ _ _ (by rw [List.length_replicate]; omega),
      List.getD_eq_getElem _ _ (by rw [List.length_replicate]; omega), List.getElem_replicate]
    exact hc _ hmem
  · rw [List.getD_append_right _ _ _ _ (by rw [List.length_replicate]; omega),
      List.length_replicate, orderStat]
    apply le_of_eq
    congr 1
    omega

end OrderStat

-- ════════════════════════════════════════════════════════════════════════
-- Sorted lists
-- ════════════════════════════════════════════════════════════════════════

section Sorted

variable {α : Type*} [LinearOrder α]

/-- A value that is no larger goes into a list that is no larger. -/
theorem forall₂_le_orderedInsert {l l' : List α} (h : List.Forall₂ (· ≤ ·) l l')
    (hl : l.Pairwise (· ≤ ·)) (hl' : l'.Pairwise (· ≤ ·)) {a b : α} (hab : a ≤ b) :
    List.Forall₂ (· ≤ ·) (l.orderedInsert (· ≤ ·) a) (l'.orderedInsert (· ≤ ·) b) := by
  induction h generalizing a b with
  | nil => exact .cons hab .nil
  | @cons c d t t' hcd ht ih =>
    have ih' := @ih hl.of_cons hl'.of_cons
    -- a sorted list is its head inserted into its tail
    have hsorted : ∀ {e : α} {u : List α}, (e :: u).Pairwise (· ≤ ·) →
        u.orderedInsert (· ≤ ·) e = e :: u := fun {e u} hu => by
      cases u with
      | nil => rfl
      | cons f u => exact List.orderedInsert_cons_of_le _ u (List.rel_of_pairwise_cons hu (by simp))
    rcases le_or_gt a c with hac | hca <;> rcases le_or_gt b d with hbd | hdb
    · rw [List.orderedInsert_cons_of_le _ _ hac, List.orderedInsert_cons_of_le _ _ hbd]
      exact .cons hab (.cons hcd ht)
    · rw [List.orderedInsert_cons_of_le _ _ hac, List.orderedInsert_of_not_le _ _ (not_le.mpr hdb),
        ← hsorted hl]
      exact .cons (hac.trans hcd) (ih' (hcd.trans hdb.le))
    · rw [List.orderedInsert_of_not_le _ _ (not_le.mpr hca), List.orderedInsert_cons_of_le _ _ hbd,
        ← hsorted hl']
      exact .cons (hca.le.trans hab) (ih' (hab.trans hbd))
    · rw [List.orderedInsert_of_not_le _ _ (not_le.mpr hca),
        List.orderedInsert_of_not_le _ _ (not_le.mpr hdb)]
      exact .cons hcd (ih' hab)

/-- Sorting keeps lists pointwise ordered. -/
theorem forall₂_le_insertionSort {l l' : List α} (h : List.Forall₂ (· ≤ ·) l l') :
    List.Forall₂ (· ≤ ·) (l.insertionSort (· ≤ ·)) (l'.insertionSort (· ≤ ·)) := by
  induction h with
  | nil => exact .nil
  | cons hab _ ih =>
    exact forall₂_le_orderedInsert ih (List.pairwise_insertionSort _ _)
      (List.pairwise_insertionSort _ _) hab

theorem insertionSort_ne_nil {l : List α} (hl : l ≠ []) : l.insertionSort (· ≤ ·) ≠ [] := by
  apply List.ne_nil_of_length_pos
  rw [List.length_insertionSort]
  exact List.length_pos_iff.mpr hl

/-- A rearrangement of a list is sorted to the same list. -/
theorem insertionSort_eq_of_perm {l l' : List α} (h : l.Perm l') :
    l.insertionSort (· ≤ ·) = l'.insertionSort (· ≤ ·) :=
  (((List.perm_insertionSort _ l).trans h).trans (List.perm_insertionSort _ l').symm).eq_of_pairwise'
    (List.pairwise_insertionSort (· ≤ ·) l) (List.pairwise_insertionSort (· ≤ ·) l')

/-- Least values are sorted to the front. -/
theorem insertionSort_append_replicate {l : List α} {c : α} (hc : ∀ x ∈ l, c ≤ x) (k : ℕ) :
    (l ++ List.replicate k c).insertionSort (· ≤ ·) =
      List.replicate k c ++ l.insertionSort (· ≤ ·) := by
  have hfront : (List.replicate k c ++ l.insertionSort (· ≤ ·)).Pairwise (· ≤ ·) := by
    rw [List.pairwise_append]
    refine ⟨List.pairwise_replicate.mpr (.inr le_rfl), List.pairwise_insertionSort _ l, ?_⟩
    intro x hx y hy
    rw [List.eq_of_mem_replicate hx]
    exact hc y ((List.mem_insertionSort _).mp hy)
  have hperm : (List.replicate k c ++ l.insertionSort (· ≤ ·)).Perm (l ++ List.replicate k c) :=
    ((List.perm_insertionSort _ l).append_left _).trans List.perm_append_comm
  rw [← insertionSort_eq_of_perm hperm, List.Pairwise.insertionSort_eq hfront]

end Sorted

/-- Least values in front, read up to as many positions further on, give no
    larger value. -/
theorem interpolate_orderStat_replicate_append_le {K : Type*} [Field K] [LinearOrder K]
    [IsStrictOrderedRing K] [FloorRing K] {l : List K} (hl : l.Pairwise (· ≤ ·)) (hne : l ≠ [])
    {c : K} (hc : ∀ x ∈ l, c ≤ x) {k : ℕ} {h h' : K} (hh : h' ≤ h + k) :
    interpolate (orderStat (List.replicate k c ++ l)) h' ≤ interpolate (orderStat l) h := by
  have hsorted : (List.replicate k c ++ l).Pairwise (· ≤ ·) := by
    rw [List.pairwise_append]
    refine ⟨List.pairwise_replicate.mpr (.inr le_rfl), hl, fun x hx y hy => ?_⟩
    rw [List.eq_of_mem_replicate hx]
    exact hc y hy
  calc interpolate (orderStat (List.replicate k c ++ l)) h'
      ≤ interpolate (orderStat (List.replicate k c ++ l)) (h + (k : ℤ)) :=
        interpolate_mono (orderStat_mono hsorted) (by exact_mod_cast hh)
    _ = interpolate (fun i => orderStat (List.replicate k c ++ l) (i + (k : ℤ))) h :=
        interpolate_add_intCast _ _ _
    _ ≤ interpolate (orderStat l) h :=
        interpolate_le_interpolate (orderStat_replicate_append_le hne hc k) h
