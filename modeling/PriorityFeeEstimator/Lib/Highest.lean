import Mathlib.Data.List.Sort
import Mathlib.Data.Finset.Card
import Mathlib.Data.Finset.Max

/-!
# The highest elements of a finite set

`highest k s` is the set of the `k` highest elements of `s`: those with fewer
than `k` elements of `s` above them. Sorting a list downwards and taking its
first `k` elements computes it.
-/

variable {α : Type*} [LinearOrder α]

/-- The `k` highest elements of `s`, all of `s` when it has no more than `k`. -/
def highest (k : ℕ) (s : Finset α) : Finset α :=
  s.filter fun x => (s.filter fun y => x < y).card < k

/-- The elements of `l` from the highest to the lowest. -/
def descending (l : List α) : List α := (l.insertionSort (· ≤ ·)).reverse

theorem descending_perm (l : List α) : (descending l).Perm l :=
  (List.reverse_perm _).trans (List.perm_insertionSort _ l)

theorem pairwise_descending (l : List α) : (descending l).Pairwise (· ≥ ·) := by
  rw [descending, List.pairwise_reverse]
  exact List.pairwise_insertionSort (· ≤ ·) l

/-- Sorting forgets the order of its input. -/
theorem descending_eq_of_perm {l l' : List α} (h : l.Perm l') : descending l = descending l' :=
  (((descending_perm l).trans h).trans (descending_perm l').symm).eq_of_pairwise'
    (pairwise_descending l) (pairwise_descending l')

theorem mem_highest {k : ℕ} {s : Finset α} {x : α} :
    x ∈ highest k s ↔ x ∈ s ∧ (s.filter fun y => x < y).card < k := by
  simp [highest]

theorem highest_subset (k : ℕ) (s : Finset α) : highest k s ⊆ s :=
  Finset.filter_subset _ _

theorem highest_eq_self_of_card_le {k : ℕ} {s : Finset α} (h : s.card ≤ k) :
    highest k s = s := by
  ext x
  rw [mem_highest]
  refine ⟨And.left, fun hx => ⟨hx, ?_⟩⟩
  have hlt : (s.filter fun y => x < y).card < s.card :=
    Finset.card_lt_card (Finset.filter_ssubset.mpr ⟨x, hx, lt_irrefl x⟩)
  omega

/-- On a strictly falling list the first `k` elements are the `k` highest. -/
theorem toFinset_take_of_pairwise {l : List α} (hl : l.Pairwise (· > ·)) (k : ℕ) :
    (l.take k).toFinset = highest k l.toFinset := by
  induction l generalizing k with
  | nil => simp [highest]
  | cons a l ih =>
    rw [List.pairwise_cons] at hl
    have ha : a ∉ l.toFinset := fun h => lt_irrefl a (hl.1 a (List.mem_toFinset.mp h))
    ext x
    cases k with
    | zero => simp [highest]
    | succ k =>
      have hih := Finset.ext_iff.mp (ih hl.2 k) x
      rw [mem_highest] at hih ⊢
      rw [List.take_succ_cons, List.toFinset_cons, List.toFinset_cons, Finset.mem_insert,
        Finset.mem_insert, hih]
      by_cases hx : x = a
      · -- nothing in the list is above its head
        subst hx
        have hnone : (insert x l.toFinset).filter (fun y => x < y) = ∅ := by
          refine Finset.filter_eq_empty_iff.mpr fun y hy => ?_
          rcases Finset.mem_insert.mp hy with rfl | hy
          · exact lt_irrefl _
          · exact (hl.1 y (List.mem_toFinset.mp hy)).le.not_gt
        simp [hnone]
      · simp only [hx, false_or]
        refine and_congr_right fun hxl => ?_
        have hax : x < a := hl.1 x (List.mem_toFinset.mp hxl)
        rw [Finset.filter_insert, if_pos hax, Finset.card_insert_of_notMem
          (fun h => ha (Finset.mem_filter.mp h).1)]
        omega

/-- Sorting a list without repetitions downwards and taking `k` elements gives
    the `k` highest elements of the list. -/
theorem toFinset_take_descending {l : List α} (hl : l.Nodup) (k : ℕ) :
    ((descending l).take k).toFinset = highest k l.toFinset := by
  have hnd : (descending l).Nodup := (descending_perm l).nodup_iff.mpr hl
  have hp : (descending l).Pairwise (· > ·) :=
    ((pairwise_descending l).and hnd).imp fun h => lt_of_le_of_ne h.1 (Ne.symm h.2)
  rw [toFinset_take_of_pairwise hp, List.toFinset_eq_of_perm _ _ (descending_perm l)]

theorem card_highest (k : ℕ) (s : Finset α) : (highest k s).card = min k s.card := by
  have hnd := s.nodup_toList
  have h := toFinset_take_descending hnd k
  rw [Finset.toList_toFinset] at h
  rw [← h, List.toFinset_card_of_nodup
    (((descending_perm _).nodup_iff.mpr hnd).sublist (List.take_sublist _ _)),
    List.length_take, (descending_perm _).length_eq, Finset.length_toList]

/-- Above an element of the `k` highest there are only elements of the `k`
    highest. -/
theorem mem_highest_of_lt {k : ℕ} {s : Finset α} {x y : α} (hx : x ∈ highest k s)
    (hy : y ∈ s) (h : x < y) : y ∈ highest k s := by
  rw [mem_highest] at hx ⊢
  refine ⟨hy, lt_of_le_of_lt (Finset.card_le_card fun z hz => ?_) hx.2⟩
  rw [Finset.mem_filter] at hz ⊢
  exact ⟨hz.1, h.trans hz.2⟩

/-- A subset of the right size below which everything else lies is the set of
    the highest elements. -/
theorem eq_highest {k : ℕ} {s t : Finset α} (hts : t ⊆ s) (hcard : t.card = min k s.card)
    (hup : ∀ x ∈ t, ∀ y ∈ s, y ∉ t → y < x) : t = highest k s := by
  have hsub : t ⊆ highest k s := by
    intro x hx
    rw [mem_highest]
    refine ⟨hts hx, ?_⟩
    have habove : (s.filter fun y => x < y) ⊆ t.erase x := by
      intro y hy
      rw [Finset.mem_filter] at hy
      rw [Finset.mem_erase]
      exact ⟨hy.2.ne', by_contra fun hyt => (hup x hx y hy.1 hyt).not_gt hy.2⟩
    have hle := Finset.card_le_card habove
    rw [Finset.card_erase_of_mem hx] at hle
    have hpos : 0 < t.card := Finset.card_pos.mpr ⟨x, hx⟩
    omega
  exact Finset.eq_of_subset_of_card_le hsub (by rw [card_highest, hcard])

theorem lt_of_mem_highest_of_notMem {k : ℕ} {s : Finset α} {x y : α} (hx : x ∈ highest k s)
    (hy : y ∈ s) (hny : y ∉ highest k s) : y < x := by
  rcases lt_trichotomy x y with h | rfl | h
  · exact absurd (mem_highest_of_lt hx hy h) hny
  · exact absurd hx hny
  · exact h

/-- An element that arrives changes the highest ones only through those held
    before. -/
theorem highest_insert (k : ℕ) (s : Finset α) (a : α) :
    highest k (insert a s) = highest k (insert a (highest k s)) := by
  refine (eq_highest ?_ ?_ ?_).symm
  · exact (highest_subset _ _).trans (Finset.insert_subset_insert a (highest_subset k s))
  · rw [card_highest]
    by_cases ha : a ∈ s
    · by_cases hak : a ∈ highest k s
      · rw [Finset.insert_eq_of_mem hak, Finset.insert_eq_of_mem ha, card_highest]
        omega
      · have hk : k < s.card := by
          by_contra hle
          exact hak (by rw [highest_eq_self_of_card_le (not_lt.mp hle)]; exact ha)
        rw [Finset.card_insert_of_notMem hak, Finset.insert_eq_of_mem ha, card_highest]
        omega
    · rw [Finset.card_insert_of_notMem (fun h => ha (highest_subset k s h)),
        Finset.card_insert_of_notMem ha, card_highest]
      omega
  · intro x hx y hy hny
    by_cases hyh : y ∈ insert a (highest k s)
    · exact lt_of_mem_highest_of_notMem hx hyh hny
    · -- `y` was not among the highest before, so `k` elements lie above it already
      rw [Finset.mem_insert, not_or] at hyh
      have hys : y ∈ s := (Finset.mem_insert.mp hy).resolve_left hyh.1
      rcases Finset.mem_insert.mp (highest_subset _ _ hx) with rfl | hxh
      · by_contra hle
        have hlt : x < y := lt_of_le_of_ne (not_lt.mp hle) (Ne.symm hyh.1)
        have hkc : (highest k s).card = k := by
          rw [card_highest, min_eq_left_iff]
          by_contra hlt'
          exact hyh.2 (by rw [highest_eq_self_of_card_le (not_le.mp hlt').le]; exact hys)
        have habove : highest k s ⊆ (insert x (highest k s)).filter (fun z => x < z) := by
          intro z hz
          rw [Finset.mem_filter]
          exact ⟨Finset.mem_insert_of_mem hz,
            hlt.trans (lt_of_mem_highest_of_notMem hz hys hyh.2)⟩
        have := Finset.card_le_card habove
        have := (mem_highest.mp hx).2
        omega
      · exact lt_of_mem_highest_of_notMem hxh hys hyh.2

/-- With one element too many, the highest ones are the others exactly when that
    element lies below all of them. -/
theorem highest_insert_eq_iff {k : ℕ} {t : Finset α} {d : α} (hd : d ∉ t) (hk : t.card = k) :
    highest k (insert d t) = t ↔ ∀ x ∈ t, d < x := by
  constructor
  · intro h x hx
    have hxh : x ∈ highest k (insert d t) := by rw [h]; exact hx
    have hdh : d ∉ highest k (insert d t) := by rw [h]; exact hd
    exact lt_of_mem_highest_of_notMem hxh (Finset.mem_insert_self d t) hdh
  · intro h
    refine (eq_highest (Finset.subset_insert d t) ?_ ?_).symm
    · rw [Finset.card_insert_of_notMem hd]
      omega
    · intro x hx y hy hyt
      rw [(Finset.mem_insert.mp hy).resolve_right hyt]
      exact h x hx

/-- The highest elements of the highest elements are the highest elements. -/
theorem highest_highest {j k : ℕ} (h : j ≤ k) (s : Finset α) :
    highest j (highest k s) = highest j s := by
  refine eq_highest ((highest_subset _ _).trans (highest_subset _ _)) ?_ ?_
  · rw [card_highest, card_highest]
    omega
  · intro x hx y hy hny
    by_cases hyk : y ∈ highest k s
    · exact lt_of_mem_highest_of_notMem hx hyk hny
    · exact lt_of_mem_highest_of_notMem (highest_subset _ _ hx) hy hyk
