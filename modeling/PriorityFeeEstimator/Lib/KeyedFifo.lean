import Mathlib.Data.List.DropRight
import Mathlib.Data.List.Nodup
import Mathlib.Logic.Function.Basic

/-!
# Bounded first-in first-out windows of logged keys

A window holds at most `n` distinct keys in the order they entered it, and for
each held key the records made under it since it last entered. Recording under
a held key extends its log; recording under any other key lets it enter at the
tail and, when the window is full, drops the key at the head with its log.
-/

/-- A window of at most `n` distinct keys. The log of a key is empty exactly
    when the key is not held. -/
structure KeyedFifo (κ ρ : Type*) (n : ℕ) where
  keys : List κ
  log : κ → List ρ
  nodup : keys.Nodup
  length_le : keys.length ≤ max n 1
  log_eq_nil_iff : ∀ k, log k = [] ↔ k ∉ keys

namespace KeyedFifo

variable {κ ρ : Type*} {n : ℕ}

/-- The window that holds nothing. -/
def empty : KeyedFifo κ ρ n where
  keys := []
  log := fun _ => []
  nodup := List.nodup_nil
  length_le := Nat.zero_le _
  log_eq_nil_iff := by simp

/-- The keys that stay when a new key enters. -/
def kept (w : KeyedFifo κ ρ n) : List κ :=
  if w.keys.length < n then w.keys else w.keys.tail

/-- The key that goes when a new key enters. -/
def dropped (w : KeyedFifo κ ρ n) : Option κ :=
  if w.keys.length < n then none else w.keys.head?

theorem kept_sublist (w : KeyedFifo κ ρ n) : w.kept.Sublist w.keys := by
  unfold kept
  split
  · exact List.Sublist.refl _
  · exact List.tail_sublist _

theorem kept_length_lt (w : KeyedFifo κ ρ n) : w.kept.length < max n 1 := by
  have := w.length_le
  unfold kept
  split
  · omega
  · rw [List.length_tail]; omega

/-- The keys held are the dropped key, if any, followed by the kept ones. -/
theorem keys_eq_dropped_append_kept (w : KeyedFifo κ ρ n) :
    w.keys = w.dropped.toList ++ w.kept := by
  unfold kept dropped
  split
  · rfl
  · cases w.keys <;> rfl

theorem mem_kept_iff (w : KeyedFifo κ ρ n) (x : κ) :
    x ∈ w.kept ↔ x ∈ w.keys ∧ w.dropped ≠ some x := by
  have hnd := w.nodup
  rw [keys_eq_dropped_append_kept w] at hnd ⊢
  rw [List.nodup_append] at hnd
  simp only [List.mem_append, Option.mem_toList]
  constructor
  · intro hx
    exact ⟨.inr hx, fun hd => hnd.2.2 x (by simp [hd]) x hx rfl⟩
  · rintro ⟨hx | hx, hd⟩
    · exact absurd hx hd
    · exact hx

theorem mem_keys_of_dropped {w : KeyedFifo κ ρ n} {d : κ} (h : w.dropped = some d) :
    d ∈ w.keys := by
  rw [keys_eq_dropped_append_kept w, h]
  simp

private theorem kept_eq_rtake {w : KeyedFifo κ ρ n} (hn : 0 < n) :
    w.kept = w.keys.rtake (n - 1) := by
  have hle := w.length_le
  unfold kept List.rtake
  split
  · next h => rw [show w.keys.length - (n - 1) = 0 by omega, List.drop_zero]
  · next h => rw [show w.keys.length - (n - 1) = 1 by omega, List.drop_one]

variable [DecidableEq κ]

/-- Record `r` under `k`. -/
def record (w : KeyedFifo κ ρ n) (k : κ) (r : ρ) : KeyedFifo κ ρ n :=
  if h : k ∈ w.keys then
    { keys := w.keys
      log := Function.update w.log k (w.log k ++ [r])
      nodup := w.nodup
      length_le := w.length_le
      log_eq_nil_iff := by
        intro x
        by_cases hx : x = k
        · subst hx; simp [h]
        · rw [Function.update_of_ne hx]; exact w.log_eq_nil_iff x }
  else
    { keys := w.kept ++ [k]
      log := Function.update (fun x => if w.dropped = some x then [] else w.log x) k [r]
      nodup := by
        rw [List.nodup_append]
        refine ⟨w.nodup.sublist w.kept_sublist, List.nodup_singleton k, ?_⟩
        intro x hx y hy
        rw [List.mem_singleton] at hy
        subst hy
        exact fun he => h (he ▸ w.kept_sublist.subset hx)
      length_le := by
        have := w.kept_length_lt
        simp only [List.length_append, List.length_singleton]
        omega
      log_eq_nil_iff := by
        intro x
        by_cases hx : x = k
        · subst hx; simp
        · rw [Function.update_of_ne hx]
          simp only [List.mem_append, List.mem_singleton, hx, or_false, mem_kept_iff]
          split
          · next hd => simp [hd]
          · next hd => simp [hd, w.log_eq_nil_iff x] }

theorem record_keys_of_mem {w : KeyedFifo κ ρ n} {k : κ} (h : k ∈ w.keys) (r : ρ) :
    (w.record k r).keys = w.keys := by
  simp [record, h]

theorem record_keys_of_notMem {w : KeyedFifo κ ρ n} {k : κ} (h : k ∉ w.keys) (r : ρ) :
    (w.record k r).keys = w.kept ++ [k] := by
  simp [record, h]

/-- The log of the key recorded under grows by the record, whether or not the
    key was held before. -/
theorem record_log_self (w : KeyedFifo κ ρ n) (k : κ) (r : ρ) :
    (w.record k r).log k = w.log k ++ [r] := by
  by_cases h : k ∈ w.keys
  · simp [record, h]
  · simp [record, h, (w.log_eq_nil_iff k).mpr h]

theorem record_log_of_ne {w : KeyedFifo κ ρ n} {k x : κ} (hx : x ≠ k) (r : ρ) :
    (w.record k r).log x = if k ∉ w.keys ∧ w.dropped = some x then [] else w.log x := by
  by_cases h : k ∈ w.keys
  · simp [record, h, Function.update_of_ne hx]
  · simp [record, h, Function.update_of_ne hx]

/-- A sequence of records made on a window. -/
def recordAll (w : KeyedFifo κ ρ n) (rs : List (κ × ρ)) : KeyedFifo κ ρ n :=
  rs.foldl (fun w e => w.record e.1 e.2) w

/-- A sequence of records made on the empty window of size `n`. -/
def run (n : ℕ) (rs : List (κ × ρ)) : KeyedFifo κ ρ n :=
  rs.foldl (fun w e => w.record e.1 e.2) empty

@[simp] theorem run_nil : run n ([] : List (κ × ρ)) = empty := rfl

@[simp] theorem run_concat (rs : List (κ × ρ)) (e : κ × ρ) :
    run n (rs ++ [e]) = (run n rs).record e.1 e.2 := by
  simp [run]

/-- The keys that entered the window, in order: one for each record made under
    a key that was not held at the time. -/
def admitted (n : ℕ) (rs : List (κ × ρ)) : List κ :=
  (rs.foldl (fun (acc : KeyedFifo κ ρ n × List κ) e =>
    (acc.1.record e.1 e.2, if e.1 ∈ acc.1.keys then acc.2 else acc.2 ++ [e.1])) (empty, [])).2

private theorem admitted_fold_fst (rs : List (κ × ρ)) :
    (rs.foldl (fun (acc : KeyedFifo κ ρ n × List κ) e =>
      (acc.1.record e.1 e.2, if e.1 ∈ acc.1.keys then acc.2 else acc.2 ++ [e.1])) (empty, [])).1
      = run n rs := by
  induction rs using List.reverseRecOn with
  | nil => rfl
  | append_singleton rs e ih => rw [List.foldl_concat, run_concat, ← ih]

theorem admitted_concat (rs : List (κ × ρ)) (e : κ × ρ) :
    admitted n (rs ++ [e]) =
      if e.1 ∈ (run n rs).keys then admitted n rs else admitted n rs ++ [e.1] := by
  rw [admitted, List.foldl_concat, admitted_fold_fst]
  rfl

/-- The keys held are the last ones that entered, as many as fit. -/
theorem run_keys_eq_rtake_admitted (hn : 0 < n) (rs : List (κ × ρ)) :
    (run n rs).keys = (admitted n rs).rtake n := by
  induction rs using List.reverseRecOn with
  | nil => simp [admitted, empty]
  | append_singleton rs e ih =>
    rw [run_concat, admitted_concat]
    split
    · next h => rw [record_keys_of_mem h, ih]
    · next h =>
      obtain ⟨m, rfl⟩ := Nat.exists_eq_succ_of_ne_zero (by omega : n ≠ 0)
      rw [record_keys_of_notMem h, kept_eq_rtake hn, List.rtake_concat_succ, ih]
      congr 1
      simp only [List.rtake, List.length_drop, List.drop_drop]
      congr 1
      omega

end KeyedFifo
