import Mathlib.Data.Finset.Card
import Mathlib.Order.Basic
import PriorityFeeEstimator.Lib.KeyedFifo

/-!
# What a bounded window remembers

A window of `n` keys forgets what it held before once `n` keys have entered that
it did not hold: until then its older keys lie, in their order, in front of the
keys that an empty window would hold after the same records. And when the keys
arrive in order, a key that is held has its whole log, from its first record on.
A key that stays keeps its log, and records under a key that is held, or for
which there is room, leave all other keys alone.
-/

namespace KeyedFifo

variable {κ ρ : Type*} {n : ℕ}

/-- Windows with the same keys and, under these, the same logs are the same. -/
theorem eq_of_keys_of_log {w w' : KeyedFifo κ ρ n} (hkeys : w.keys = w'.keys)
    (hlog : ∀ k ∈ w'.keys, w.log k = w'.log k) : w = w' := by
  have hall : w.log = w'.log := by
    funext k
    by_cases hk : k ∈ w'.keys
    · exact hlog k hk
    · rw [(w.log_eq_nil_iff k).mpr (hkeys ▸ hk), (w'.log_eq_nil_iff k).mpr hk]
  cases w
  cases w'
  obtain rfl := hkeys
  obtain rfl := hall
  rfl

/-- The window `w` holds the keys `old`, and then what `w'` holds. -/
structure Overlays (old : List κ) (w w' : KeyedFifo κ ρ n) : Prop where
  keys : w.keys = old ++ w'.keys
  log : ∀ k ∈ w'.keys, w.log k = w'.log k

namespace Overlays

variable {old : List κ} {w w' : KeyedFifo κ ρ n}

theorem eq_of_nil (h : Overlays [] w w') : w = w' := eq_of_keys_of_log h.keys h.log

/-- The window in front still has room for a key while an older one is held. -/
theorem length_lt (h : Overlays old w w') (hn : 0 < n) (hold : old ≠ []) :
    w'.keys.length < n := by
  have hle := w.length_le
  have hpos := List.length_pos_iff.mpr hold
  rw [h.keys, List.length_append] at hle
  omega

variable [DecidableEq κ]

/-- A record under a key that the newer window holds. -/
theorem record_of_mem (h : Overlays old w w') {k : κ} (hk : k ∈ w'.keys) (r : ρ) :
    Overlays old (w.record k r) (w'.record k r) := by
  have hkw : k ∈ w.keys := by rw [h.keys]; exact List.mem_append_right _ hk
  refine ⟨?_, fun x hx => ?_⟩
  · rw [record_keys_of_mem hkw, record_keys_of_mem hk, h.keys]
  · rw [record_keys_of_mem hk] at hx
    by_cases hxk : x = k
    · subst hxk
      rw [record_log_self, record_log_self, h.log x hx]
    · rw [record_log_of_ne hxk, record_log_of_ne hxk, if_neg fun hc => hc.1 hkw,
        if_neg fun hc => hc.1 hk, h.log x hx]

/-- A record under a new key: the oldest key goes first when there is no room. -/
theorem record_of_notMem (h : Overlays old w w') (hn : 0 < n) (hold : old ≠ []) {k : κ}
    (hk : k ∉ w.keys) (r : ρ) :
    ∃ old', old' <:+ old ∧ Overlays old' (w.record k r) (w'.record k r) := by
  have hk' : k ∉ w'.keys := fun hmem => hk (by rw [h.keys]; exact List.mem_append_right _ hmem)
  have hroom' : w'.keys.length < n := h.length_lt hn hold
  have hkeys' : (w'.record k r).keys = w'.keys ++ [k] := by
    rw [record_keys_of_notMem hk', kept, if_pos hroom']
  obtain ⟨o, old', rfl⟩ := List.exists_cons_of_ne_nil hold
  have hdisjoint := w.nodup
  rw [h.keys, List.nodup_append] at hdisjoint
  -- what is dropped is the oldest key, which the newer window does not hold
  have hdropped : ∀ x ∈ w'.keys, w.dropped ≠ some x := by
    intro x hx hd
    rw [dropped] at hd
    split at hd
    · cases hd
    · rw [h.keys, List.cons_append, List.head?_cons, Option.some.injEq] at hd
      exact hdisjoint.2.2 o List.mem_cons_self x hx hd
  have hlog : ∀ x ∈ (w'.record k r).keys, (w.record k r).log x = (w'.record k r).log x := by
    intro x hx
    by_cases hxk : x = k
    · subst hxk
      rw [record_log_self, record_log_self, (w.log_eq_nil_iff x).mpr hk,
        (w'.log_eq_nil_iff x).mpr hk']
    · rw [hkeys', List.mem_append, List.mem_singleton] at hx
      have hmem : x ∈ w'.keys := hx.resolve_right hxk
      have hstay : ¬(k ∉ w'.keys ∧ w'.dropped = some x) := by
        rintro ⟨-, hd⟩
        rw [dropped, if_pos hroom'] at hd
        cases hd
      rw [record_log_of_ne hxk, record_log_of_ne hxk, if_neg fun hc => hdropped x hmem hc.2,
        if_neg hstay, h.log x hmem]
  by_cases hroom : w.keys.length < n
  · refine ⟨o :: old', List.suffix_rfl, ?_, hlog⟩
    rw [record_keys_of_notMem hk, kept, if_pos hroom, hkeys', h.keys, List.append_assoc]
  · refine ⟨old', List.suffix_cons o old', ?_, hlog⟩
    rw [record_keys_of_notMem hk, kept, if_neg hroom, hkeys', h.keys, List.cons_append,
      List.tail_cons, List.append_assoc]

end Overlays

variable [DecidableEq κ]

@[simp] theorem recordAll_nil (w : KeyedFifo κ ρ n) : w.recordAll [] = w := rfl

@[simp] theorem recordAll_concat (w : KeyedFifo κ ρ n) (rs : List (κ × ρ)) (e : κ × ρ) :
    w.recordAll (rs ++ [e]) = (w.recordAll rs).record e.1 e.2 := List.foldl_concat ..

theorem recordAll_append (w : KeyedFifo κ ρ n) (rs rs' : List (κ × ρ)) :
    w.recordAll (rs ++ rs') = (w.recordAll rs).recordAll rs' := List.foldl_append ..

theorem recordAll_empty (rs : List (κ × ρ)) : (empty : KeyedFifo κ ρ n).recordAll rs = run n rs :=
  rfl

/-- While records are made under keys that were not held, some older keys lie in
    front of what the records alone would leave, and as long as there is one, no
    key of the records has been dropped. -/
theorem exists_overlays (hn : 0 < n) (w : KeyedFifo κ ρ n) {rs : List (κ × ρ)}
    (hfresh : ∀ e ∈ rs, e.1 ∉ w.keys) :
    ∃ old, old <:+ w.keys ∧ Overlays old (w.recordAll rs) (run n rs) ∧
      (old ≠ [] → ∀ e ∈ rs, e.1 ∈ (run n rs).keys) := by
  induction rs using List.reverseRecOn with
  | nil => exact ⟨w.keys, List.suffix_rfl, ⟨(List.append_nil _).symm, nofun⟩, fun _ => nofun⟩
  | append_singleton rs e ih =>
    obtain ⟨old, hsuffix, h, hheld⟩ := ih fun e he => hfresh e (List.mem_append_left _ he)
    rw [recordAll_concat, run_concat]
    by_cases hold : old = []
    · subst hold
      rw [h.eq_of_nil]
      exact ⟨[], List.nil_suffix, ⟨rfl, fun _ _ => rfl⟩, fun hne => absurd rfl hne⟩
    · have hnew : e.1 ∉ old := fun hmem =>
        hfresh e (List.mem_append_right _ (List.mem_singleton_self e)) (hsuffix.subset hmem)
      by_cases hk : e.1 ∈ (run n rs).keys
      · refine ⟨old, hsuffix, h.record_of_mem hk e.2, fun hne e' he' => ?_⟩
        rw [record_keys_of_mem hk]
        rcases List.mem_append.mp he' with he' | he'
        · exact hheld hne e' he'
        · exact List.mem_singleton.mp he' ▸ hk
      · have hkw : e.1 ∉ (w.recordAll rs).keys := by
          rw [h.keys, List.mem_append]
          exact fun hmem => hmem.elim hnew hk
        obtain ⟨old', hsuffix', h'⟩ := h.record_of_notMem hn hold hkw e.2
        refine ⟨old', hsuffix'.trans hsuffix, h', fun _ e' he' => ?_⟩
        rw [record_keys_of_notMem hk, kept, if_pos (h.length_lt hn hold)]
        rcases List.mem_append.mp he' with he' | he'
        · exact List.mem_append_left _ (hheld hold e' he')
        · exact List.mem_append_right _ (List.mem_singleton.mp he' ▸ List.mem_singleton_self _)

/-- A window forgets: after records under `n` keys that it did not hold, it is
    what these records make of the empty window. -/
theorem recordAll_eq_run_of_fresh (hn : 0 < n) {w : KeyedFifo κ ρ n} {rs : List (κ × ρ)}
    (hfresh : ∀ e ∈ rs, e.1 ∉ w.keys) (hmany : n ≤ (rs.map Prod.fst).toFinset.card) :
    w.recordAll rs = run n rs := by
  obtain ⟨old, -, h, hheld⟩ := exists_overlays hn w hfresh
  by_cases hold : old = []
  · subst hold
    exact h.eq_of_nil
  · have hsub : (rs.map Prod.fst).toFinset ⊆ (run n rs).keys.toFinset := by
      intro k hk
      rw [List.mem_toFinset, List.mem_map] at hk
      obtain ⟨e, he, rfl⟩ := hk
      exact List.mem_toFinset.mpr (hheld hold e he)
    have hcard := (Finset.card_le_card hsub).trans (List.toFinset_card_le _)
    have hlt := h.length_lt hn hold
    omega

/-- The key recorded under last is held. -/
theorem mem_record_keys_self (w : KeyedFifo κ ρ n) (k : κ) (r : ρ) : k ∈ (w.record k r).keys := by
  by_contra hk
  rw [← log_eq_nil_iff, record_log_self] at hk
  exact List.cons_ne_nil r [] (List.append_eq_nil_iff.mp hk).2

/-- One record later a key that is held still has the log it had, or a longer
    one. -/
theorem log_prefix_record {w : KeyedFifo κ ρ n} {k x : κ} {r : ρ}
    (hafter : (w.record k r).log x ≠ []) : w.log x <+: (w.record k r).log x := by
  by_cases hx : x = k
  · subst hx
    rw [record_log_self]
    exact List.prefix_append _ _
  · rw [record_log_of_ne hx] at hafter ⊢
    split at hafter
    · exact absurd rfl hafter
    · next hstay => rw [if_neg hstay]

theorem run_take_succ {rs : List (κ × ρ)} {j : ℕ} {e : κ × ρ} (he : rs[j]? = some e) :
    run n (rs.take (j + 1)) = (run n (rs.take j)).record e.1 e.2 := by
  rw [List.take_add_one, he, Option.toList_some, run_concat]

theorem run_take_succ_of_none {rs : List (κ × ρ)} {j : ℕ} (he : rs[j]? = none) :
    run n (rs.take (j + 1)) = run n (rs.take j) := by
  rw [List.take_add_one, he, Option.toList_none, List.append_nil]

/-- The log of a key that stays in the window grows at its end. -/
theorem log_prefix_of_held {rs : List (κ × ρ)} {x : κ} {i j : ℕ} (hij : i ≤ j)
    (h : ∀ m, i ≤ m → m ≤ j → (run n (rs.take m)).log x ≠ []) :
    (run n (rs.take i)).log x <+: (run n (rs.take j)).log x := by
  induction j, hij using Nat.le_induction with
  | base => exact List.prefix_rfl
  | succ j hij ih =>
    have hbefore := ih fun m him hmj => h m him (Nat.le_succ_of_le hmj)
    have hafter := h (j + 1) (Nat.le_succ_of_le hij) le_rfl
    cases he : rs[j]? with
    | none => rwa [run_take_succ_of_none he]
    | some e =>
      rw [run_take_succ he] at hafter ⊢
      exact hbefore.trans (log_prefix_record hafter)

/-- A key that is held, or that finds room, sends no other key away. -/
theorem record_log_of_room {w : KeyedFifo κ ρ n} {k : κ}
    (hroom : k ∈ w.keys ∨ w.keys.length < n) {x : κ} (hx : x ≠ k) (r : ρ) :
    (w.record k r).log x = w.log x := by
  rw [record_log_of_ne hx]
  refine if_neg ?_
  rintro ⟨hnew, hdrop⟩
  rw [dropped, if_pos (hroom.resolve_left hnew)] at hdrop
  cases hdrop

/-- Records under one key only, which is held already or finds room: whichever of
    them are made, the other keys and their logs are as they were, and the key is
    held from the first one on. -/
theorem run_take_of_room {rs : List (κ × ρ)} {k : κ} {i j : ℕ} (hij : i ≤ j)
    (hroom : k ∈ (run n (rs.take i)).keys ∨ (run n (rs.take i)).keys.length < n)
    (honly : ∀ m e, i ≤ m → m < j → rs[m]? = some e → e.1 = k) :
    (∀ x ≠ k, (run n (rs.take j)).log x = (run n (rs.take i)).log x) ∧
      (k ∈ (run n (rs.take j)).keys ∨ run n (rs.take j) = run n (rs.take i)) := by
  induction j, hij using Nat.le_induction with
  | base => exact ⟨fun _ _ => rfl, .inr rfl⟩
  | succ j hij ih =>
    obtain ⟨hothers, hself⟩ := ih fun m e him hmj => honly m e him (Nat.lt_succ_of_lt hmj)
    cases he : rs[j]? with
    | none =>
      rw [run_take_succ_of_none he]
      exact ⟨hothers, hself⟩
    | some e =>
      obtain rfl := honly j e hij (Nat.lt_succ_self j) he
      rw [run_take_succ he]
      have hroom' : e.1 ∈ (run n (rs.take j)).keys ∨ (run n (rs.take j)).keys.length < n := by
        rcases hself with hheld | hsame
        · exact .inl hheld
        · rwa [hsame]
      refine ⟨fun x hx => ?_, .inl (mem_record_keys_self _ _ _)⟩
      rw [record_log_of_room hroom' hx, hothers x hx]

/-- All records made under a key. -/
def recorded (rs : List (κ × ρ)) (k : κ) : List ρ :=
  (rs.filter fun e => e.1 = k).map Prod.snd

theorem recorded_concat (rs : List (κ × ρ)) (e : κ × ρ) (k : κ) :
    recorded (rs ++ [e]) k = recorded rs k ++ if e.1 = k then [e.2] else [] := by
  rw [recorded, List.filter_append, List.map_append, List.filter_singleton]
  by_cases h : e.1 = k <;> simp [recorded, h]

/-- The same keys in the same order, and under each key the same records, however
    often and in whatever order. -/
structure SameRecords (w w' : KeyedFifo κ ρ n) : Prop where
  keys : w.keys = w'.keys
  mem_log : ∀ k r, r ∈ w.log k ↔ r ∈ w'.log k

namespace SameRecords

variable {w w' : KeyedFifo κ ρ n}

/-- The same record in both. -/
theorem record (h : SameRecords w w') (k : κ) (r : ρ) :
    SameRecords (w.record k r) (w'.record k r) := by
  refine ⟨?_, fun x r' => ?_⟩
  · by_cases hk : k ∈ w.keys
    · rw [record_keys_of_mem hk, record_keys_of_mem (h.keys ▸ hk), h.keys]
    · rw [record_keys_of_notMem hk, record_keys_of_notMem (h.keys ▸ hk), kept, kept, h.keys]
  · by_cases hx : x = k
    · rw [hx, record_log_self, record_log_self, List.mem_append, List.mem_append, h.mem_log]
    · have hdropped : w.dropped = w'.dropped := by rw [dropped, dropped, h.keys]
      rw [record_log_of_ne hx, record_log_of_ne hx, h.keys, hdropped]
      split
      · exact Iff.rfl
      · exact h.mem_log x r'

/-- A record made again while its key still holds it. -/
theorem record_again (h : SameRecords w w') {k : κ} {r : ρ} (hr : r ∈ w'.log k) :
    SameRecords w (w'.record k r) := by
  have hk : k ∈ w'.keys := by
    by_contra hk
    rw [(w'.log_eq_nil_iff k).mpr hk] at hr
    exact List.not_mem_nil hr
  refine ⟨by rw [record_keys_of_mem hk, h.keys], fun x r' => ?_⟩
  by_cases hx : x = k
  · rw [hx, record_log_self, List.mem_append, List.mem_singleton, h.mem_log]
    exact ⟨.inl, fun hr' => hr'.elim id fun he => he ▸ hr⟩
  · rw [record_log_of_room (.inl hk) hx, h.mem_log]

end SameRecords

/-- The second history is the first with some records made again, each while its
    key still held it. -/
inductive Repeats (n : ℕ) : List (κ × ρ) → List (κ × ρ) → Prop
  | nil : Repeats n [] []
  | record {rs rs' : List (κ × ρ)} (h : Repeats n rs rs') (e : κ × ρ) :
    Repeats n (rs ++ [e]) (rs' ++ [e])
  | again {rs rs' : List (κ × ρ)} (h : Repeats n rs rs') {e : κ × ρ}
    (he : e.2 ∈ (run n rs').log e.1) : Repeats n rs (rs' ++ [e])

/-- Records made again do not change what is held, then or later. -/
theorem Repeats.sameRecords {rs rs' : List (κ × ρ)} (h : Repeats n rs rs') :
    SameRecords (run n rs) (run n rs') := by
  induction h with
  | nil => exact ⟨rfl, fun _ _ => Iff.rfl⟩
  | record _ e ih =>
    rw [run_concat, run_concat]
    exact ih.record e.1 e.2
  | again _ he ih =>
    rw [run_concat]
    exact ih.record_again he

variable [PartialOrder κ]

/-- When keys arrive in order, a key that comes next and is not held has not come
    before: all keys after it would be the same, and the last one is held. -/
theorem recorded_eq_nil_of_notMem {rs : List (κ × ρ)} {k : κ}
    (hle : ∀ e ∈ rs, e.1 ≤ k) (h : (rs.map Prod.fst).Pairwise (· ≤ ·))
    (hk : k ∉ (run n rs).keys) : recorded rs k = [] := by
  cases rs using List.reverseRecOn with
  | nil => rfl
  | append_singleton rs last =>
    rw [List.map_append, List.pairwise_append] at h
    have hlast : last.1 ∈ (run n (rs ++ [last])).keys := by
      rw [run_concat]
      exact mem_record_keys_self _ _ _
    have hne : ∀ e ∈ rs ++ [last], e.1 ≠ k := by
      rintro e he rfl
      have hup : last.1 ≤ e.1 := hle last (by simp)
      rcases List.mem_append.mp he with he | he
      · have hdown : e.1 ≤ last.1 := h.2.2 e.1 (List.mem_map_of_mem he) last.1 (by simp)
        exact hk (le_antisymm hdown hup ▸ hlast)
      · exact hk (List.mem_singleton.mp he ▸ hlast)
    rw [recorded, List.map_eq_nil_iff, List.filter_eq_nil_iff]
    intro e he
    simpa using hne e he

/-- A key that is held after the keys arrived in order has its whole log. -/
theorem run_log_of_sorted {rs : List (κ × ρ)} (h : (rs.map Prod.fst).Pairwise (· ≤ ·)) {k : κ}
    (hk : k ∈ (run n rs).keys) : (run n rs).log k = recorded rs k := by
  induction rs using List.reverseRecOn with
  | nil => cases hk
  | append_singleton rs e ih =>
    rw [List.map_append, List.pairwise_append] at h
    have hle : ∀ e' ∈ rs, e'.1 ≤ e.1 := fun e' he' =>
      h.2.2 e'.1 (List.mem_map_of_mem he') e.1 (by simp)
    rw [run_concat] at hk ⊢
    rw [recorded_concat]
    by_cases hke : k = e.1
    · subst hke
      rw [record_log_self, if_pos rfl]
      congr 1
      by_cases hmem : e.1 ∈ (run n rs).keys
      · exact ih h.1 hmem
      · rw [(log_eq_nil_iff _ _).mpr hmem, recorded_eq_nil_of_notMem hle h.1 hmem]
    · have hstay : k ∈ (run n rs).keys ∧ ¬(e.1 ∉ (run n rs).keys ∧
          (run n rs).dropped = some k) := by
        by_cases hmem : e.1 ∈ (run n rs).keys
        · rw [record_keys_of_mem hmem] at hk
          exact ⟨hk, fun hc => hc.1 hmem⟩
        · rw [record_keys_of_notMem hmem, List.mem_append, List.mem_singleton] at hk
          obtain ⟨hold, hd⟩ := (mem_kept_iff _ _).mp (hk.resolve_right hke)
          exact ⟨hold, fun hc => hd hc.2⟩
      rw [record_log_of_ne hke, if_neg hstay.2, if_neg (Ne.symm hke), List.append_nil]
      exact ih h.1 hstay.1

end KeyedFifo
