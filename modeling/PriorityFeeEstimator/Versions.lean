import Mathlib
import PriorityFeeEstimator.Agreement

/-!
# The breakdown by version

Beside its Global lists a slot keeps fee lists by transaction version. In a
reachable store the lists of the versions partition the Global lists, so the
samples `calculate_version_priority_fee` is taken of partition the Global sample
of a request over the whole store. The calculations themselves never read the
lists of versions: two histories that differ in version tags only give the same
samples.
-/

namespace PriorityFeeEstimator

open SlotPriorityFees

/-- The fee lists a slot keeps for a version, empty when it has none. -/
def SlotPriorityFees.ofVersion (s : SlotPriorityFees) (v : TransactionVersion) : Fees :=
  (s.versionFees.lookup v).getD .none

-- ════════════════════════════════════════════════════════════════════════
-- One slot
-- ════════════════════════════════════════════════════════════════════════

/-- Every transaction has exactly one version. -/
theorem coe_eq_sum_versions (l : List Txn) :
    (l : Multiset Txn) =
      (TransactionVersion.all.map fun v => (↑(l.filter fun t => t.version = v) : Multiset Txn)).sum
      := by
  simp only [TransactionVersion.all, List.map_cons, List.map_nil, List.sum_cons, List.sum_nil,
    add_zero]
  induction l with
  | nil => rfl
  | cons t l ih =>
    rw [← Multiset.cons_coe, ih]
    cases hv : t.version with
    | legacyV0 => simp [hv]
    | v1 => simpa [hv] using List.perm_middle.symm

namespace SlotPriorityFees.Logged

variable {s : SlotPriorityFees} {slot : Slot} {l : List Txn}

theorem ofVersion_eq (h : s.Logged slot l) (v : TransactionVersion) :
    s.ofVersion v = Fees.ofTxns (l.filter fun t => t.version = v) := by
  rw [SlotPriorityFees.ofVersion, h.lookup_version, Fees.recorded_getD]

/-- The non-vote fees of the versions partition the non-vote fees of the slot. -/
theorem coe_nonVoteFees (h : s.Logged slot l) :
    (s.fees.nonVoteFees : Multiset ℚ) =
      (TransactionVersion.all.map fun v => ((s.ofVersion v).nonVoteFees : Multiset ℚ)).sum := by
  have hl := congrArg (Multiset.map Txn.fee)
    (coe_eq_sum_versions (l.filter fun t => !t.isVote))
  simp only [h.fees_eq, h.ofVersion_eq, Fees.ofTxns]
  simpa [TransactionVersion.all, List.filter_filter, Bool.and_comm] using hl

/-- The vote fees of the versions partition the vote fees of the slot. -/
theorem coe_voteFees (h : s.Logged slot l) :
    (s.fees.voteFees : Multiset ℚ) =
      (TransactionVersion.all.map fun v => ((s.ofVersion v).voteFees : Multiset ℚ)).sum := by
  have hl := congrArg (Multiset.map Txn.fee)
    (coe_eq_sum_versions (l.filter fun t => t.isVote))
  simp only [h.fees_eq, h.ofVersion_eq, Fees.ofTxns]
  simpa [TransactionVersion.all, List.filter_filter, Bool.and_comm] using hl

end SlotPriorityFees.Logged

-- ════════════════════════════════════════════════════════════════════════
-- The samples of the versions
-- ════════════════════════════════════════════════════════════════════════

/-- The sample `calculate_version_priority_fee` collects: the non-vote fees of
    the version in every slot of the store. -/
def versionSample (o : IterOrder SlotPriorityFees) (m : PriorityFeesBySlot)
    (v : TransactionVersion) : List ℚ :=
  (o.visit (m.entries.map fun e => e.2)).flatMap fun s => (s.ofVersion v).nonVoteFees

theorem calculateVersionPriorityFee_eq (S : Statrs) (o : IterOrder SlotPriorityFees)
    (m : PriorityFeesBySlot) (v : TransactionVersion) :
    calculateVersionPriorityFee S o m v =
      if versionSample o m v = [] then none
      else some ((estimateMaxValues S (versionSample o m v) .zero).1,
        (versionSample o m v).length) := by
  have hfold : ∀ (vs : List SlotPriorityFees) (acc : List ℚ),
      vs.foldl (visitVersion v) acc =
        acc ++ vs.flatMap fun s => (s.ofVersion v).nonVoteFees := by
    intro vs
    induction vs with
    | nil => simp
    | cons s vs ih =>
      intro acc
      rw [List.foldl_cons, ih, List.flatMap_cons, ← List.append_assoc]
      congr 1
      rw [visitVersion, SlotPriorityFees.ofVersion]
      cases s.versionFees.lookup v <;> simp [Fees.none]
  rw [calculateVersionPriorityFee, hfold, List.nil_append, ← versionSample]
  simp only [List.length_eq_zero_iff]

/-- A request without lookback visits every value of the store. -/
theorem lookbackValues_none_perm {m : PriorityFeesBySlot} (h : WellKeyed m) (o : IterOrder Slot) :
    (lookbackValues o none m).Perm (m.entries.map fun e => e.2) := by
  have hall : lookbackSlots o none m = descending (slotsVec o m) := by
    rw [lookbackSlots, cutSlots, List.take_of_length_le]
    exact (descending_perm _).length_eq.trans_le (by simp [calculateLookbackSize])
  have hfound : m.keys.filterMap m.lookup = m.entries.map fun e => e.2 := by
    rw [AList.keys, List.keys, List.filterMap_map, ← List.filterMap_eq_map]
    refine List.filterMap_congr fun e he => ?_
    exact Table.mem_entries_iff.mp he
  rw [lookbackValues, hall, ← hfound]
  exact ((descending_perm _).trans (slotsVec_perm h o)).filterMap _

/-- The samples of the versions partition the Global sample of a request over
    the whole store. -/
theorem coe_sample_global_eq_sum_versions {m : PriorityFeesBySlot} (h : Stored m)
    (o : IterOrder Slot) (ov : IterOrder SlotPriorityFees) (isV1 : Bool) (accounts : List Pubkey)
    (includeEmptySlots : Bool) :
    ((((Calculations.ofVersion isV1 accounts false includeEmptySlots none).getPriorityFeeEstimates
        o m).sample .global : List ℚ) : Multiset ℚ) =
      (TransactionVersion.all.map fun v => (versionSample ov m v : Multiset ℚ)).sum := by
  have hperm : (lookbackValues o none m).Perm (ov.visit (m.entries.map fun e => e.2)) :=
    (lookbackValues_none_perm h.wellKeyed o).trans (ov.perm _).symm
  rw [sample_global_ofVersion, Multiset.coe_eq_coe.mpr (hperm.flatMap_right _)]
  refine coe_flatMap_eq_sum _ _ fun s hs => ?_
  rw [ov.mem_visit, List.mem_map] at hs
  obtain ⟨e, he, rfl⟩ := hs
  obtain ⟨l, hl⟩ := h e.1 e.2 (Table.mem_entries_iff.mp he)
  exact (logged_of_ofLog hl).coe_nonVoteFees

theorem mem_sample_global_iff {m : PriorityFeesBySlot} (h : Stored m)
    (o : IterOrder Slot) (ov : IterOrder SlotPriorityFees) (isV1 : Bool) (accounts : List Pubkey)
    (includeEmptySlots : Bool) (q : ℚ) :
    q ∈ ((Calculations.ofVersion isV1 accounts false includeEmptySlots
        none).getPriorityFeeEstimates o m).sample .global ↔ ∃ v, q ∈ versionSample ov m v := by
  rw [← Multiset.mem_coe, coe_sample_global_eq_sum_versions h o ov]
  simp only [TransactionVersion.all, List.map_cons, List.map_nil, List.sum_cons, List.sum_nil,
    add_zero, Multiset.mem_add, Multiset.mem_coe]
  constructor
  · rintro (hq | hq)
    · exact ⟨.legacyV0, hq⟩
    · exact ⟨.v1, hq⟩
  · rintro ⟨v, hq⟩
    cases v with
    | legacyV0 => exact .inl hq
    | v1 => exact .inr hq

/-- The lowest and the highest level of one sample of stored fees are its least
    and its greatest value. -/
theorem estimateMaxValues_extremes {S : Statrs} (hS : S.DependsOnMultiset)
    (hmax : S.MaxAtHundred) (hmin : S.MinAtZero) {l : List ℚ} (hne : l ≠ [])
    (hround : ∀ q ∈ l, 0 ≤ q ∧ roundHalfAway q = q) :
    (∃ q, IsGreatest {x | x ∈ l} q ∧ (estimateMaxValues S l .zero).1.unsafeMax = (q : ℚ)) ∧
      ∃ q, IsLeast {x | x ∈ l} q ∧ (estimateMaxValues S l .zero).1.min = (q : ℚ) := by
  have hlevel : ∀ p, ∀ q ∈ l, sampleLevel S l p = (q : ℚ) →
      (estimateMaxValues S l .zero).1.level p = (q : ℚ) := by
    intro p q hq hp
    rw [estimateMaxValues_level hS, hp, MicroLamportPriorityFeeEstimates.zero_level]
    exact max_eq_left (WithBot.coe_le_coe.mpr (hround q hq).1)
  constructor
  · obtain ⟨hl, hmem⟩ := sampleLevel_unsafeMax hmax hne fun q hq => (hround q hq).2
    refine ⟨largest l, ⟨hmem, fun x hx => ?_⟩, hlevel .unsafeMax _ hmem hl⟩
    exact le_largest hx
  · obtain ⟨q, hq, hp, hle⟩ := hmin l hne
    refine ⟨q, ⟨hq, fun x hx => hle x hx⟩, hlevel .min q hq ?_⟩
    rw [sampleLevel, show PriorityLevel.min.percentile = 0 from rfl, hp, F64.round_coe,
      (hround q hq).2]

section Results

variable {S : Statrs} {m : PriorityFeesBySlot}

/-- The sizes of the samples of the versions add up to the size of the Global
    sample. -/
theorem sum_counts (h : Stored m) (o : IterOrder Slot) (ov : IterOrder SlotPriorityFees)
    (isV1 : Bool) (accounts : List Pubkey) (includeEmptySlots : Bool) :
    ((TransactionVersion.all.map (calculateVersionPriorityFee S ov m)).map
        fun r => (r.map Prod.snd).getD 0).sum =
      (((Calculations.ofVersion isV1 accounts false includeEmptySlots
        none).getPriorityFeeEstimates o m).sample .global).length := by
  have hcount : ∀ v, ((calculateVersionPriorityFee S ov m v).map Prod.snd).getD 0 =
      (versionSample ov m v).length := by
    intro v
    rw [calculateVersionPriorityFee_eq]
    split
    · next he => rw [he]; rfl
    · rfl
  have hcard := congrArg Multiset.card
    (coe_sample_global_eq_sum_versions h o ov isV1 accounts includeEmptySlots)
  rw [Multiset.coe_card] at hcard
  rw [hcard, List.map_map]
  simp [TransactionVersion.all, hcount]

/-- The extreme values of the Global sample are the extreme levels of the
    versions. -/
theorem extremes_of_versions (hS : S.DependsOnMultiset) (hmax : S.MaxAtHundred)
    (hmin : S.MinAtZero) (h : Stored m) (o : IterOrder Slot) (ov : IterOrder SlotPriorityFees)
    (isV1 : Bool) (accounts : List Pubkey) (includeEmptySlots : Bool) :
    let global := ((Calculations.ofVersion isV1 accounts false includeEmptySlots
      none).getPriorityFeeEstimates o m).sample .global
    let results := TransactionVersion.all.map (calculateVersionPriorityFee S ov m)
    global ≠ [] → ∃ least greatest : ℚ,
      IsLeast {x | x ∈ global} least ∧ IsGreatest {x | x ∈ global} greatest ∧
      IsLeast {x | ∃ r, some r ∈ results ∧ r.1.min = x} (least : F64) ∧
      IsGreatest {x | ∃ r, some r ∈ results ∧ r.1.unsafeMax = x} (greatest : F64) := by
  intro global results hne
  have hmem : ∀ q, q ∈ global ↔ ∃ v, q ∈ versionSample ov m v :=
    mem_sample_global_iff h o ov isV1 accounts includeEmptySlots
  have hprop : ∀ q ∈ global, 0 ≤ q ∧ roundHalfAway q = q := by
    intro q hq
    have hq' := hq
    rw [show global = _ from sample_global_ofVersion o isV1 accounts false includeEmptySlots none m]
      at hq'
    exact nonneg_and_round_of_mem_global h hq'
  obtain ⟨⟨greatest, hgreatest, -⟩, least, hleast, -⟩ :=
    estimateMaxValues_extremes hS hmax hmin hne hprop
  -- what a version reports are the extreme values of its own sample
  have hversion : ∀ r, some r ∈ results → ∃ v,
      (∃ q, IsGreatest {x | x ∈ versionSample ov m v} q ∧ r.1.unsafeMax = (q : ℚ)) ∧
        ∃ q, IsLeast {x | x ∈ versionSample ov m v} q ∧ r.1.min = (q : ℚ) := by
    intro r hr
    obtain ⟨v, -, hv⟩ := List.mem_map.mp hr
    rw [calculateVersionPriorityFee_eq] at hv
    split at hv
    · cases hv
    · next hv' =>
      obtain rfl := Option.some.inj hv
      exact ⟨v, estimateMaxValues_extremes hS hmax hmin hv' fun q hq =>
        hprop q ((hmem q).mpr ⟨v, hq⟩)⟩
  -- and every value is in the sample of a version that reports some
  have hreport : ∀ q ∈ global, ∃ v r, q ∈ versionSample ov m v ∧ some r ∈ results ∧
      r.1 = (estimateMaxValues S (versionSample ov m v) .zero).1 := by
    intro q hq
    obtain ⟨v, hv⟩ := (hmem q).mp hq
    refine ⟨v, ((estimateMaxValues S (versionSample ov m v) .zero).1,
      (versionSample ov m v).length), hv, List.mem_map.mpr ⟨v, ?_, ?_⟩, rfl⟩
    · cases v <;> simp [TransactionVersion.all]
    · rw [calculateVersionPriorityFee_eq, if_neg (List.ne_nil_of_mem hv)]
  refine ⟨least, greatest, hleast, hgreatest, ⟨?_, ?_⟩, ⟨?_, ?_⟩⟩
  · obtain ⟨v, r, hv, hr, he⟩ := hreport least hleast.1
    obtain ⟨-, q, hq, hlevel⟩ := estimateMaxValues_extremes hS hmax hmin (List.ne_nil_of_mem hv)
      fun q hq => hprop q ((hmem q).mpr ⟨v, hq⟩)
    have heq : q = least := le_antisymm (hq.2 hv) (hleast.2 ((hmem q).mpr ⟨v, hq.1⟩))
    exact ⟨r, hr, by rw [he, hlevel, heq]⟩
  · rintro x ⟨r, hr, rfl⟩
    obtain ⟨v, -, q, hq, hlevel⟩ := hversion r hr
    rw [hlevel]
    exact WithBot.coe_le_coe.mpr (hleast.2 ((hmem q).mpr ⟨v, hq.1⟩))
  · obtain ⟨v, r, hv, hr, he⟩ := hreport greatest hgreatest.1
    obtain ⟨⟨q, hq, hlevel⟩, -⟩ := estimateMaxValues_extremes hS hmax hmin
      (List.ne_nil_of_mem hv) fun q hq => hprop q ((hmem q).mpr ⟨v, hq⟩)
    have heq : q = greatest := le_antisymm (hgreatest.2 ((hmem q).mpr ⟨v, hq.1⟩)) (hq.2 hv)
    exact ⟨r, hr, by rw [he, hlevel, heq]⟩
  · rintro x ⟨r, hr, rfl⟩
    obtain ⟨v, ⟨q, hq, hlevel⟩, -⟩ := hversion r hr
    rw [hlevel]
    exact WithBot.coe_le_coe.mpr (hgreatest.2 ((hmem q).mpr ⟨v, hq.1⟩))

end Results

-- ════════════════════════════════════════════════════════════════════════
-- Histories that differ in version tags
-- ════════════════════════════════════════════════════════════════════════

/-- A slot without its lists of versions. -/
def SlotPriorityFees.withoutVersions (s : SlotPriorityFees) : SlotPriorityFees :=
  { s with versionFees := ∅ }

/-- A push with its version tag replaced. -/
def retag (v : TransactionVersion) (p : Slot × Txn) : Slot × Txn :=
  (p.1, { p.2 with version := v })

/-- Two trackers that differ in lists of versions only. -/
structure SameButVersions (t t' : PriorityFeeTracker) : Prop where
  cache : t.slotCache = t'.slotCache
  store : ∀ s, (t.priorityFees.lookup s).map withoutVersions =
    (t'.priorityFees.lookup s).map withoutVersions

namespace SameButVersions

variable {t t' : PriorityFeeTracker}

theorem refl (t : PriorityFeeTracker) : SameButVersions t t := ⟨rfl, fun _ => rfl⟩

/-- Recording a transaction in a slot reads no list of versions but its own. -/
theorem withoutVersions_extend {o o' : Option SlotPriorityFees}
    (h : o.map withoutVersions = o'.map withoutVersions) (s : Slot) (x : Txn)
    (v : TransactionVersion) :
    (extend s x o).withoutVersions = (extend s { x with version := v } o').withoutVersions := by
  cases o with
  | none =>
    cases o' with
    | none => rfl
    | some a' => cases h
  | some a =>
    cases o' with
    | none => cases h
    | some a' =>
      have ha : a.withoutVersions = a'.withoutVersions := by simpa using h
      have hslot : a.slot = a'.slot := (congrArg SlotPriorityFees.slot ha :)
      have hfees : a.fees = a'.fees := (congrArg SlotPriorityFees.fees ha :)
      have haccounts : a.accountFees = a'.accountFees := (congrArg SlotPriorityFees.accountFees ha :)
      simp only [extend, updateTxn, withoutVersions, SlotPriorityFees.update, addVersionFee, hslot,
        hfees, haccounts]

theorem push (h : SameButVersions t t') (p : Slot × Txn) (v : TransactionVersion) :
    SameButVersions (t.push p) (t'.push (retag v p)) where
  cache := by
    rw [PriorityFeeTracker.push_slotCache, PriorityFeeTracker.push_slotCache, h.cache]
    rfl
  store := by
    intro s
    rw [PriorityFeeTracker.lookup_push, PriorityFeeTracker.lookup_push, h.cache]
    change _ = Option.map withoutVersions
      (if (t'.slotCache.pushPop p.1).1 = some s then none
        else if s = p.1 then
          some (extend p.1 { p.2 with version := v } (t'.priorityFees.lookup p.1))
        else t'.priorityFees.lookup s)
    split
    · rfl
    · split
      · exact congrArg some (withoutVersions_extend (h.store p.1) p.1 p.2 v)
      · exact h.store s

/-- A whole history, tag by tag. -/
theorem pushAll (h : SameButVersions t t') (ps : List (Slot × Txn))
    (vs : List TransactionVersion) (hlen : vs.length = ps.length) :
    SameButVersions (t.pushAll ps) (t'.pushAll (List.zipWith retag vs ps)) := by
  induction ps generalizing t t' vs with
  | nil => simpa using h
  | cons p ps ih =>
    cases vs with
    | nil => cases hlen
    | cons v vs =>
      rw [List.zipWith_cons_cons, PriorityFeeTracker.pushAll_cons, PriorityFeeTracker.pushAll_cons]
      exact ih (h.push p v) vs (Nat.succ.inj hlen)

/-- No calculation reads a list of versions. -/
theorem getPriorityFeeEstimates_eq (h : SameButVersions t t') (o o' : IterOrder Slot)
    (c : Calculations) :
    c.getPriorityFeeEstimates o t.priorityFees = c.getPriorityFeeEstimates o' t'.priorityFees := by
  have hslots : ∀ s, (t.priorityFees.lookup s).map SlotPriorityFees.slot =
      (t'.priorityFees.lookup s).map SlotPriorityFees.slot := by
    intro s
    have hs := congrArg (Option.map SlotPriorityFees.slot) (h.store s)
    rwa [Option.map_map, Option.map_map] at hs
  have hvisit : ∀ acc s, c.sampler.visitEntry acc (t.priorityFees.lookup s) =
      c.sampler.visitEntry acc (t'.priorityFees.lookup s) := by
    have hstrip : ∀ acc o, c.sampler.visitEntry acc o =
        c.sampler.visitEntry acc (o.map withoutVersions) := by
      intro acc o
      cases o with
      | none => rfl
      | some s => cases c <;> rfl
    intro acc s
    rw [hstrip, h.store s, ← hstrip]
  rw [Calculations.getPriorityFeeEstimates_eq, Calculations.getPriorityFeeEstimates_eq,
    Sampler.estimates, Sampler.estimates,
    (lookbackSlots_congr hslots _ : lookbackSlots o _ t.priorityFees = lookbackSlots o' _ _)]
  simp only [hvisit]

end SameButVersions

/-- In every reachable store the lists of the versions partition the Global
    lists of each slot, and the samples of the versions the Global sample of a
    request over the whole store: their sizes add up, and the extreme levels are
    the extreme values. Changing version tags in the history changes no sample
    of a calculation, and no level. -/
theorem versions_partition {S : Statrs} (hS : S.DependsOnMultiset) (hmax : S.MaxAtHundred)
    (hmin : S.MinAtZero) (n : ℕ) (ps : List (Slot × Txn)) :
    let m := (PriorityFeeTracker.run n ps).priorityFees
    (∀ s v, m.lookup s = some v →
      (v.fees.nonVoteFees : Multiset ℚ) = (TransactionVersion.all.map fun version =>
        ((v.ofVersion version).nonVoteFees : Multiset ℚ)).sum ∧
      (v.fees.voteFees : Multiset ℚ) = (TransactionVersion.all.map fun version =>
        ((v.ofVersion version).voteFees : Multiset ℚ)).sum) ∧
    (∀ (o : IterOrder Slot) (ov : IterOrder SlotPriorityFees) (isV1 : Bool)
        (accounts : List Pubkey) (includeEmptySlots : Bool),
      let global := ((Calculations.ofVersion isV1 accounts false includeEmptySlots
        none).getPriorityFeeEstimates o m).sample .global
      let results := TransactionVersion.all.map (calculateVersionPriorityFee S ov m)
      (results.map fun r => (r.map Prod.snd).getD 0).sum = global.length ∧
      (global ≠ [] → ∃ least greatest : ℚ,
        IsLeast {x | x ∈ global} least ∧ IsGreatest {x | x ∈ global} greatest ∧
        IsLeast {x | ∃ r, some r ∈ results ∧ r.1.min = x} (least : F64) ∧
        IsGreatest {x | ∃ r, some r ∈ results ∧ r.1.unsafeMax = x} (greatest : F64))) ∧
    ∀ vs : List TransactionVersion, vs.length = ps.length →
      let m' := (PriorityFeeTracker.run n (List.zipWith retag vs ps)).priorityFees
      ∀ (o o' : IterOrder Slot) (g g' : IterOrder Group) (c : Calculations),
        c.getPriorityFeeEstimates o m = c.getPriorityFeeEstimates o' m' ∧
        calculatePriorityFee S o g c m = calculatePriorityFee S o' g' c m' := by
  intro m
  have hstored : Stored m := stored_run n ps
  refine ⟨fun s v hv => ?_, fun o ov isV1 accounts includeEmptySlots => ?_, fun vs hlen => ?_⟩
  · obtain ⟨l, hl⟩ := hstored s v hv
    exact ⟨(logged_of_ofLog hl).coe_nonVoteFees, (logged_of_ofLog hl).coe_voteFees⟩
  · intro global results
    exact ⟨sum_counts hstored o ov isV1 accounts includeEmptySlots,
      extremes_of_versions hS hmax hmin hstored o ov isV1 accounts includeEmptySlots⟩
  · intro m' o o' g g' c
    have heq : c.getPriorityFeeEstimates o m = c.getPriorityFeeEstimates o' m' :=
      ((SameButVersions.refl (.new n)).pushAll ps vs hlen).getPriorityFeeEstimates_eq o o' c
    refine ⟨heq, estimates_eq_of_level_le_iff fun p x => ?_⟩
    rw [calculatePriorityFee_level_le_iff hS, calculatePriorityFee_level_le_iff hS, heq]

/-- Two versions in one slot, beside a vote that neither sample counts. -/
theorem versions_partition_two :
    let m := (PriorityFeeTracker.run 1 [(5, ⟨[], 100, false, .legacyV0⟩),
      (5, ⟨[], 900, false, .v1⟩), (5, ⟨[], 7000, true, .v1⟩)]).priorityFees
    let results := TransactionVersion.all.map
      (calculateVersionPriorityFee .exact (IterOrder.stored SlotPriorityFees) m)
    (results.map fun r => (r.map Prod.snd).getD 0).sum = 2 ∧
      ∃ greatest : ℚ, IsGreatest {x : ℚ | x ∈ [100, 900]} greatest ∧
        IsGreatest {x | ∃ r, some r ∈ results ∧ r.1.unsafeMax = x} (greatest : F64) := by
  have h := versions_partition Statrs.exact_dependsOnMultiset Statrs.exact_maxAtHundred
    Statrs.exact_minAtZero 1 [(5, ⟨[], 100, false, .legacyV0⟩),
      (5, ⟨[], 900, false, .v1⟩), (5, ⟨[], 7000, true, .v1⟩)]
  obtain ⟨hcount, hextreme⟩ := h.2.1 (IterOrder.stored Slot) (IterOrder.stored SlotPriorityFees)
    true [] false
  obtain ⟨-, greatest, -, hsample, -, hlevel⟩ := hextreme (by decide +kernel)
  have hglobal : ((Calculations.ofVersion true [] false false none).getPriorityFeeEstimates
      (IterOrder.stored Slot) (PriorityFeeTracker.run 1 [(5, ⟨[], 100, false, .legacyV0⟩),
        (5, ⟨[], 900, false, .v1⟩), (5, ⟨[], 7000, true, .v1⟩)]).priorityFees).sample .global =
      [100, 900] := by decide +kernel
  rw [hglobal] at hsample
  exact ⟨hcount.trans (by decide +kernel), greatest, hsample, hlevel⟩

end PriorityFeeEstimator
