import Mathlib
import PriorityFeeEstimator.Lib.FifoHistory
import PriorityFeeEstimator.Recency
import PriorityFeeEstimator.WindowServer

/-!
# How much of the past counts

A tracker that has seen as many new slots as it has room for gives the answers of
one that has seen nothing else: a process that was restarted catches up with one
that kept running. And when slots arrive in order, a request with a lookback is
answered as a tracker of that capacity answers without one.
-/

namespace PriorityFeeEstimator

open KeyedFifo

section Answers

variable {n : ℕ} {S : Statrs} {crates : Crates}

/-- Two trackers with windows that give the same answer to a request. -/
theorem answers_eq_of_windowAnswer_eq {k : ℕ} {t t' : PriorityFeeTracker} {w : Window n}
    {w' : Window k} (h : Simulates t w) (h' : Simulates t' w') (hS : S.DependsOnMultiset)
    (hnan : S.NanOnEmpty) (hname : Function.Injective (DataType.toText crates.display))
    {rpcClient : Option RpcClient} {request request' : GetPriorityFeeEstimateRequest} {isV1 : Bool}
    (hanswer : windowAnswer S crates w rpcClient request isV1 =
      windowAnswer S crates w' rpcClient request' isV1) (orders orders' : Traversals) :
    (executePriorityFeeEstimateCoordinator S crates orders ⟨t, rpcClient, n⟩ request isV1).map
        GetPriorityFeeEstimateResponse.withoutMoments =
      (executePriorityFeeEstimateCoordinator S crates orders' ⟨t', rpcClient, k⟩ request' isV1).map
        GetPriorityFeeEstimateResponse.withoutMoments := by
  rw [h.answer_eq hS hnan hname, h'.answer_eq hS hnan hname, hanswer]

/-- Once a tracker has seen `n` slots that it did not hold, its past is
    forgotten. -/
theorem run_append_eq_run (hn : 1 ≤ n) {ps qs : List (Slot × Txn)}
    (hfresh : ∀ q ∈ qs, q.1 ∉ (PriorityFeeTracker.run n ps).priorityFees)
    (hmany : n ≤ (slotsPushed qs).card) :
    (KeyedFifo.run n (ps ++ qs) : Window n) = KeyedFifo.run n qs := by
  have hwindow : ∀ q ∈ qs, q.1 ∉ (KeyedFifo.run n ps : Window n).keys := fun q hq hmem =>
    hfresh q hq (((Simulates.run hn ps).mem_store_iff q.1).mpr hmem)
  rw [← recordAll_empty, recordAll_append, recordAll_empty]
  exact recordAll_eq_run_of_fresh hn hwindow hmany

/-- Two trackers with different pasts that then see the same pushes, for `n` slots
    at least and none that either of them holds, hold the same slots in the same
    order with the same fees, and answer every request alike, but for the moments
    in details. -/
theorem answers_forget (hn : 1 ≤ n) (hS : S.DependsOnMultiset) (hnan : S.NanOnEmpty)
    (hinj : Function.Injective crates.display) (hglobal : ∀ k, crates.display k ≠ "Global")
    (hall : ∀ k, crates.display k ≠ "All Accounts") {ps ps' qs : List (Slot × Txn)}
    (hfresh : ∀ q ∈ qs, q.1 ∉ (PriorityFeeTracker.run n ps).priorityFees ∧
      q.1 ∉ (PriorityFeeTracker.run n ps').priorityFees)
    (hmany : n ≤ (slotsPushed qs).card) :
    let t := PriorityFeeTracker.run n (ps ++ qs)
    let t' := PriorityFeeTracker.run n (ps' ++ qs)
    t.slotCache.slotQueue.elements = t'.slotCache.slotQueue.elements ∧
    (∀ s, t.priorityFees.lookup s = t'.priorityFees.lookup s) ∧
    ∀ orders orders' rpcClient request isV1,
      (executePriorityFeeEstimateCoordinator S crates orders ⟨t, rpcClient, n⟩ request isV1).map
          GetPriorityFeeEstimateResponse.withoutMoments =
        (executePriorityFeeEstimateCoordinator S crates orders' ⟨t', rpcClient, n⟩ request
          isV1).map GetPriorityFeeEstimateResponse.withoutMoments := by
  intro t t'
  have h : Simulates t (KeyedFifo.run n qs) := by
    rw [← run_append_eq_run hn (fun q hq => (hfresh q hq).1) hmany]
    exact Simulates.run hn _
  have h' : Simulates t' (KeyedFifo.run n qs) := by
    rw [← run_append_eq_run hn (fun q hq => (hfresh q hq).2) hmany]
    exact Simulates.run hn _
  refine ⟨h.queue.trans h'.queue.symm, fun s => (h.store s).trans (h'.store s).symm, ?_⟩
  intro orders orders' rpcClient request isV1
  exact answers_eq_of_windowAnswer_eq h h' hS hnan
    (DataType.toText_injective hinj hglobal hall) rfl orders orders'

/-- With room for one slot, a process that was restarted before slot 7 catches up
    with one that had seen slot 5. -/
theorem answers_forget_restart :
    let t := PriorityFeeTracker.run 1 [(5, ⟨[.filled 1], 100, false, .legacyV0⟩),
      (7, ⟨[.filled 1], 300, false, .v1⟩)]
    let t' := PriorityFeeTracker.run 1 [(7, ⟨[.filled 1], 300, false, .v1⟩)]
    let request : GetPriorityFeeEstimateRequest := ⟨none, some [(Pubkey.filled 1).toBase58], none⟩
    (executePriorityFeeEstimateCoordinator .exact .keysOnly .stored ⟨t, none, 1⟩ request false).map
        GetPriorityFeeEstimateResponse.withoutMoments =
      (executePriorityFeeEstimateCoordinator .exact .keysOnly .stored ⟨t', none, 1⟩ request
        false).map GetPriorityFeeEstimateResponse.withoutMoments := by
  intro t t' request
  have h := @answers_forget 1 .exact .keysOnly le_rfl Statrs.exact_dependsOnMultiset
    Statrs.exact_nanOnEmpty Pubkey.toBase58_injective
    (Pubkey.toBase58_ne_of_mem (x := 'l') (by decide) (by decide))
    (Pubkey.toBase58_ne_of_mem (x := 'l') (by decide) (by decide))
    [(5, ⟨[.filled 1], 100, false, .legacyV0⟩)] [] [(7, ⟨[.filled 1], 300, false, .v1⟩)]
    (by decide) (by decide)
  exact h.2.2 .stored .stored none request false

end Answers

/-- The same calculation with another lookback. -/
def Calculations.withLookback (lookback : Option UInt32) : Calculations → Calculations
  | calculation1 accounts includeVote includeEmptySlots _ =>
    .calculation1 accounts includeVote includeEmptySlots lookback
  | calculation2 accounts includeVote includeEmptySlots _ =>
    .calculation2 accounts includeVote includeEmptySlots lookback

/-- The request with another lookback, if it has options at all. -/
def GetPriorityFeeEstimateRequest.withLookback (lookback : Option UInt32)
    (request : GetPriorityFeeEstimateRequest) : GetPriorityFeeEstimateRequest :=
  { request with options := request.options.map fun o => { o with lookbackSlots := lookback } }

namespace Calculations

variable (lookback : Option UInt32) (c : Calculations)

@[simp] theorem lookbackPeriod_withLookback :
    (c.withLookback lookback).lookbackPeriod = lookback := by
  cases c <;> rfl

@[simp] theorem groups_withLookback : (c.withLookback lookback).groups = c.groups := by
  cases c <;> rfl

@[simp] theorem contribution_withLookback (l : List Txn) (d : DataType) :
    (c.withLookback lookback).contribution l d = c.contribution l d := by
  cases c <;> cases d <;> rfl

end Calculations

/-- The lookback of a request decides on the lookback of the calculation only. -/
theorem calculationOf_withLookback (crates : Crates) (rpcClient : Option RpcClient) {n : ℕ}
    {request : GetPriorityFeeEstimateRequest} {options : GetPriorityFeeEstimateOptions}
    (hoptions : request.options = some options) (hrec : options.recommended = none)
    {lookback : Option UInt32} (hlookback : ∀ L, lookback = some L → 1 ≤ L.toNat ∧ L.toNat ≤ n)
    (isV1 : Bool) :
    calculationOf crates rpcClient n (request.withLookback lookback) isV1 =
      (calculationOf crates rpcClient 0 (request.withLookback none) isV1).map
        (Calculations.withLookback lookback) := by
  have hvalid : validateGetPriorityFeeEstimateRequest (request.withLookback lookback) =
      validateGetPriorityFeeEstimateRequest (request.withLookback none) := by
    simp [validateGetPriorityFeeEstimateRequest, GetPriorityFeeEstimateRequest.withLookback,
      hoptions, hrec]
  have haccounts : getAccounts crates rpcClient (request.withLookback lookback) =
      getAccounts crates rpcClient (request.withLookback none) := by
    simp [getAccounts, GetPriorityFeeEstimateRequest.withLookback, hoptions]
  have hallowed : (lookback.any fun lookbackSlots =>
      lookbackSlots < 1 || n < lookbackSlots.toNat) = false := by
    cases lookback with
    | none => rfl
    | some L =>
      obtain ⟨hpos, hle⟩ := hlookback L rfl
      have hne : L ≠ 0 := by
        rintro rfl
        exact absurd hpos (by decide)
      simp [hne, hle]
  unfold calculationOf
  rw [hvalid, haccounts]
  cases validateGetPriorityFeeEstimateRequest (request.withLookback none) with
  | some reason => rfl
  | none =>
    cases getAccounts crates rpcClient (request.withLookback none) with
    | error e => rfl
    | ok accounts =>
      have hslots : ∀ l, ((request.withLookback l).options.bind fun o => o.lookbackSlots) = l := by
        intro l
        simp [GetPriorityFeeEstimateRequest.withLookback, hoptions]
      have hvote : ∀ l, shouldIncludeVote (request.withLookback l).options =
          options.includeVote.getD false := by
        intro l
        simp [GetPriorityFeeEstimateRequest.withLookback, hoptions, shouldIncludeVote]
      have hempty : ∀ l, shouldIncludeEmptySlots (request.withLookback l).options =
          options.evaluateEmptySlotAsZero.getD true := by
        intro l
        simp [GetPriorityFeeEstimateRequest.withLookback, hoptions, shouldIncludeEmptySlots]
      simp only [Except.ok_bind, hslots, hvote, hempty, hallowed]
      cases isV1 <;> rfl

theorem respond_withLookback (request : GetPriorityFeeEstimateRequest) (lookback : Option UInt32)
    (levels : MicroLamportPriorityFeeEstimates)
    (details : Option (List (String × MicroLamportPriorityFeeDetails))) :
    respond (request.withLookback lookback).options levels details =
      respond request.options levels details := by
  unfold GetPriorityFeeEstimateRequest.withLookback
  cases request.options <;> rfl

theorem wantsDetails_withLookback (request : GetPriorityFeeEstimateRequest)
    (lookback : Option UInt32) : (request.withLookback lookback).wantsDetails =
      request.wantsDetails := by
  unfold GetPriorityFeeEstimateRequest.withLookback GetPriorityFeeEstimateRequest.wantsDetails
  cases request.options <;> rfl

section Windows

variable {n k : ℕ} {w : Window n} {w' : Window k} {l l' : Option UInt32}

/-- Two windows that have the same slots picked, with the same logs. -/
structure SamePicked (w : Window n) (l : Option UInt32) (w' : Window k) (l' : Option UInt32) :
    Prop where
  slots : pickedSlots w l = pickedSlots w' l'
  log : ∀ s ∈ pickedSlots w' l', w.log s = w'.log s

theorem SamePicked.windowSample_eq (h : SamePicked w l w' l') (c : Calculations) :
    windowSample w (c.withLookback l) = windowSample w' (c.withLookback l') := by
  funext d
  rw [windowSample, windowSample, Calculations.lookbackPeriod_withLookback,
    Calculations.lookbackPeriod_withLookback, h.slots]
  refine Finset.sum_congr rfl fun s hs => ?_
  rw [Calculations.contribution_withLookback, Calculations.contribution_withLookback, h.log s hs]

theorem SamePicked.presentGroups_eq (h : SamePicked w l w' l') (c : Calculations) :
    presentGroups w (c.withLookback l) = presentGroups w' (c.withLookback l') := by
  cases c with
  | calculation1 accounts includeVote includeEmptySlots lookback => rfl
  | calculation2 accounts includeVote includeEmptySlots lookback =>
    change (if pickedSlots w l = ∅ then _ else _) = if pickedSlots w' l' = ∅ then _ else _
    rw [h.slots]

/-- The answer of a window depends on the slots picked and their logs. -/
theorem SamePicked.windowAnswer_eq (h : SamePicked w l w' l') {S : Statrs} {crates : Crates}
    {rpcClient : Option RpcClient} {request : GetPriorityFeeEstimateRequest}
    {options : GetPriorityFeeEstimateOptions} (hoptions : request.options = some options)
    (hrec : options.recommended = none) (hl : ∀ L, l = some L → 1 ≤ L.toNat ∧ L.toNat ≤ n)
    (hl' : ∀ L, l' = some L → 1 ≤ L.toNat ∧ L.toNat ≤ k) (isV1 : Bool) :
    windowAnswer S crates w rpcClient (request.withLookback l) isV1 =
      windowAnswer S crates w' rpcClient (request.withLookback l') isV1 := by
  unfold windowAnswer
  rw [calculationOf_withLookback crates rpcClient hoptions hrec hl,
    calculationOf_withLookback crates rpcClient hoptions hrec hl']
  cases calculationOf crates rpcClient 0 (request.withLookback none) isV1 with
  | error e => rfl
  | ok c =>
    simp only [Except.map, respond_withLookback, wantsDetails_withLookback, windowDetails,
      Calculations.groups_withLookback, h.windowSample_eq c, h.presentGroups_eq c]

end Windows

/-- After pushes in order the highest slots of a large window are those of a small
    one, and both have their whole logs. -/
theorem samePicked_of_sorted {n : ℕ} {L : UInt32} (hL : 1 ≤ L.toNat) (hLn : L.toNat ≤ n)
    {ps : List (Slot × Txn)} (hsorted : (ps.map Prod.fst).Pairwise (· ≤ ·)) :
    SamePicked (KeyedFifo.run n ps : Window n) (some L) (KeyedFifo.run L.toNat ps : Window L.toNat)
      none := by
  have hheld : ∀ k, 1 ≤ k → (KeyedFifo.run k ps : Window k).keys.toFinset =
      highest k (slotsPushed ps) := by
    intro k hk
    rw [← heldSlots_eq hk]
    exact (holdsHighest_iff_evictsLowest hk ps).mpr (evictsLowest_of_sorted hsorted) ps
      (List.prefix_refl ps)
  have hlarge : pickedSlots (KeyedFifo.run n ps : Window n) (some L) =
      highest L.toNat (slotsPushed ps) := by
    rw [pickedSlots, hheld n (hL.trans hLn), Option.map_some, Option.getD_some,
      highest_highest hLn]
  have hsmall : pickedSlots (KeyedFifo.run L.toNat ps : Window L.toNat) none =
      highest L.toNat (slotsPushed ps) := by
    rw [pickedSlots_none, hheld L.toNat hL]
  refine ⟨hlarge.trans hsmall.symm, fun s hs => ?_⟩
  have hs' : s ∈ pickedSlots (KeyedFifo.run n ps : Window n) (some L) := by
    rw [hlarge, ← hsmall]
    exact hs
  rw [run_log_of_sorted hsorted (List.mem_toFinset.mp (highest_subset _ _ hs)),
    run_log_of_sorted hsorted (List.mem_toFinset.mp (highest_subset _ _ hs'))]

/-- When slots arrive in order, a request with a lookback is answered as a service
    of that capacity answers the request without one, but for the moments in
    details. -/
theorem lookback_is_capacity {n : ℕ} {L : UInt32} (hL : 1 ≤ L.toNat) (hLn : L.toNat ≤ n)
    {S : Statrs} (hS : S.DependsOnMultiset) (hnan : S.NanOnEmpty) {crates : Crates}
    (hinj : Function.Injective crates.display) (hglobal : ∀ k, crates.display k ≠ "Global")
    (hall : ∀ k, crates.display k ≠ "All Accounts") {ps : List (Slot × Txn)}
    (hsorted : (ps.map Prod.fst).Pairwise (· ≤ ·)) {request : GetPriorityFeeEstimateRequest}
    {options : GetPriorityFeeEstimateOptions} (hoptions : request.options = some options)
    (hrec : options.recommended = none) (orders orders' : Traversals)
    (rpcClient : Option RpcClient) (isV1 : Bool) :
    (executePriorityFeeEstimateCoordinator S crates orders
        ⟨PriorityFeeTracker.run n ps, rpcClient, n⟩ (request.withLookback (some L)) isV1).map
          GetPriorityFeeEstimateResponse.withoutMoments =
      (executePriorityFeeEstimateCoordinator S crates orders'
        ⟨PriorityFeeTracker.run L.toNat ps, rpcClient, L.toNat⟩ (request.withLookback none)
          isV1).map GetPriorityFeeEstimateResponse.withoutMoments := by
  have hsame := samePicked_of_sorted hL hLn hsorted
  refine answers_eq_of_windowAnswer_eq (Simulates.run (hL.trans hLn) ps) (Simulates.run hL ps) hS
    hnan (DataType.toText_injective hinj hglobal hall) ?_ orders orders'
  refine hsame.windowAnswer_eq hoptions hrec (fun L' hL' => ?_) (fun L' hL' => ?_) isV1
  · obtain rfl := Option.some.inj hL'
    exact ⟨hL, hLn⟩
  · cases hL'

/-- Slots 3, 5 and 7, and a request that looks back on one of them. -/
theorem lookback_is_capacity_one :
    let ps : List (Slot × Txn) := [(3, ⟨[.filled 1], 100, false, .legacyV0⟩),
      (5, ⟨[.filled 1], 200, false, .legacyV0⟩), (7, ⟨[.filled 1], 300, false, .v1⟩)]
    let request : GetPriorityFeeEstimateRequest := ⟨none, some [(Pubkey.filled 1).toBase58],
      some ⟨none, none, none, none, none, none, none, none⟩⟩
    (executePriorityFeeEstimateCoordinator .exact .keysOnly .stored
        ⟨PriorityFeeTracker.run 150 ps, none, 150⟩ (request.withLookback (some 1)) false).map
          GetPriorityFeeEstimateResponse.withoutMoments =
      (executePriorityFeeEstimateCoordinator .exact .keysOnly .stored
        ⟨PriorityFeeTracker.run 1 ps, none, 1⟩ (request.withLookback none) false).map
          GetPriorityFeeEstimateResponse.withoutMoments := by
  intro ps request
  exact lookback_is_capacity (n := 150) (L := 1) (by decide) (by decide)
    Statrs.exact_dependsOnMultiset Statrs.exact_nanOnEmpty Pubkey.toBase58_injective
    (Pubkey.toBase58_ne_of_mem (x := 'l') (by decide) (by decide))
    (Pubkey.toBase58_ne_of_mem (x := 'l') (by decide) (by decide)) (by decide) rfl rfl .stored
    .stored none false

end PriorityFeeEstimator
