import Mathlib
import PriorityFeeEstimator.LevelOrder
import PriorityFeeEstimator.Lib.Interleaving
import PriorityFeeEstimator.WindowServer

/-!
# Which requests are answered, and with what

A request is answered when it passes all checks, and none of these looks at the
store or at the version of the method. What comes back has one of two shapes, an
estimate or all levels, with details when they are asked for, and holds numbers
throughout.
-/

namespace PriorityFeeEstimator

/-- The text of a transaction is within its limit, and so are its bytes, which are
    those of a transaction. -/
def Readable (crates : Crates) (options : Option GetPriorityFeeEstimateOptions)
    (text : String) : Prop :=
  ∃ encoding wire transaction,
    ((options.bind fun o => o.transactionEncoding).getD .base58).intoBinaryEncoding =
      some encoding ∧
    text.utf8ByteSize ≤ encoding.maxTextSize ∧ encoding.decode crates text = .ok wire ∧
    wire.length ≤ maxTransactionSize ∧ crates.deserialize wire = .ok transaction

/-- The request asks about keys or about a transaction and not about both; the keys
    are not too many, and the transaction can be read, if there is a node to ask for
    its tables; a recommended fee comes without controls; and the lookback is in
    bounds. -/
structure Acceptable (crates : Crates) (rpcClient : Option RpcClient) (maxLookbackSlots : ℕ)
    (request : GetPriorityFeeEstimateRequest) : Prop where
  oneSubject : request.transaction = none ∨ request.accountKeys = none
  accountKeys : ∀ accountKeys, request.accountKeys = some accountKeys → accountKeys.length ≤ 500
  transaction : ∀ text, request.transaction = some text → rpcClient ≠ none →
    Readable crates request.options text
  recommended : ∀ options, request.options = some options → options.recommended ≠ none →
    options.priorityLevel = none ∧ options.includeAllPriorityFeeLevels = none ∧
      options.lookbackSlots = none ∧ options.includeVote = none
  lookback : ∀ lookbackSlots, (request.options.bind fun o => o.lookbackSlots) =
    some lookbackSlots → 1 ≤ lookbackSlots.toNat ∧ lookbackSlots.toNat ≤ maxLookbackSlots

section Checks

variable {crates : Crates} {rpcClient : Option RpcClient} {request : GetPriorityFeeEstimateRequest}

theorem customControlsSet_eq_false_iff (o : GetPriorityFeeEstimateOptions) :
    o.customControlsSet = false ↔
      o.priorityLevel = none ∧ o.includeAllPriorityFeeLevels = none ∧ o.lookbackSlots = none ∧
        o.includeVote = none := by
  simp [GetPriorityFeeEstimateOptions.customControlsSet, and_assoc]

/-- A request passes validation when no rule objects. -/
theorem validate_eq_none_iff :
    validateGetPriorityFeeEstimateRequest request = none ↔
      (request.transaction = none ∨ request.accountKeys = none) ∧
      (∀ accountKeys, request.accountKeys = some accountKeys → accountKeys.length ≤ 500) ∧
      ∀ options, request.options = some options → options.recommended ≠ none →
        options.priorityLevel = none ∧ options.includeAllPriorityFeeLevels = none ∧
          options.lookbackSlots = none ∧ options.includeVote = none := by
  have hboth : (request.transaction.isSome && request.accountKeys.isSome) = false ↔
      request.transaction = none ∨ request.accountKeys = none := by
    cases request.transaction <;> cases request.accountKeys <;> simp
  have hmany : (request.accountKeys.any fun accountKeys => 500 < accountKeys.length) = false ↔
      ∀ accountKeys, request.accountKeys = some accountKeys → accountKeys.length ≤ 500 := by
    cases request.accountKeys <;> simp
  rw [← hboth, ← hmany, validateGetPriorityFeeEstimateRequest]
  cases hb : request.transaction.isSome && request.accountKeys.isSome with
  | true => simp
  | false =>
    cases hm : request.accountKeys.any fun accountKeys => 500 < accountKeys.length with
    | true => simp
    | false =>
      cases request.options with
      | none => simp
      | some options =>
        simp only [Option.some.injEq, forall_eq', ← customControlsSet_eq_false_iff]
        cases options.customControlsSet <;> cases options.recommended <;> simp

/-- The accounts of a request are found unless its transaction is asked about and
    cannot be read. -/
theorem exists_getAccounts_iff :
    (∃ accounts, getAccounts crates rpcClient request = .ok accounts) ↔
      (request.accountKeys = none → ∀ text, request.transaction = some text → rpcClient ≠ none →
        Readable crates request.options text) := by
  unfold getAccounts
  cases request.accountKeys with
  | some accountKeys => simp
  | none =>
    cases rpcClient with
    | none => simp
    | some client =>
      cases request.transaction with
      | none => simp
      | some text =>
        simp only [Readable, Option.some.injEq, ne_eq, reduceCtorEq, not_false_eq_true,
          forall_const, forall_eq']
        cases ((request.options.bind fun o => o.transactionEncoding).getD
            UiTransactionEncoding.base58).intoBinaryEncoding with
        | none =>
          refine iff_of_false ?_ (by simp)
          rintro ⟨accounts, haccounts⟩
          cases haccounts
        | some encoding =>
          change (∃ accounts, (decodeAndDeserialize crates text encoding >>= fun decoded =>
            Except.ok (getFromAccountKeys crates decoded.2 ++
              getFromAddressLookupTables crates client decoded.2)) = .ok accounts) ↔ _
          constructor
          · rintro ⟨accounts, haccounts⟩
            obtain ⟨⟨wire, transaction⟩, hdecode, -⟩ := Except.bind_eq_ok_iff.mp haccounts
            exact ⟨encoding, wire, transaction, rfl, decodeAndDeserialize_eq_ok_iff.mp hdecode⟩
          · rintro ⟨encoding', wire, transaction, he, hdecode⟩
            obtain rfl : encoding = encoding' := Option.some.inj he
            exact ⟨_, Except.bind_eq_ok_iff.mpr
              ⟨(wire, transaction), decodeAndDeserialize_eq_ok_iff.mpr hdecode, rfl⟩⟩

end Checks

/-- A request asks for a calculation exactly when it is acceptable. -/
theorem exists_calculationOf_iff (crates : Crates) (rpcClient : Option RpcClient)
    (maxLookbackSlots : ℕ) (request : GetPriorityFeeEstimateRequest) (isV1 : Bool) :
    (∃ c, calculationOf crates rpcClient maxLookbackSlots request isV1 = .ok c) ↔
      Acceptable crates rpcClient maxLookbackSlots request := by
  have hlookback : ((request.options.bind fun o => o.lookbackSlots).any fun lookbackSlots =>
        lookbackSlots < 1 || maxLookbackSlots < lookbackSlots.toNat) = false ↔
      ∀ lookbackSlots, (request.options.bind fun o => o.lookbackSlots) = some lookbackSlots →
        1 ≤ lookbackSlots.toNat ∧ lookbackSlots.toNat ≤ maxLookbackSlots := by
    cases request.options.bind fun o => o.lookbackSlots with
    | none => simp
    | some l => simp [UInt32.lt_iff_toNat_lt, Nat.one_le_iff_ne_zero]
  unfold calculationOf
  constructor
  · rintro ⟨c, hc⟩
    cases hvalid : validateGetPriorityFeeEstimateRequest request with
    | some reason =>
      rw [hvalid] at hc
      cases hc
    | none =>
      rw [hvalid] at hc
      obtain ⟨accounts, haccounts, hc⟩ := Except.bind_eq_ok_iff.mp hc
      obtain ⟨hone, hkeys, hrecommended⟩ := validate_eq_none_iff.mp hvalid
      refine ⟨hone, hkeys, fun text htext hclient => ?_, hrecommended, hlookback.mp ?_⟩
      · have hnone := hone.resolve_left (by simp [htext])
        exact exists_getAccounts_iff.mp ⟨accounts, haccounts⟩ hnone text htext hclient
      · by_contra hbounds
        rw [Bool.not_eq_false] at hbounds
        simp only [hbounds, if_true] at hc
        cases hc
  · intro h
    obtain ⟨accounts, haccounts⟩ := exists_getAccounts_iff.mpr fun _ => h.transaction
    simp only [validate_eq_none_iff.mpr ⟨h.oneSubject, h.accountKeys, h.recommended⟩, haccounts,
      Except.ok_bind, hlookback.mpr h.lookback]
    cases isV1 <;> exact ⟨_, rfl⟩

/-- Which requests are answered: the acceptable ones, by either method, whatever
    the store holds. -/
theorem answered_iff (S : Statrs) (crates : Crates) (orders : Traversals)
    (server : AtlasPriorityFeeEstimator) (request : GetPriorityFeeEstimateRequest) (isV1 : Bool) :
    (∃ r, executePriorityFeeEstimateCoordinator S crates orders server request isV1 = .ok r) ↔
      Acceptable crates server.rpcClient server.maxLookbackSlots request := by
  simp only [← exists_calculationOf_iff crates _ _ _ isV1, Except.map_eq_ok_iff,
    executePriorityFeeEstimateCoordinator_eq]
  constructor
  · rintro ⟨r, c, hc, -⟩
    exact ⟨c, hc⟩
  · rintro ⟨c, hc⟩
    exact ⟨_, c, hc, rfl⟩

/-- One shape of two, an estimate or all levels, as the request asks; numbers that
    are not negative; a recommended fee that is whole and no less than the minimum;
    and details, if they are asked for, from the last name to the first. -/
structure GetPriorityFeeEstimateResponse.WellFormed (request : GetPriorityFeeEstimateRequest)
    (r : GetPriorityFeeEstimateResponse) : Prop where
  shape : r.priorityFeeLevels = none ↔ r.priorityFeeEstimate ≠ none
  allLevels : r.priorityFeeLevels ≠ none ↔
    (request.options.bind fun o => o.includeAllPriorityFeeLevels) = some true
  estimate : ∀ x, r.priorityFeeEstimate = some x → 0 ≤ x
  levels : ∀ e, r.priorityFeeLevels = some e → ∀ p, 0 ≤ e.level p
  recommended : (request.options.bind fun o => o.recommended) = some true →
    ∃ k : ℕ, 10000 ≤ k ∧ r.priorityFeeEstimate = some ((k : ℚ) : F64)
  details : r.priorityFeeEstimateDetails ≠ none ↔ request.wantsDetails = true
  names : ∀ details, r.priorityFeeEstimateDetails = some details →
    details.Pairwise fun a b => b.1 < a.1
  detailLevels : ∀ details, r.priorityFeeEstimateDetails = some details →
    ∀ e ∈ details, ∀ p, 0 ≤ e.2.estimates.level p

/-- The recommended fee is a whole number, and no less than the minimum. -/
theorem exists_getRecommendedFee_eq (fees : MicroLamportPriorityFeeEstimates) :
    ∃ k : ℕ, 10000 ≤ k ∧ getRecommendedFee fees = ((k : ℚ) : F64) := by
  have hceil : ∀ q : ℚ, 10000 ≤ q → ∃ k : ℕ, 10000 ≤ k ∧ F64.ceil (q : F64) = ((k : ℚ) : F64) := by
    intro q hq
    have hle : (10000 : ℤ) ≤ ⌈q⌉ := Int.le_ceil_iff.mpr (by push_cast; linarith)
    refine ⟨⌈q⌉.toNat, by omega, ?_⟩
    have hcast : ((⌈q⌉.toNat : ℤ) : ℚ) = (⌈q⌉ : ℚ) := by rw [Int.toNat_of_nonneg (by omega)]
    show ((⌈q⌉ : ℚ) : F64) = _
    rw [← hcast]
    rfl
  rw [getRecommendedFee]
  split
  · next hlt =>
    obtain ⟨q, hq⟩ := WithBot.ne_bot_iff_exists.mp (bot_lt_of_lt hlt).ne'
    rw [← hq] at hlt ⊢
    exact hceil q (WithBot.coe_lt_coe.mp hlt).le
  · exact hceil minRecommendedPriorityFee le_rfl

/-- The details under a name are those of some sample. -/
theorem exists_groupDetails_of_lookup {S : Statrs} {display : Pubkey → String}
    {o : IterOrder Slot} {cloned g : IterOrder Group} {c : Calculations} {m : PriorityFeesBySlot}
    {name : String} {d : MicroLamportPriorityFeeDetails}
    (h : (calculatePriorityFeeDetails S display o cloned g c m).2.lookup name = some d) :
    ∃ fees, d = groupDetails S fees := by
  have hall := @invariant_foldl _ _
    (fun (results : Table String MicroLamportPriorityFeeDetails) (data : Group) =>
      results.insert (data.1.toText display) (groupDetails S data.2))
    (fun results => ∀ name d, results.lookup name = some d → ∃ fees, d = groupDetails S fees)
    (fun results data hresults name d hd => ?_) ∅ (fun name d hd => by cases hd)
    (g.visit (c.getPriorityFeeEstimates o m).entries)
  · exact hall name d h
  · rw [Table.lookup_insert_eq_ite] at hd
    split at hd
    · exact ⟨data.2, (Option.some.inj hd).symm⟩
    · exact hresults name d hd

/-- The levels of a response are not negative, and its details are sorted. -/
theorem calculate_cases {S : Statrs} (hS : S.DependsOnMultiset) (display : Pubkey → String)
    (orders : Traversals) (store : PriorityFeesBySlot) (request : GetPriorityFeeEstimateRequest)
    (c : Calculations) :
    ∃ levels details, calculate S display orders store request c =
        respond request.options levels details ∧
      (∀ p, 0 ≤ levels.level p) ∧ (details ≠ none ↔ request.wantsDetails = true) ∧
      ∀ entries, details = some entries → entries.Pairwise (fun a b => b.1 < a.1) ∧
        ∀ e ∈ entries, ∀ p, 0 ≤ e.2.estimates.level p := by
  unfold calculate
  cases hwants : request.wantsDetails with
  | false =>
    exact ⟨_, _, rfl, calculatePriorityFee_level_nonneg hS _ _ _ _, by simp, nofun⟩
  | true =>
    refine ⟨_, _, rfl, calculatePriorityFee_level_nonneg hS orders.slots orders.cloned c store,
      by simp, ?_⟩
    intro entries hentries
    obtain rfl := Option.some.inj hentries
    set results := (calculatePriorityFeeDetails S display orders.slots orders.cloned orders.groups c
      store).2 with hresults
    have hperm := List.mergeSort_perm (results.entries.map fun e => (e.1, e.2))
      (fun a b => decide (b.1 ≤ a.1))
    refine ⟨?_, fun e he p => ?_⟩
    · have hnames :
          ((sortByName (results.entries.map fun e => (e.1, e.2))).map Prod.fst).Nodup := by
        rw [sortByName, (hperm.map Prod.fst).nodup_iff, List.map_map]
        exact results.keys_nodup
      have hle := pairwise_sortByName (results.entries.map fun e => (e.1, e.2))
      refine (hle.and (List.pairwise_map.mp hnames)).imp fun h => ?_
      exact lt_of_le_of_ne h.1 (Ne.symm h.2)
    · obtain ⟨entry, hentry, rfl⟩ := List.mem_map.mp (hperm.mem_iff.mp he)
      obtain ⟨fees, hfees⟩ := exists_groupDetails_of_lookup (Table.mem_entries_iff.mp hentry)
      change 0 ≤ entry.2.estimates.level p
      rw [hfees, groupDetails_level hS]
      exact le_max_right _ _

/-- A response gives all levels, the level asked for, or the default estimate. -/
theorem respond_cases (options : Option GetPriorityFeeEstimateOptions)
    (levels : MicroLamportPriorityFeeEstimates)
    (details : Option (List (String × MicroLamportPriorityFeeDetails))) :
    ((options.bind fun o => o.includeAllPriorityFeeLevels) = some true ∧
      respond options levels details = ⟨none, some levels, details⟩) ∨
    (options.bind fun o => o.includeAllPriorityFeeLevels) ≠ some true ∧
      ((∃ p, (options.bind fun o => o.priorityLevel) = some p ∧
          respond options levels details = ⟨some (levels.level p), none, details⟩) ∨
        (options.bind fun o => o.priorityLevel) = none ∧
          respond options levels details =
            ⟨some (if (options.bind fun o => o.recommended).getD false then
              getRecommendedFee levels else levels.medium), none, details⟩) := by
  unfold respond
  cases options with
  | none => exact .inr ⟨by simp, .inr ⟨rfl, rfl⟩⟩
  | some options =>
    by_cases hall : options.includeAllPriorityFeeLevels = some true
    · exact .inl ⟨hall, by simp [hall]⟩
    · refine .inr ⟨hall, ?_⟩
      cases hlevel : options.priorityLevel with
      | some p => exact .inl ⟨p, hlevel, by simp only [if_neg hall, hlevel]⟩
      | none => exact .inr ⟨hlevel, by simp only [if_neg hall, hlevel]⟩

/-- The response is well formed when the levels and the details are, and a
    recommended fee comes without controls. -/
theorem respond_wellFormed {request : GetPriorityFeeEstimateRequest}
    {levels : MicroLamportPriorityFeeEstimates}
    {details : Option (List (String × MicroLamportPriorityFeeDetails))}
    (hrecommended : ∀ options, request.options = some options → options.recommended ≠ none →
      options.priorityLevel = none ∧ options.includeAllPriorityFeeLevels = none ∧
        options.lookbackSlots = none ∧ options.includeVote = none)
    (hlevels : ∀ p, 0 ≤ levels.level p) (hdetails : details ≠ none ↔ request.wantsDetails = true)
    (hentries : ∀ entries, details = some entries → entries.Pairwise (fun a b => b.1 < a.1) ∧
      ∀ e ∈ entries, ∀ p, 0 ≤ e.2.estimates.level p) :
    (respond request.options levels details).WellFormed request := by
  obtain ⟨k, hk, hfee⟩ := exists_getRecommendedFee_eq levels
  have hcontrols : (request.options.bind fun o => o.recommended) = some true →
      (request.options.bind fun o => o.priorityLevel) = none ∧
        (request.options.bind fun o => o.includeAllPriorityFeeLevels) = none := by
    intro h
    obtain ⟨options, hoptions, hrec⟩ := Option.bind_eq_some_iff.mp h
    obtain ⟨hlevel, hall, -, -⟩ := hrecommended options hoptions (by simp [hrec])
    rw [hoptions]
    exact ⟨hlevel, hall⟩
  have hdetailsOf : ∀ entries, details = some entries → ∀ e ∈ entries, ∀ p,
      0 ≤ e.2.estimates.level p := fun entries he => (hentries entries he).2
  rcases respond_cases request.options levels details with ⟨hall, he⟩ |
    ⟨hall, ⟨p, hp, he⟩ | ⟨hlevel, he⟩⟩
  · rw [he]
    refine ⟨by simp, by simp [hall], fun x h => by simp at h, fun e h p => ?_, fun h => ?_,
      hdetails, fun entries h => (hentries entries h).1, hdetailsOf⟩
    · obtain rfl := Option.some.inj h
      exact hlevels p
    · exact absurd ((hcontrols h).2.symm.trans hall) (by simp)
  · rw [he]
    refine ⟨by simp, by simp [hall], fun x h => ?_, fun e h => by simp at h, fun h => ?_,
      hdetails, fun entries h => (hentries entries h).1, hdetailsOf⟩
    · obtain rfl := Option.some.inj h
      exact hlevels p
    · exact absurd ((hcontrols h).1.symm.trans hp) (by simp)
  · rw [he]
    refine ⟨by simp, by simp [hall], fun x h => ?_, fun e h => by simp at h, fun h => ?_,
      hdetails, fun entries h => (hentries entries h).1, hdetailsOf⟩
    · obtain rfl := Option.some.inj h
      split
      · rw [hfee]
        exact WithBot.coe_le_coe.mpr (Nat.cast_nonneg k)
      · exact hlevels .medium
    · exact ⟨k, hk, by simp [h, hfee]⟩

/-- The response to every request that is answered is well formed. -/
theorem responses_well_formed {S : Statrs} (hS : S.DependsOnMultiset) (crates : Crates)
    (orders : Traversals) (server : AtlasPriorityFeeEstimator)
    (request : GetPriorityFeeEstimateRequest) (isV1 : Bool) {r : GetPriorityFeeEstimateResponse}
    (h : executePriorityFeeEstimateCoordinator S crates orders server request isV1 = .ok r) :
    r.WellFormed request := by
  rw [executePriorityFeeEstimateCoordinator_eq, Except.map_eq_ok_iff] at h
  obtain ⟨c, hc, rfl⟩ := h
  have hrequest := (exists_calculationOf_iff crates _ _ request isV1).mp ⟨c, hc⟩
  obtain ⟨levels, details, he, hlevels, hdetails, hentries⟩ :=
    calculate_cases hS crates.display orders server.priorityFeeTracker.priorityFees request c
  rw [he]
  exact respond_wellFormed hrequest.recommended hlevels hdetails hentries

/-- A recommended fee, with details. -/
theorem responses_well_formed_recommended :
    let server : AtlasPriorityFeeEstimator :=
      ⟨.run 1 [(1, ⟨[], 12345, false, .legacyV0⟩)], none, 1⟩
    let request : GetPriorityFeeEstimateRequest :=
      ⟨none, some [], some ⟨none, none, none, none, none, some true, none, some true⟩⟩
    ∃ r, executePriorityFeeEstimateCoordinator .exact .keysOnly .stored server request false =
        .ok r ∧ r.priorityFeeEstimate = some (12345 : ℚ) ∧ r.WellFormed request := by
  intro server request
  obtain ⟨r, hr, hfee⟩ : ∃ r, executePriorityFeeEstimateCoordinator .exact .keysOnly .stored server
      request false = .ok r ∧ r.priorityFeeEstimate = some (12345 : ℚ) :=
    ⟨_, rfl, by decide +kernel⟩
  exact ⟨r, hr, hfee, responses_well_formed Statrs.exact_dependsOnMultiset _ _ _ _ _ hr⟩

end PriorityFeeEstimator
