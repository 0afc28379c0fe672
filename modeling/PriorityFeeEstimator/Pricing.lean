import Mathlib
import PriorityFeeEstimator.Base58
import PriorityFeeEstimator.Ingest

/-!
# The price of a message

A message with a configuration is priced from it: its total fee over its
compute-unit limit, a division that is exact at 128 bits. Every other message is
priced by the processor from its instructions, each with the key of its program.
The index of the program is cut to its low byte on the way, so an index beyond
the byte range can name a key that is not the one it stands for.
-/

namespace PriorityFeeEstimator

-- ════════════════════════════════════════════════════════════════════════
-- Messages with a configuration
-- ════════════════════════════════════════════════════════════════════════

/-- The rate of a total fee in lamports over a compute-unit limit, in
    micro-lamports for each unit and rounded down. Limits are cut to the largest
    limit of the runtime. -/
def exactRate (fee limit : ℕ) : ℕ := fee * 10 ^ 6 / min limit 1400000

/-- A larger fee over a smaller limit gives a larger rate. -/
theorem exactRate_le_exactRate {fee fee' limit limit' : ℕ} (hfee : fee ≤ fee') (hpos : 0 < limit')
    (hlimit : limit' ≤ limit) : exactRate fee limit ≤ exactRate fee' limit' := by
  have hcut : min limit' 1400000 ≤ min limit 1400000 := by omega
  have hcutpos : 0 < min limit' 1400000 := by omega
  calc fee * 10 ^ 6 / min limit 1400000
      ≤ fee * 10 ^ 6 / min limit' 1400000 := Nat.div_le_div_left hcut hcutpos
    _ ≤ fee' * 10 ^ 6 / min limit' 1400000 := Nat.div_le_div_right (by omega)

/-- A total fee that is a price for every unit of the limit has that price as its
    rate. -/
theorem exactRate_of_mul_eq {fee price limit : ℕ} (hpos : 0 < limit) (hlimit : limit ≤ 1400000)
    (h : fee * 10 ^ 6 = price * limit) : exactRate fee limit = price := by
  rw [exactRate, min_eq_left hlimit, h]
  exact Nat.mul_div_cancel price hpos

/-- The product of a 64-bit fee and the micro-lamports of a lamport fits in 128
    bits. -/
theorem fee_product_lt (fee : UInt64) : fee.toNat * 10 ^ 6 < 2 ^ 128 := by
  have hfee := fee.toNat_lt
  omega

/-- The product stays below the bound it would saturate at. -/
theorem saturated_product_eq (fee : UInt64) :
    min (fee.toNat * microLamportsPerLamport) (2 ^ 128 - 1) = fee.toNat * 10 ^ 6 := by
  have hmicro : microLamportsPerLamport = 10 ^ 6 := rfl
  rw [hmicro]
  exact min_eq_left (Nat.le_sub_one_of_lt (fee_product_lt fee))

theorem toNat_min_maxComputeUnitLimit (limit : UInt32) :
    (min limit maxComputeUnitLimit).toNat = min limit.toNat 1400000 := by
  have hmax : maxComputeUnitLimit.toNat = 1400000 := rfl
  rw [UInt32.toNat_min, hmax]

theorem v1PriorityRate_eq_none_iff (config : Proto.TransactionConfig) :
    v1PriorityRate config = none ↔
      config.computeUnitLimit = none ∨ config.computeUnitLimit = some 0 := by
  unfold v1PriorityRate
  cases config.computeUnitLimit with
  | none => simp
  | some limit => simp [Option.filter, UInt32.pos_iff_ne_zero]

private theorem toNat_pos {limit : UInt32} (hne : limit ≠ 0) : 0 < limit.toNat :=
  UInt32.lt_iff_toNat_lt.mp (UInt32.pos_iff_ne_zero.mpr hne)

/-- With a positive limit the rate is exact, and 0 when it does not fit. -/
theorem v1PriorityRate_eq {config : Proto.TransactionConfig} {limit : UInt32}
    (hlimit : config.computeUnitLimit = some limit) (hne : limit ≠ 0) :
    v1PriorityRate config =
      let rate := exactRate (config.priorityFee.getD 0).toNat limit.toNat
      some (if rate < 2 ^ 64 then UInt64.ofNat rate else 0) := by
  have hpos : 0 < limit := UInt32.pos_iff_ne_zero.mpr hne
  have hcutne : min limit.toNat 1400000 ≠ 0 := by
    have := toNat_pos hne
    omega
  have hfilter : (some limit).filter (fun limit => decide (0 < limit)) = some limit := by
    rw [Option.filter_some, if_pos (decide_eq_true hpos)]
  rw [v1PriorityRate, hlimit, hfilter, Option.map_some]
  -- written out, since `simp` would evaluate the bounds of the product and the rate
  show some (((if (min limit maxComputeUnitLimit).toNat = 0 then none
    else some (min ((config.priorityFee.getD 0).toNat * microLamportsPerLamport) (2 ^ 128 - 1) /
      (min limit maxComputeUnitLimit).toNat)).bind fun rate =>
        if rate < 2 ^ 64 then some (UInt64.ofNat rate) else none).getD 0) = some _
  rw [saturated_product_eq, toNat_min_maxComputeUnitLimit, if_neg hcutne, Option.bind_some,
    ← exactRate]
  by_cases hfits : exactRate (config.priorityFee.getD 0).toNat limit.toNat < 2 ^ 64
  · rw [if_pos hfits, if_pos hfits, Option.getD_some]
  · rw [if_neg hfits, if_neg hfits, Option.getD_none]

theorem v1PriorityRate_of_lt {config : Proto.TransactionConfig} {limit : UInt32}
    (hlimit : config.computeUnitLimit = some limit) (hne : limit ≠ 0)
    (hfits : exactRate (config.priorityFee.getD 0).toNat limit.toNat < 2 ^ 64) :
    ∃ rate, v1PriorityRate config = some rate ∧
      rate.toNat = exactRate (config.priorityFee.getD 0).toNat limit.toNat := by
  refine ⟨_, v1PriorityRate_eq hlimit hne, ?_⟩
  rw [if_pos hfits]
  exact UInt64.toNat_ofNat_of_lt hfits

/-- A total fee that amounts to a price for every unit of the limit resolves to
    this price, whatever the message does. -/
theorem resolvePriorityRate_of_total {config : Proto.TransactionConfig} {price : UInt64}
    {limit : UInt32} (hlimit : config.computeUnitLimit = some limit) (hpos : 1 ≤ limit.toNat)
    (hle : limit.toNat ≤ 1400000)
    (htotal : (config.priorityFee.getD 0).toNat * 10 ^ 6 = price.toNat * limit.toNat)
    (process : ComputeBudgetProcessor) (accounts : List Pubkey)
    (instructions : List CompiledInstruction) :
    resolvePriorityRate process (some config) accounts instructions = some price := by
  have hne : limit ≠ 0 := by
    rintro rfl
    simp at hpos
  have hexact := exactRate_of_mul_eq hpos hle htotal
  obtain ⟨rate, hrate, hnat⟩ := v1PriorityRate_of_lt hlimit hne (hexact ▸ price.toNat_lt)
  have hprice : rate = price := UInt64.toNat_inj.mp (hnat.trans hexact)
  exact hrate.trans (congrArg some hprice)

/-- A larger fee over a smaller limit has a larger rate, as long as it fits. -/
theorem v1PriorityRate_le {config config' : Proto.TransactionConfig} {limit limit' : UInt32}
    (hlimit : config.computeUnitLimit = some limit)
    (hlimit' : config'.computeUnitLimit = some limit') (hne' : limit' ≠ 0)
    (hfee : config.priorityFee.getD 0 ≤ config'.priorityFee.getD 0) (hle : limit' ≤ limit)
    (hfits : exactRate (config'.priorityFee.getD 0).toNat limit'.toNat < 2 ^ 64) :
    ∃ rate rate', v1PriorityRate config = some rate ∧ v1PriorityRate config' = some rate' ∧
      rate ≤ rate' := by
  have hne : limit ≠ 0 := by
    rintro rfl
    exact hne' (UInt32.le_zero_iff.mp hle)
  have hmono := exactRate_le_exactRate (UInt64.le_iff_toNat_le.mp hfee) (toNat_pos hne')
    (UInt32.le_iff_toNat_le.mp hle)
  obtain ⟨rate, hrate, hnat⟩ := v1PriorityRate_of_lt hlimit hne (hmono.trans_lt hfits)
  obtain ⟨rate', hrate', hnat'⟩ := v1PriorityRate_of_lt hlimit' hne' hfits
  refine ⟨rate, rate', hrate, hrate', ?_⟩
  rw [UInt64.le_iff_toNat_le, hnat, hnat']
  exact hmono

/-- A configuration without a limit, or with limit 0, has no rate. With any other
    limit the product and the division are exact, and the rate is their result
    rounded down, or 0 when that does not fit in 64 bits. A total fee that amounts
    to the price `p` for every unit of the limit resolves to what a message
    without configuration of price `p` resolves to. While the rates fit they grow
    with the fee, and shrink with the limit. -/
theorem v1_rates_exact :
    (∀ config : Proto.TransactionConfig, v1PriorityRate config = none ↔
      config.computeUnitLimit = none ∨ config.computeUnitLimit = some 0) ∧
    (∀ (config : Proto.TransactionConfig) (l : UInt32),
      config.computeUnitLimit = some l → l ≠ 0 →
      let f := (config.priorityFee.getD 0).toNat
      let c := min l.toNat 1400000
      f * 10 ^ 6 < 2 ^ 128 ∧ c ≠ 0 ∧
      (f * 10 ^ 6 / c < 2 ^ 64 →
        ∃ rate, v1PriorityRate config = some rate ∧ rate.toNat = f * 10 ^ 6 / c) ∧
      (2 ^ 64 ≤ f * 10 ^ 6 / c → v1PriorityRate config = some 0)) ∧
    (∀ (p : UInt64) (l : UInt32), 1 ≤ l.toNat → l.toNat ≤ 1400000 →
      10 ^ 6 ∣ p.toNat * l.toNat → p.toNat * l.toNat / 10 ^ 6 < 2 ^ 64 →
      ∀ config : Proto.TransactionConfig,
        (config.priorityFee.getD 0).toNat = p.toNat * l.toNat / 10 ^ 6 →
        config.computeUnitLimit = some l →
      ∀ (process : ComputeBudgetProcessor) accounts instructions accounts' instructions',
        resolvePriorityRate process (some config) accounts instructions = some p ∧
        (process.calculatePriorityFeeDetails accounts' instructions' = .ok p →
          resolvePriorityRate process (some config) accounts instructions =
            resolvePriorityRate process none accounts' instructions')) ∧
    (∀ (config config' : Proto.TransactionConfig) (l l' : UInt32),
      config.computeUnitLimit = some l → config'.computeUnitLimit = some l' → l' ≠ 0 →
      config.priorityFee.getD 0 ≤ config'.priorityFee.getD 0 → l' ≤ l →
      (config'.priorityFee.getD 0).toNat * 10 ^ 6 / min l'.toNat 1400000 < 2 ^ 64 →
      ∃ rate rate', v1PriorityRate config = some rate ∧ v1PriorityRate config' = some rate' ∧
        rate ≤ rate') := by
  refine ⟨v1PriorityRate_eq_none_iff, ?_, ?_, ?_⟩
  · intro config l hl hne f c
    have hlpos : 0 < l.toNat := toNat_pos hne
    refine ⟨fee_product_lt _, by omega, v1PriorityRate_of_lt hl hne, fun hover => ?_⟩
    rw [v1PriorityRate_eq hl hne]
    exact congrArg some (if_neg (not_lt.mpr hover))
  · intro p l hpos hle hdvd hfits config hfee hl process accounts instructions accounts'
      instructions'
    have htotal : (config.priorityFee.getD 0).toNat * 10 ^ 6 = p.toNat * l.toNat := by
      rw [hfee, Nat.div_mul_cancel hdvd]
    have hresolve := resolvePriorityRate_of_total hl hpos hle htotal process accounts instructions
    refine ⟨hresolve, fun hprice => ?_⟩
    rw [hresolve, resolvePriorityRate, hprice]
  · intro config config' l l' hl hl' hne' hfee hle hfits
    exact v1PriorityRate_le hl hl' hne' hfee hle hfits

/-- The program whose instructions set prices. -/
def computeBudgetProgram : Pubkey where
  bytes := [3, 6, 70, 111, 229, 33, 23, 50, 255, 236, 173, 186, 114, 195, 155, 231, 188, 140, 229,
    187, 197, 247, 18, 107, 44, 67, 155, 58, 64, 0, 0, 0]
  size := rfl

example : computeBudgetProgram.toBase58 = "ComputeBudget111111111111111111111111111111" := by
  decide +kernel

/-- The data of an instruction that sets a price: its tag, and the price in
    little-endian order. -/
def setComputeUnitPrice (price : UInt64) : Bytes :=
  3 :: (List.range 8).map fun i => UInt8.ofNat (price.toNat / 256 ^ i)

/-- The processor on messages that have no compute-budget instruction, or one that
    sets a price. -/
def priceProcessor : ComputeBudgetProcessor := fun instructions =>
  match instructions.filter fun p => p.1 = computeBudgetProgram with
  | [] => .ok 0
  | [(_, ix)] =>
    match ix.data with
    | 3 :: price =>
      if price.length = 8 then
        .ok (UInt64.ofNat (price.foldr (fun b rest => b.toNat + 256 * rest) 0))
      else .error "InvalidInstructionData"
    | _ => .error "InvalidInstructionData"
  | _ => .error "DuplicateInstruction"

/-- A transaction that landed, with one instruction, which sets a price. -/
def setPriceTransaction (payer : Pubkey) (price : UInt64) :
    Proto.SubscribeUpdateTransactionInfo where
  isVote := false
  transaction := some ⟨some ⟨some ⟨1, 0, 1⟩, [payer.bytes, computeBudgetProgram.bytes],
    [⟨1, [], setComputeUnitPrice price⟩], none⟩⟩
  statusMeta := some { err := none, loadedWritableAddresses := [] }

/-- 420 lamports over 42000 units, against an instruction that sets the price 10000
    for each unit, and against the same fee over twice the limit. -/
theorem v1_rates_exact_transfer :
    let transfer : Proto.TransactionConfig := ⟨some 420, some 42000⟩
    let setPrice : CompiledInstruction := ⟨0, setComputeUnitPrice 10000, []⟩
    (∃ rate, v1PriorityRate transfer = some rate ∧ rate.toNat = 10000) ∧
    resolvePriorityRate priceProcessor (some transfer) [] [] =
      resolvePriorityRate priceProcessor none [computeBudgetProgram] [setPrice] ∧
    ∃ rate rate', v1PriorityRate ⟨some 420, some 84000⟩ = some rate ∧
      v1PriorityRate transfer = some rate' ∧ rate ≤ rate' := by
  intro transfer setPrice
  obtain ⟨-, hexact, hprice, hmono⟩ := v1_rates_exact
  refine ⟨?_, ?_, ?_⟩
  · obtain ⟨rate, hrate, hnat⟩ := (hexact transfer 42000 rfl (by decide)).2.2.1 (by decide)
    exact ⟨rate, hrate, hnat.trans (by decide)⟩
  · exact (hprice 10000 42000 (by decide) (by decide) (by decide) (by decide) transfer (by decide)
      rfl priceProcessor [] [] [computeBudgetProgram] [setPrice]).2 (by decide)
  · exact hmono ⟨some 420, some 84000⟩ transfer 84000 42000 rfl rfl (by decide) (by decide)
      (by decide) (by decide)

-- ════════════════════════════════════════════════════════════════════════
-- Messages without configuration
-- ════════════════════════════════════════════════════════════════════════

/-- Two partial maps of which one is defined wherever the other is give the same
    results along a list exactly when they agree on it. -/
theorem filterMap_eq_filterMap_iff {α β : Type*} {f g : α → Option β} {l : List α}
    (h : ∀ a ∈ l, (g a).isSome → (f a).isSome) :
    l.filterMap f = l.filterMap g ↔ ∀ a ∈ l, f a = g a := by
  refine ⟨fun heq => ?_, List.filterMap_congr⟩
  induction l with
  | nil => simp
  | cons a l ih =>
    have htail : ∀ b ∈ l, (g b).isSome → (f b).isSome := fun b hb => h b (by simp [hb])
    cases hf : f a with
    | none =>
      have hg : g a = none := by
        by_contra hg
        have := h a (by simp) (Option.isSome_iff_ne_none.mpr hg)
        simp [hf] at this
      rw [List.filterMap_cons_none hf, List.filterMap_cons_none hg] at heq
      simpa [hf, hg] using ih htail heq
    | some b =>
      cases hg : g a with
      | none =>
        -- then the first list is longer: it has `b`, and no fewer values after it
        have hle : (l.filterMap g).length ≤ (l.filterMap f).length := by
          rw [List.length_filterMap_eq_countP, List.length_filterMap_eq_countP]
          exact List.countP_mono_left htail
        rw [List.filterMap_cons_some hf, List.filterMap_cons_none hg] at heq
        have hlength := congrArg List.length heq
        rw [List.length_cons] at hlength
        omega
      | some c =>
        rw [List.filterMap_cons_some hf, List.filterMap_cons_some hg, List.cons.injEq] at heq
        obtain ⟨rfl, heq⟩ := heq
        simpa [hf, hg] using ih htail heq

/-- The price of a message of the update stream. -/
def messageRate (process : ComputeBudgetProcessor) (message : Proto.Message) : Option UInt64 :=
  match extractFromMessage message with
  | .error _ => none
  | .ok (accounts, instructions, _, config) =>
    resolvePriorityRate process config accounts instructions

/-- The instructions of a message whose index is that of a key, in order, each
    with this key. -/
def namedInstructions (accounts : List Pubkey) (message : Proto.Message) :
    List (Pubkey × CompiledInstruction) :=
  message.instructions.filterMap fun ix =>
    accounts[ix.programIdIndex.toNat]?.map fun key => (key, compiledInstruction ix)

/-- An index beyond the byte range names the same key as its low byte, or neither
    of the two names a key. -/
def Proto.Message.LowBytesName (message : Proto.Message) (accounts : List Pubkey) : Prop :=
  ∀ ix ∈ message.instructions, 256 ≤ ix.programIdIndex.toNat →
    accounts[ix.programIdIndex.toNat % 256]? = accounts[ix.programIdIndex.toNat]?

/-- The instructions that the processor is given: each has the key that the low
    byte of its index names. -/
def assignedInstructions (accounts : List Pubkey) (message : Proto.Message) :
    List (Pubkey × CompiledInstruction) :=
  message.instructions.filterMap fun ix =>
    accounts[ix.programIdIndex.toNat % 256]?.map fun key => (key, compiledInstruction ix)

theorem messageRate_eq (process : ComputeBudgetProcessor) {message : Proto.Message}
    {accounts : List Pubkey} (hconfig : message.config = none)
    (hkeys : message.accountKeys = accounts.map Pubkey.bytes) :
    messageRate process message = (process (assignedInstructions accounts message)).toOption := by
  have hextract := extractFromMessage_eq_ok_iff.mpr ⟨hkeys, rfl, rfl, hconfig.symm⟩
  have hlist : ((compiledInstructions message).filterMap fun ix =>
      accounts[ix.programIdIndex.toNat]?.map fun account => (account, ix)) =
      assignedInstructions accounts message := by
    rw [compiledInstructions, List.filterMap_map]
    apply List.filterMap_congr
    intro ix _
    show accounts[ix.programIdIndex.toUInt8.toNat]?.map _ = _
    rw [UInt32.toNat_toUInt8]
  simp only [messageRate, hextract, resolvePriorityRate,
    ComputeBudgetProcessor.calculatePriorityFeeDetails, hlist]
  cases process (assignedInstructions accounts message) with
  | ok rate => rfl
  | error e => rfl

/-- An instruction with an index in range is never left out, and no two keys give
    the same pair. -/
theorem assignedInstructions_eq_iff (accounts : List Pubkey) (message : Proto.Message) :
    assignedInstructions accounts message = namedInstructions accounts message ↔
      message.LowBytesName accounts := by
  rw [assignedInstructions, namedInstructions, filterMap_eq_filterMap_iff]
  · constructor
    · intro h ix hix _
      have hinj : Function.Injective fun key : Pubkey => (key, compiledInstruction ix) :=
        fun _ _ he => (Prod.mk.inj he).1
      exact Option.map_injective hinj (h ix hix)
    · intro h ix hix
      by_cases hbyte : 256 ≤ ix.programIdIndex.toNat
      · rw [h ix hix hbyte]
      · rw [Nat.mod_eq_of_lt (not_le.mp hbyte)]
  · intro ix _ hsome
    rw [Option.isSome_map, Option.isSome_iff_ne_none, Ne, List.getElem?_eq_none_iff, not_le]
      at hsome ⊢
    exact (Nat.mod_le _ _).trans_lt hsome

/-- The message without the instructions whose index is out of range. -/
def Proto.Message.inRange (message : Proto.Message) (accounts : List Pubkey) : Proto.Message :=
  { message with
    instructions := message.instructions.filter fun ix =>
      ix.programIdIndex.toNat < accounts.length }

theorem namedInstructions_inRange (accounts : List Pubkey) (message : Proto.Message) :
    namedInstructions accounts (message.inRange accounts) = namedInstructions accounts message := by
  rw [namedInstructions, namedInstructions, Proto.Message.inRange, List.filterMap_filter]
  apply List.filterMap_congr
  intro ix _
  by_cases h : ix.programIdIndex.toNat < accounts.length
  · rw [if_pos (decide_eq_true h)]
  · rw [if_neg (by simpa using h), List.getElem?_eq_none (not_lt.mp h), Option.map_none]

theorem Proto.Message.LowBytesName.inRange {message : Proto.Message} {accounts : List Pubkey}
    (h : message.LowBytesName accounts) : (message.inRange accounts).LowBytesName accounts :=
  fun ix hix => h ix (List.mem_of_mem_filter hix)

/-- For a message without configuration whose keys are accounts: the processor
    is given the named instructions, and those with an index out of range do not
    matter, exactly when cutting the indexes to their low bytes changes no key. -/
theorem named_programs_iff {message : Proto.Message} {accounts : List Pubkey}
    (hconfig : message.config = none)
    (hkeys : message.accountKeys = accounts.map Pubkey.bytes) :
    (∀ process : ComputeBudgetProcessor,
      messageRate process message = (process (namedInstructions accounts message)).toOption ∧
      messageRate process (message.inRange accounts) = messageRate process message) ↔
      message.LowBytesName accounts := by
  rw [← assignedInstructions_eq_iff]
  constructor
  · intro h
    by_contra hne
    -- a processor that prices the named instructions apart from all others
    have hrate := (h fun l => if l = namedInstructions accounts message then .ok 0 else .ok 1).1
    rw [messageRate_eq _ hconfig hkeys, if_neg hne, if_pos rfl] at hrate
    simp [Except.toOption] at hrate
  · intro heq process
    have hlow := ((assignedInstructions_eq_iff accounts message).mp heq).inRange
    have hrate : messageRate process message =
        (process (namedInstructions accounts message)).toOption := by
      rw [messageRate_eq process hconfig hkeys, heq]
    have hinRange : messageRate process (message.inRange accounts) =
        (process (namedInstructions accounts (message.inRange accounts))).toOption := by
      rw [← (assignedInstructions_eq_iff _ _).mpr hlow]
      exact messageRate_eq process hconfig hkeys
    rw [hinRange, namedInstructions_inRange]
    exact ⟨hrate, hrate.symm⟩

/-- A message with two keys, one instruction that names the second and sets a
    price, and one whose key is missing. -/
theorem named_programs_iff_two :
    let accounts := [Pubkey.filled 1, computeBudgetProgram]
    let message : Proto.Message := ⟨none, accounts.map Pubkey.bytes,
      [⟨1, [], setComputeUnitPrice 7000⟩, ⟨2, [], setComputeUnitPrice 8000⟩], none⟩
    messageRate priceProcessor message = some 7000 ∧
      messageRate priceProcessor (message.inRange accounts) = some 7000 := by
  intro accounts message
  have hlow : message.LowBytesName accounts := by
    intro ix hix hbyte
    simp only [message, List.mem_cons, List.not_mem_nil, or_false] at hix
    rcases hix with rfl | rfl <;> simp at hbyte
  obtain ⟨hrate, hinRange⟩ := (named_programs_iff rfl rfl).mpr hlow priceProcessor
  have hnamed : (priceProcessor (namedInstructions accounts message)).toOption = some 7000 := by
    decide
  exact ⟨hrate.trans hnamed, hinRange.trans (hrate.trans hnamed)⟩

/-- Index 256 names no key of a message with one key, yet the processor is given
    the instruction with this key, and it sets the price. -/
theorem named_programs_cut :
    let accounts := [computeBudgetProgram]
    let message : Proto.Message :=
      ⟨none, accounts.map Pubkey.bytes, [⟨256, [], setComputeUnitPrice 5000⟩], none⟩
    namedInstructions accounts message = [] ∧
      messageRate priceProcessor message = some 5000 ∧
      (priceProcessor (namedInstructions accounts message)).toOption = some 0 ∧
      messageRate priceProcessor (message.inRange accounts) = some 0 := by
  decide

end PriorityFeeEstimator
