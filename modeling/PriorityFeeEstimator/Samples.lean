import Mathlib
import PriorityFeeEstimator.Calculation

/-!
# What the calculations collect

The sample of each group, as a function of the values visited. A visited slot
contributes its counted Global fees to the Global sample. To the sample of an
account it contributes the counted fees of the account's entry, or a zero when
there is no entry and empty slots count.
-/

namespace PriorityFeeEstimator

namespace SlotPriorityFees

/-- What a slot contributes to the Global sample. -/
def globalPart (s : SlotPriorityFees) (includeVote : Bool) : List ℚ := s.fees.counted includeVote

/-- What a slot contributes to the sample of an account that is requested once. -/
def accountPart (s : SlotPriorityFees) (includeVote includeEmptySlots : Bool) (a : Pubkey) :
    List ℚ :=
  match s.accountFees.lookup a with
  | some f => f.counted includeVote
  | none => if includeEmptySlots then [0] else []

/-- None of the accounts has an entry in the slot. -/
def Untouched (s : SlotPriorityFees) (accounts : List Pubkey) : Prop :=
  ∀ a ∈ accounts, a ∉ s.accountFees

instance (s : SlotPriorityFees) (accounts : List Pubkey) : Decidable (s.Untouched accounts) :=
  inferInstanceAs (Decidable (∀ a ∈ accounts, a ∉ s.accountFees))

/-- What a slot contributes to the sample of all requested accounts. -/
def allAccountsPart (s : SlotPriorityFees) (includeVote includeEmptySlots : Bool)
    (accounts : List Pubkey) : List ℚ :=
  accounts.flatMap (s.accountPart includeVote false) ++
    if accounts ≠ [] ∧ s.Untouched accounts ∧ includeEmptySlots = true then [0] else []

/-- Without zero fill a slot contributes to the pooled sample what it contributes
    to the samples of the accounts. -/
theorem coe_allAccountsPart (s : SlotPriorityFees) (includeVote : Bool)
    (accounts : List Pubkey) :
    ((s.allAccountsPart includeVote false accounts : List ℚ) : Multiset ℚ) =
      (accounts.map fun a => (↑(s.accountPart includeVote false a) : Multiset ℚ)).sum := by
  simp only [allAccountsPart, Bool.false_eq_true, and_false, if_false, List.append_nil]
  induction accounts with
  | nil => rfl
  | cons a accounts ih => simp [← ih]

theorem accountPart_of_lookup {s : SlotPriorityFees} {a : Pubkey} {f : Fees}
    (h : s.accountFees.lookup a = some f) (includeVote includeEmptySlots : Bool) :
    s.accountPart includeVote includeEmptySlots a = f.counted includeVote := by
  rw [accountPart, h]

theorem accountPart_of_notMem {s : SlotPriorityFees} {a : Pubkey} (h : a ∉ s.accountFees)
    (includeVote includeEmptySlots : Bool) :
    s.accountPart includeVote includeEmptySlots a = if includeEmptySlots then [0] else [] := by
  rw [accountPart, AList.lookup_eq_none.mpr h]

end SlotPriorityFees

open SlotPriorityFees

/-- A sample whose parts are split by a key is split by the key. -/
theorem coe_flatMap_eq_sum {ι : Type*} (keys : List ι) (vs : List SlotPriorityFees)
    {part : SlotPriorityFees → List ℚ} {parts : SlotPriorityFees → ι → List ℚ}
    (h : ∀ v ∈ vs, (part v : Multiset ℚ) = (keys.map fun k => (parts v k : Multiset ℚ)).sum) :
    ((vs.flatMap part : List ℚ) : Multiset ℚ) =
      (keys.map fun k => ((vs.flatMap (parts · k) : List ℚ) : Multiset ℚ)).sum := by
  induction vs with
  | nil => simp
  | cons v vs ih =>
    simp only [List.flatMap_cons, ← Multiset.coe_add, List.sum_map_add]
    rw [h v (by simp), ih fun x hx => h x (by simp [hx])]

namespace V1

variable {accounts : List Pubkey} {includeVote includeEmptySlots : Bool}

private theorem foldl_visitAccount (s : SlotPriorityFees) (accounts : List Pubkey)
    (acc : List ℚ × Bool) :
    accounts.foldl (visitAccount includeVote s) acc =
      (acc.1 ++ accounts.flatMap (s.accountPart includeVote false),
        acc.2 || !decide (s.Untouched accounts)) := by
  induction accounts generalizing acc with
  | nil => simp [Untouched]
  | cons a accounts ih =>
    rw [List.foldl_cons, ih, List.flatMap_cons, ← List.append_assoc]
    by_cases ha : a ∈ s.accountFees
    · obtain ⟨f, hf⟩ := Table.mem_iff_exists_lookup.mp ha
      have hu : ¬s.Untouched (a :: accounts) := fun h => h a (by simp) ha
      simp [visitAccount, hf, extendFees_eq, accountPart_of_lookup hf, hu]
    · have hl := AList.lookup_eq_none.mpr ha
      have hu : s.Untouched (a :: accounts) ↔ s.Untouched accounts := by simp [Untouched, ha]
      simp [visitAccount, hl, accountPart_of_notMem ha, hu]

/-- A visit adds the part of the slot to each of the two samples. -/
theorem visitSlot_eq (acc : Acc) (s : SlotPriorityFees) :
    visitSlot accounts includeVote includeEmptySlots acc s =
      ⟨acc.globalFees ++ s.globalPart includeVote,
        acc.accountFees ++ s.allAccountsPart includeVote includeEmptySlots accounts⟩ := by
  rw [visitSlot, extendFees_eq]
  by_cases hne : accounts = []
  · subst hne
    simp [globalPart, allAccountsPart]
  · rw [if_pos (List.length_pos_iff.mpr hne), foldl_visitAccount]
    by_cases hu : s.Untouched accounts
    · cases includeEmptySlots <;> simp [globalPart, allAccountsPart, hne, hu]
    · simp [globalPart, allAccountsPart, hu]

theorem foldl_visitSlot (vs : List SlotPriorityFees) (acc : Acc) :
    vs.foldl (visitSlot accounts includeVote includeEmptySlots) acc =
      ⟨acc.globalFees ++ vs.flatMap (·.globalPart includeVote),
        acc.accountFees ++ vs.flatMap (·.allAccountsPart includeVote includeEmptySlots accounts)⟩
      := by
  induction vs generalizing acc with
  | nil => simp
  | cons v vs ih => rw [List.foldl_cons, ih, visitSlot_eq]; simp

theorem mem_finish_iff (acc : Acc) (d : DataType) :
    d ∈ finish acc ↔ d = .global ∨ d = .allAccounts := by
  rw [finish, AList.mem_insert, AList.mem_insert]
  simp [or_comm]

theorem sample_global (vs : List SlotPriorityFees) :
    (finish (vs.foldl (visitSlot accounts includeVote includeEmptySlots) ⟨[], []⟩)).sample .global
      = vs.flatMap (·.globalPart includeVote) := by
  rw [foldl_visitSlot, DataStats.sample, finish, AList.lookup_insert_ne (by simp),
    AList.lookup_insert]
  rfl

theorem sample_allAccounts (vs : List SlotPriorityFees) :
    (finish (vs.foldl (visitSlot accounts includeVote includeEmptySlots) ⟨[], []⟩)).sample
        .allAccounts
      = vs.flatMap (·.allAccountsPart includeVote includeEmptySlots accounts) := by
  rw [foldl_visitSlot, DataStats.sample, finish, AList.lookup_insert]
  rfl

end V1

namespace V2

variable {accounts : List Pubkey} {includeVote includeEmptySlots : Bool}

private theorem sample_upsert (data : DataStats) (d x : DataType) (f : Option (List ℚ) → List ℚ) :
    DataStats.sample (data.upsert d f) x =
      if x = d then f (data.lookup d) else data.sample x := by
  rw [DataStats.sample, Table.lookup_upsert]
  split <;> rfl

private theorem mem_upsert (data : DataStats) (d x : DataType) (f : Option (List ℚ) → List ℚ) :
    x ∈ data.upsert d f ↔ x = d ∨ x ∈ data :=
  AList.mem_insert data

private theorem visitAccount_value (s : SlotPriorityFees) (fees : List ℚ) (a : Pubkey) :
    (match s.accountFees.lookup a with
      | some accountPriorityFees => extendFees includeVote fees accountPriorityFees
      | none => if includeEmptySlots then fees ++ [0] else fees)
      = fees ++ s.accountPart includeVote includeEmptySlots a := by
  unfold accountPart
  cases s.accountFees.lookup a with
  | none => cases includeEmptySlots <;> simp
  | some f => exact extendFees_eq includeVote fees f

/-- One account: its own sample grows by its part, the others stay. -/
private theorem sample_visitAccount (s : SlotPriorityFees) (data : DataStats) (a : Pubkey)
    (d : DataType) :
    DataStats.sample (visitAccount includeVote includeEmptySlots s data a) d =
      if d = .account a then
        data.sample d ++ s.accountPart includeVote includeEmptySlots a
      else data.sample d := by
  rw [visitAccount, sample_upsert]
  split
  · next h => subst h; exact visitAccount_value s _ a
  · rfl

private theorem sample_foldl_visitAccount (s : SlotPriorityFees) (accounts : List Pubkey)
    (data : DataStats) (a : Pubkey) :
    DataStats.sample (accounts.foldl (visitAccount includeVote includeEmptySlots s) data)
        (.account a) =
      data.sample (.account a) ++ (List.replicate (accounts.count a)
        (s.accountPart includeVote includeEmptySlots a)).flatten := by
  induction accounts generalizing data with
  | nil => simp
  | cons b accounts ih =>
    rw [List.foldl_cons, ih, sample_visitAccount]
    by_cases h : b = a
    · subst h
      rw [if_pos rfl, List.count_cons_self, List.replicate_succ, List.flatten_cons,
        List.append_assoc]
    · rw [if_neg (by simpa using Ne.symm h), List.count_cons_of_ne h]

private theorem sample_foldl_visitAccount_of_ne (s : SlotPriorityFees) (accounts : List Pubkey)
    (data : DataStats) {d : DataType} (hd : ∀ a, d ≠ .account a) :
    DataStats.sample (accounts.foldl (visitAccount includeVote includeEmptySlots s) data) d =
      data.sample d := by
  induction accounts generalizing data with
  | nil => rfl
  | cons b accounts ih => rw [List.foldl_cons, ih, sample_visitAccount, if_neg (hd b)]

private theorem mem_foldl_visitAccount (s : SlotPriorityFees) (accounts : List Pubkey)
    (data : DataStats) (d : DataType) :
    d ∈ accounts.foldl (visitAccount includeVote includeEmptySlots s) data ↔
      d ∈ data ∨ ∃ a ∈ accounts, d = .account a := by
  induction accounts generalizing data with
  | nil => simp
  | cons b accounts ih =>
    rw [List.foldl_cons, ih, visitAccount, mem_upsert]
    simp only [List.mem_cons, exists_eq_or_imp]
    tauto

/-- A visit adds the part of the slot to the Global sample. -/
theorem sample_visitSlot_global (data : DataStats) (s : SlotPriorityFees) :
    DataStats.sample (visitSlot accounts includeVote includeEmptySlots data s) .global =
      data.sample .global ++ s.globalPart includeVote := by
  rw [visitSlot, sample_foldl_visitAccount_of_ne _ _ _ (by simp), sample_upsert, if_pos rfl,
    extendFees_eq]
  rfl

/-- A visit adds the part of an account to its sample, as often as the account
    is requested. -/
theorem sample_visitSlot_account (data : DataStats) (s : SlotPriorityFees) (a : Pubkey) :
    DataStats.sample (visitSlot accounts includeVote includeEmptySlots data s) (.account a) =
      data.sample (.account a) ++ (List.replicate (accounts.count a)
        (s.accountPart includeVote includeEmptySlots a)).flatten := by
  rw [visitSlot, sample_foldl_visitAccount, sample_upsert, if_neg (by simp)]

theorem mem_visitSlot_iff (data : DataStats) (s : SlotPriorityFees) (d : DataType) :
    d ∈ visitSlot accounts includeVote includeEmptySlots data s ↔
      d ∈ data ∨ d = .global ∨ ∃ a ∈ accounts, d = .account a := by
  rw [visitSlot, mem_foldl_visitAccount, mem_upsert]
  tauto

/-- The samples after visits to the slots `vs`. -/
abbrev visits (accounts : List Pubkey) (includeVote includeEmptySlots : Bool)
    (vs : List SlotPriorityFees) : DataStats :=
  vs.foldl (visitSlot accounts includeVote includeEmptySlots) ∅

theorem sample_global (vs : List SlotPriorityFees) :
    (visits accounts includeVote includeEmptySlots vs).sample .global =
      vs.flatMap (·.globalPart includeVote) := by
  induction vs using List.reverseRecOn with
  | nil => rfl
  | append_singleton vs v ih => simp [visits, sample_visitSlot_global, ih]

theorem sample_account (vs : List SlotPriorityFees) (a : Pubkey) :
    (visits accounts includeVote includeEmptySlots vs).sample (.account a) =
      vs.flatMap fun v => (List.replicate (accounts.count a)
        (v.accountPart includeVote includeEmptySlots a)).flatten := by
  induction vs using List.reverseRecOn with
  | nil => rfl
  | append_singleton vs v ih => simp [visits, sample_visitSlot_account, ih]

/-- The groups collected: Global and the requested accounts, from the first
    visit on. -/
theorem mem_visits_iff (vs : List SlotPriorityFees) (d : DataType) :
    d ∈ visits accounts includeVote includeEmptySlots vs ↔
      vs ≠ [] ∧ (d = .global ∨ ∃ a ∈ accounts, d = .account a) := by
  induction vs using List.reverseRecOn with
  | nil => simp [visits]
  | append_singleton vs v ih =>
    rw [visits, List.foldl_concat, mem_visitSlot_iff, ih]
    simp only [ne_eq, List.append_eq_nil_iff, List.cons_ne_self, and_false, not_false_eq_true,
      true_and]
    tauto

/-- The sample of an account requested once. -/
theorem sample_account_of_count_eq_one (vs : List SlotPriorityFees) {a : Pubkey}
    (h : accounts.count a = 1) :
    (visits accounts includeVote includeEmptySlots vs).sample (.account a) =
      vs.flatMap (·.accountPart includeVote includeEmptySlots a) := by
  simp [sample_account, h]

end V2

/-- The samples of Calculation 1 are its visits to the slots found. -/
theorem V1.getPriorityFeeEstimates_eq (o : IterOrder Slot) (accounts : List Pubkey)
    (includeVote includeEmptySlots : Bool) (lookback : Option UInt32) (m : PriorityFeesBySlot) :
    V1.getPriorityFeeEstimates o accounts includeVote includeEmptySlots lookback m =
      V1.finish ((lookbackValues o lookback m).foldl
        (V1.visitSlot accounts includeVote includeEmptySlots) ⟨[], []⟩) :=
  Sampler.estimates_eq _ o lookback m

/-- The samples of Calculation 2 are its visits to the slots found. -/
theorem V2.getPriorityFeeEstimates_eq (o : IterOrder Slot) (accounts : List Pubkey)
    (includeVote includeEmptySlots : Bool) (lookback : Option UInt32) (m : PriorityFeesBySlot) :
    V2.getPriorityFeeEstimates o accounts includeVote includeEmptySlots lookback m =
      V2.visits accounts includeVote includeEmptySlots (lookbackValues o lookback m) :=
  Sampler.estimates_eq _ o lookback m

theorem DataStats.sample_of_notMem {data : DataStats} {d : DataType} (h : d ∉ data) :
    data.sample d = [] := by
  rw [sample, AList.lookup_eq_none.mpr h]
  rfl

namespace Calculations

/-- What a visited slot contributes to the sample of a group. -/
def part (c : Calculations) (s : SlotPriorityFees) (d : DataType) : List ℚ :=
  match c, d with
  | calculation1 _ includeVote _ _, .global => s.globalPart includeVote
  | calculation1 accounts includeVote includeEmptySlots _, .allAccounts =>
    s.allAccountsPart includeVote includeEmptySlots accounts
  | calculation1 _ _ _ _, .account _ => []
  | calculation2 _ includeVote _ _, .global => s.globalPart includeVote
  | calculation2 _ _ _ _, .allAccounts => []
  | calculation2 accounts includeVote includeEmptySlots _, .account a =>
    (List.replicate (accounts.count a) (s.accountPart includeVote includeEmptySlots a)).flatten

/-- The sample of a group is put together from the parts of the slots visited. -/
theorem sample_foldl_visit (c : Calculations) (vs : List SlotPriorityFees) (d : DataType) :
    (c.sampler.finish (vs.foldl c.sampler.visit c.sampler.init)).sample d =
      vs.flatMap (c.part · d) := by
  cases c with
  | calculation1 accounts includeVote includeEmptySlots lookback =>
    cases d with
    | global => exact V1.sample_global vs
    | allAccounts => exact V1.sample_allAccounts vs
    | account a =>
      refine (DataStats.sample_of_notMem ?_).trans (by simp [part])
      exact mt (V1.mem_finish_iff _ _).mp (by simp)
  | calculation2 accounts includeVote includeEmptySlots lookback =>
    cases d with
    | global => exact V2.sample_global vs
    | allAccounts =>
      refine (DataStats.sample_of_notMem ?_).trans (by simp [part])
      exact mt (V2.mem_visits_iff vs _).mp (by simp)
    | account a => exact V2.sample_account vs a

theorem sample_getPriorityFeeEstimates (o : IterOrder Slot) (c : Calculations)
    (m : PriorityFeesBySlot) (d : DataType) :
    (c.getPriorityFeeEstimates o m).sample d =
      (lookbackValues o c.lookbackPeriod m).flatMap (c.part · d) := by
  rw [getPriorityFeeEstimates_eq, Sampler.estimates_eq, sample_foldl_visit]

end Calculations

-- ════════════════════════════════════════════════════════════════════════
-- The values of the samples
-- ════════════════════════════════════════════════════════════════════════

theorem SlotPriorityFees.mem_accountPart {s : SlotPriorityFees}
    {includeVote includeEmptySlots : Bool} {a : Pubkey} {q : ℚ}
    (h : q ∈ s.accountPart includeVote includeEmptySlots a) :
    q = 0 ∨ ∃ f, s.accountFees.lookup a = some f ∧ q ∈ f.counted includeVote := by
  cases hf : s.accountFees.lookup a with
  | none =>
    rw [accountPart_of_notMem (AList.lookup_eq_none.mp hf)] at h
    split at h
    · exact .inl (List.mem_singleton.mp h)
    · cases h
  | some f =>
    rw [accountPart_of_lookup hf] at h
    exact .inr ⟨f, rfl, h⟩

/-- What a slot contributes to a sample is a fill-in zero, or a counted fee of its
    Global lists or of the lists of an account. -/
theorem Calculations.mem_part {c : Calculations} {s : SlotPriorityFees} {d : DataType} {q : ℚ}
    (h : q ∈ c.part s d) :
    q = 0 ∨ q ∈ s.globalPart c.includeVote ∨
      ∃ a f, s.accountFees.lookup a = some f ∧ q ∈ f.counted c.includeVote := by
  cases c with
  | calculation1 accounts includeVote includeEmptySlots lookback =>
    cases d with
    | global => exact .inr (.inl h)
    | allAccounts =>
      change q ∈ s.allAccountsPart includeVote includeEmptySlots accounts at h
      rw [allAccountsPart, List.mem_append, List.mem_flatMap] at h
      rcases h with ⟨a, -, hq⟩ | hq
      · exact (mem_accountPart hq).imp_right fun hf => .inr ⟨a, hf⟩
      · split at hq
        · exact .inl (List.mem_singleton.mp hq)
        · cases hq
    | account a => cases h
  | calculation2 accounts includeVote includeEmptySlots lookback =>
    cases d with
    | global => exact .inr (.inl h)
    | allAccounts => cases h
    | account a =>
      obtain ⟨part, hpart, hq⟩ := List.mem_flatten.mp h
      rw [List.eq_of_mem_replicate hpart] at hq
      exact (mem_accountPart hq).imp_right fun hf => .inr ⟨a, hf⟩

/-- Every fee of the lists has the property. -/
structure Fees.All (P : ℚ → Prop) (f : Fees) : Prop where
  nonVote : ∀ q ∈ f.nonVoteFees, P q
  vote : ∀ q ∈ f.voteFees, P q

/-- Every fee of the slot has the property, Global or under an account. -/
structure SlotPriorityFees.AllFees (P : ℚ → Prop) (s : SlotPriorityFees) : Prop where
  fees : s.fees.All P
  account : ∀ a f, s.accountFees.lookup a = some f → f.All P

/-- Every fee of the store has the property. -/
def AllFees (P : ℚ → Prop) (m : PriorityFeesBySlot) : Prop :=
  ∀ s v, m.lookup s = some v → v.AllFees P

theorem Fees.All.counted {P : ℚ → Prop} {f : Fees} (h : f.All P) {includeVote : Bool} {q : ℚ}
    (hq : q ∈ f.counted includeVote) : P q := by
  cases includeVote with
  | false => exact h.nonVote q hq
  | true => exact (List.mem_append.mp hq).elim (h.vote q) (h.nonVote q)

theorem AllFees.imp {P Q : ℚ → Prop} {m : PriorityFeesBySlot} (h : AllFees P m)
    (hPQ : ∀ q, P q → Q q) : AllFees Q m := by
  have hfees : ∀ f : Fees, f.All P → f.All Q := fun f hf =>
    ⟨fun q hq => hPQ q (hf.nonVote q hq), fun q hq => hPQ q (hf.vote q hq)⟩
  intro s v hv
  exact ⟨hfees _ (h s v hv).fees, fun a f hf => hfees f ((h s v hv).account a f hf)⟩

/-- A property of zero and of every fee of the store is one of every value of a
    sample. -/
theorem AllFees.sample {P : ℚ → Prop} (h0 : P 0) {m : PriorityFeesBySlot} (h : AllFees P m)
    {o : IterOrder Slot} {c : Calculations} {d : DataType} {q : ℚ}
    (hq : q ∈ (c.getPriorityFeeEstimates o m).sample d) : P q := by
  rw [Calculations.sample_getPriorityFeeEstimates, List.mem_flatMap] at hq
  obtain ⟨v, hv, hq⟩ := hq
  rw [lookbackValues, List.mem_filterMap] at hv
  obtain ⟨s, -, hs⟩ := hv
  have hv := h s v hs
  rcases Calculations.mem_part hq with rfl | hq | ⟨a, f, hf, hq⟩
  · exact h0
  · exact hv.fees.counted hq
  · exact (hv.account a f hf).counted hq

end PriorityFeeEstimator
