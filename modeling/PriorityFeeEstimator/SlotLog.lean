import Mathlib
import PriorityFeeEstimator.Model

/-!
# The fee lists of a slot, read off its log

The first transaction of a slot is stored by `newWithVersion` and every later
one by `update`. `ofLog` is the value this leaves after a list of transactions.
This file computes it: the Global lists hold the fee of every transaction, the
lists of a version hold the fees of the transactions of that version, and the
lists of an account hold the fees of the transactions that touched it, once for
the first transaction of the slot and once for each occurrence of the account
in a later one.
-/

namespace PriorityFeeEstimator

/-- The fee of a transaction as the store holds it. -/
def Txn.fee (t : Txn) : ℚ := u64AsF64 t.priorityFee

namespace Fees

/-- The fees of a list of transactions, in order, split by vote. -/
def ofTxns (l : List Txn) : Fees where
  nonVoteFees := (l.filter fun t => !t.isVote).map Txn.fee
  voteFees := (l.filter fun t => t.isVote).map Txn.fee

/-- The entry a table holds under a key with the given transactions: none at all
    for a key without transactions. -/
def recorded (l : List Txn) : Option Fees :=
  if l = [] then Option.none else some (ofTxns l)

/-- The fees a request counts: those of votes only when votes are included. -/
def counted (includeVote : Bool) (f : Fees) : List ℚ :=
  (if includeVote then f.voteFees else []) ++ f.nonVoteFees

@[simp] theorem ofTxns_nil : ofTxns [] = none := rfl

theorem ofTxns_concat (l : List Txn) (t : Txn) :
    ofTxns (l ++ [t]) = (ofTxns l).addFee t.fee t.isVote := by
  cases h : t.isVote <;> simp [ofTxns, addFee, List.filter_append, h]

/-- The fees of `f` followed by those of `g`. -/
def append (f g : Fees) : Fees where
  nonVoteFees := f.nonVoteFees ++ g.nonVoteFees
  voteFees := f.voteFees ++ g.voteFees

@[simp] theorem none_append (f : Fees) : none.append f = f := rfl

theorem append_assoc (f g h : Fees) : (f.append g).append h = f.append (g.append h) := by
  simp [append]

theorem ofTxns_append (l l' : List Txn) : ofTxns (l ++ l') = (ofTxns l).append (ofTxns l') := by
  simp [ofTxns, append]

theorem append_ofTxns_singleton (f : Fees) (t : Txn) :
    f.append (ofTxns [t]) = f.addFee t.fee t.isVote := by
  cases h : t.isVote <;> simp [append, ofTxns, addFee, h]

@[simp] theorem recorded_nil : recorded [] = Option.none := rfl

theorem recorded_of_ne_nil {l : List Txn} (h : l ≠ []) : recorded l = some (ofTxns l) :=
  if_neg h

/-- An absent entry counts as empty lists. -/
@[simp] theorem recorded_getD (l : List Txn) : (recorded l).getD none = ofTxns l := by
  by_cases h : l = []
  · subst h; rfl
  · rw [recorded_of_ne_nil h, Option.getD_some]

/-- The entry of a key after more transactions under it: a missing entry is
    created, and the fees are added in order. -/
def extended (entry : Option Fees) (l : List Txn) : Option Fees :=
  if l = [] then entry else some ((entry.getD none).append (ofTxns l))

@[simp] theorem extended_nil (entry : Option Fees) : extended entry [] = entry := if_pos rfl

theorem extended_of_ne_nil (entry : Option Fees) {l : List Txn} (h : l ≠ []) :
    extended entry l = some ((entry.getD none).append (ofTxns l)) := if_neg h

theorem extended_append (entry : Option Fees) (l l' : List Txn) :
    extended (extended entry l) l' = extended entry (l ++ l') := by
  by_cases hl : l = []
  · rw [hl, extended_nil, List.nil_append]
  by_cases hl' : l' = []
  · rw [hl', extended_nil, List.append_nil]
  rw [extended_of_ne_nil _ hl', extended_of_ne_nil _ hl, extended_of_ne_nil _ (by simp [hl]),
    Option.getD_some, append_assoc, ofTxns_append]

theorem recorded_eq_extended (l : List Txn) : recorded l = extended Option.none l := by
  rw [recorded, extended, Option.getD_none, none_append]

/-- One transaction more: what `and_modify(add_fee).or_insert(new)` leaves. -/
theorem extended_singleton (entry : Option Fees) (t : Txn) :
    extended entry [t] = some (match entry with
      | Option.none => new (u64AsF64 t.priorityFee) t.isVote
      | some fees => fees.addFee (u64AsF64 t.priorityFee) t.isVote) := by
  rw [extended_of_ne_nil _ (by simp)]
  cases entry with
  | none =>
    rw [Option.getD_none, none_append]
    exact congrArg some ((ofTxns_concat [] t).trans (none_addFee _ _))
  | some fees => exact congrArg some (append_ofTxns_singleton fees t)

/-- The counted fees of a list of transactions are the fees of its counted
    transactions. -/
theorem counted_ofTxns_perm (includeVote : Bool) (l : List Txn) :
    (counted includeVote (ofTxns l)).Perm
      ((l.filter fun t => includeVote || !t.isVote).map Txn.fee) := by
  cases includeVote with
  | false => simp [counted, ofTxns]
  | true =>
    simp only [counted, ofTxns, if_true, Bool.true_or, List.filter_true, ← List.map_append]
    exact (List.filter_append_perm (fun t : Txn => t.isVote) l).map Txn.fee

theorem mem_counted_ofTxns {includeVote : Bool} {l : List Txn} {q : ℚ} :
    q ∈ counted includeVote (ofTxns l) ↔
      ∃ t ∈ l, (includeVote || !t.isVote) = true ∧ t.fee = q := by
  rw [(counted_ofTxns_perm includeVote l).mem_iff, List.mem_map]
  simp only [List.mem_filter, and_assoc]

end Fees

/-- The transactions of a slot counted under an account. The first transaction
    of the slot counts once when it touches the account, every later one as
    often as it names it. -/
def accountLog (a : Pubkey) : List Txn → List Txn
  | [] => []
  | t :: ts => (if a ∈ t.accounts then [t] else []) ++
      ts.flatMap fun t => List.replicate (t.accounts.count a) t

@[simp] theorem accountLog_nil (a : Pubkey) : accountLog a [] = [] := rfl

theorem accountLog_concat (a : Pubkey) {l : List Txn} (h : l ≠ []) (t : Txn) :
    accountLog a (l ++ [t]) = accountLog a l ++ List.replicate (t.accounts.count a) t := by
  cases l with
  | nil => exact absurd rfl h
  | cons x xs => simp [accountLog, List.flatMap_append]

theorem mem_accountLog {a : Pubkey} {l : List Txn} {t : Txn} :
    t ∈ accountLog a l ↔ t ∈ l ∧ a ∈ t.accounts := by
  cases l with
  | nil => simp
  | cons x xs =>
    have hx : t ∈ (if a ∈ x.accounts then [x] else []) ↔ t = x ∧ a ∈ t.accounts := by
      by_cases ha : a ∈ x.accounts
      · rw [if_pos ha, List.mem_singleton]
        exact ⟨fun h => ⟨h, h ▸ ha⟩, And.left⟩
      · rw [if_neg ha]
        exact ⟨fun h => absurd h List.not_mem_nil, fun h => absurd (h.1 ▸ h.2) ha⟩
    simp only [accountLog, List.mem_append, List.mem_flatMap, hx, List.mem_replicate,
      List.mem_cons, Ne, List.count_eq_zero, not_not]
    constructor
    · rintro (⟨h, ha⟩ | ⟨y, hy, ha, rfl⟩)
      · exact ⟨.inl h, ha⟩
      · exact ⟨.inr hy, ha⟩
    · rintro ⟨h | h, ha⟩
      · exact .inl ⟨h, ha⟩
      · exact .inr ⟨t, h, ha, rfl⟩

private theorem replicate_count_of_nodup {a : Pubkey} {t : Txn} (h : t.accounts.Nodup) :
    List.replicate (t.accounts.count a) t = if a ∈ t.accounts then [t] else [] := by
  rw [h.count]
  split <;> rfl

/-- Without repeated keys the account log is the log of the transactions that
    touch the account. -/
theorem accountLog_eq_filter {a : Pubkey} {l : List Txn} (h : ∀ t ∈ l.tail, t.accounts.Nodup) :
    accountLog a l = l.filter fun t => a ∈ t.accounts := by
  induction l using List.reverseRecOn with
  | nil => rfl
  | append_singleton l t ih =>
    cases l with
    | nil =>
      by_cases ha : a ∈ t.accounts <;> simp [accountLog, ha]
    | cons x xs =>
      have ht : t.accounts.Nodup := h t (by simp)
      rw [accountLog_concat a (by simp), ih (fun y hy => h y (by simp at hy ⊢; exact .inl hy)),
        List.filter_append, replicate_count_of_nodup ht]
      by_cases ha : a ∈ t.accounts <;> simp [ha]

namespace SlotPriorityFees

variable {κ : Type} [DecidableEq κ]

theorem lookup_addEntryFee (m : Table κ Fees) (k : κ) (t : Txn) (x : κ) :
    (addEntryFee m k t.priorityFee t.isVote).lookup x =
      if x = k then Fees.extended (m.lookup x) [t] else m.lookup x := by
  rw [addEntryFee, Table.lookup_upsert]
  split
  · next h =>
    subst h
    refine Eq.trans ?_ (Fees.extended_singleton _ t).symm
    cases m.lookup x <;> rfl
  · rfl

/-- The account loop of a later transaction adds it under each key as often as
    the key is named. -/
theorem lookup_foldl_addEntryFee (m : Table κ Fees) (keys : List κ) (t : Txn) (x : κ) :
    (keys.foldl (fun m k => addEntryFee m k t.priorityFee t.isVote) m).lookup x =
      Fees.extended (m.lookup x) (List.replicate (keys.count x) t) := by
  induction keys generalizing m with
  | nil => simp
  | cons key keys ih =>
    rw [List.foldl_cons, ih, lookup_addEntryFee]
    by_cases hx : x = key
    · rw [if_pos hx, hx, Fees.extended_append, List.count_cons_self, List.replicate_succ]
      rfl
    · rw [if_neg hx, List.count_cons_of_ne (Ne.symm hx)]

end SlotPriorityFees

/-- `m` holds under every key the fees of the transactions `r` gives for it. -/
def Represents {κ : Type} [DecidableEq κ] (m : Table κ Fees) (r : κ → List Txn) : Prop :=
  ∀ k, m.lookup k = Fees.recorded (r k)

namespace Represents

variable {κ : Type} [DecidableEq κ] {m : Table κ Fees} {r : κ → List Txn}

/-- A later transaction, added under each key as often as it is named. -/
theorem foldl_addEntryFee (h : Represents m r) (keys : List κ) (t : Txn) :
    Represents (keys.foldl
        (fun m k => SlotPriorityFees.addEntryFee m k t.priorityFee t.isVote) m)
      (fun k => r k ++ List.replicate (keys.count k) t) := by
  intro k
  rw [SlotPriorityFees.lookup_foldl_addEntryFee, h k, Fees.recorded_eq_extended,
    Fees.extended_append, ← Fees.recorded_eq_extended]

/-- The account loop of a first transaction stores it once under each account
    it names. -/
theorem foldl_insert (keys : List κ) (t : Txn) :
    Represents (keys.foldl
        (fun m k => m.insert k (Fees.new (u64AsF64 t.priorityFee) t.isVote)) (∅ : Table κ Fees))
      (fun k => if k ∈ keys then [t] else []) := by
  have hone : Fees.recorded [t] = some (Fees.new (u64AsF64 t.priorityFee) t.isVote) :=
    (Fees.recorded_eq_extended [t]).trans (Fees.extended_singleton Option.none t)
  induction keys using List.reverseRecOn with
  | nil => intro k; rfl
  | append_singleton keys key ih =>
    intro x
    change _ = Fees.recorded (if x ∈ keys ++ [key] then [t] else [])
    rw [List.foldl_concat, Table.lookup_insert_eq_ite]
    by_cases hx : x = key
    · subst hx
      rw [if_pos rfl, if_pos (by simp), hone]
    · rw [if_neg hx, ih x]
      simp [hx]

end Represents

namespace SlotPriorityFees

/-- The value stored for a slot after its first transaction. -/
def ofTxn (slot : Slot) (t : Txn) : SlotPriorityFees :=
  newWithVersion slot t.accounts t.priorityFee t.isVote t.version

/-- The value stored for a slot after one more transaction. -/
def updateTxn (s : SlotPriorityFees) (t : Txn) : SlotPriorityFees :=
  s.update t.accounts t.priorityFee t.isVote t.version

/-- The value stored for a slot after one transaction, whether or not the slot
    had some before. -/
def extend (slot : Slot) (t : Txn) : Option SlotPriorityFees → SlotPriorityFees
  | none => ofTxn slot t
  | some s => s.updateTxn t

/-- The value stored for a slot after a log of transactions. -/
def ofLog (slot : Slot) : List Txn → Option SlotPriorityFees
  | [] => none
  | t :: ts => some (ts.foldl updateTxn (ofTxn slot t))

@[simp] theorem ofLog_nil (slot : Slot) : ofLog slot [] = none := rfl

theorem ofLog_concat (slot : Slot) (l : List Txn) (t : Txn) :
    ofLog slot (l ++ [t]) = some (extend slot t (ofLog slot l)) := by
  cases l <;> simp [ofLog, extend]

theorem ofLog_eq_none_iff {slot : Slot} {l : List Txn} : ofLog slot l = none ↔ l = [] := by
  cases l <;> simp [ofLog]

/-- The value of a slot holds exactly the transactions of its log. -/
structure Logged (s : SlotPriorityFees) (slot : Slot) (l : List Txn) : Prop where
  slot_eq : s.slot = slot
  fees_eq : s.fees = Fees.ofTxns l
  account_eq : Represents s.accountFees fun a => accountLog a l
  version_eq : Represents s.versionFees fun v => l.filter fun t => t.version = v

theorem Logged.lookup_account {s : SlotPriorityFees} {slot : Slot} {l : List Txn}
    (h : s.Logged slot l) (a : Pubkey) :
    s.accountFees.lookup a = Fees.recorded (accountLog a l) :=
  h.account_eq a

theorem Logged.lookup_version {s : SlotPriorityFees} {slot : Slot} {l : List Txn}
    (h : s.Logged slot l) (v : TransactionVersion) :
    s.versionFees.lookup v = Fees.recorded (l.filter fun t => t.version = v) :=
  h.version_eq v

theorem logged_ofTxn (slot : Slot) (t : Txn) : (ofTxn slot t).Logged slot [t] where
  slot_eq := rfl
  fees_eq := by rw [← List.nil_append [t], Fees.ofTxns_concat]; exact (Fees.none_addFee _ _).symm
  account_eq := by
    intro a
    have hlog : accountLog a [t] = if a ∈ t.accounts then [t] else [] := by simp [accountLog]
    change _ = Fees.recorded (accountLog a [t])
    rw [hlog]
    exact Represents.foldl_insert t.accounts t a
  version_eq := by
    intro v
    have h := Represents.foldl_insert [t.version] t v
    simp only [List.mem_singleton] at h
    have hlog : ([t].filter fun t => t.version = v) = if v = t.version then [t] else [] := by
      by_cases hv : v = t.version <;> simp [hv, Ne.symm, eq_comm]
    change _ = Fees.recorded ([t].filter fun t => t.version = v)
    rw [hlog]
    exact h

/-- `update` extends the log. -/
theorem Logged.updateTxn {s : SlotPriorityFees} {slot : Slot} {l : List Txn}
    (h : s.Logged slot l) (hne : l ≠ []) (t : Txn) :
    (s.updateTxn t).Logged slot (l ++ [t]) where
  slot_eq := h.slot_eq
  fees_eq := by
    rw [Fees.ofTxns_concat, ← h.fees_eq]
    exact update_fees _ _ _ _ _
  account_eq := by
    intro a
    change _ = Fees.recorded (accountLog a (l ++ [t]))
    rw [accountLog_concat a hne]
    exact h.account_eq.foldl_addEntryFee t.accounts t a
  version_eq := by
    intro v
    change _ = Fees.recorded ((l ++ [t]).filter fun t => t.version = v)
    rw [List.filter_append, List.filter_singleton, SlotPriorityFees.updateTxn,
      update_versionFees]
    have hfold := h.version_eq.foldl_addEntryFee [t.version] t v
    by_cases hv : v = t.version
    · subst hv; simpa using hfold
    · simpa [hv, Ne.symm hv] using hfold

/-- The value stored after a log holds the transactions of the log. -/
theorem logged_of_ofLog {slot : Slot} {l : List Txn} {s : SlotPriorityFees}
    (h : ofLog slot l = some s) : s.Logged slot l := by
  induction l using List.reverseRecOn generalizing s with
  | nil => cases h
  | append_singleton l t ih =>
    rw [ofLog_concat, Option.some.injEq] at h
    cases hl : ofLog slot l with
    | none =>
      rw [hl] at h
      obtain rfl := ofLog_eq_none_iff.mp hl
      subst h
      exact logged_ofTxn slot t
    | some s' =>
      rw [hl] at h
      have hne : l ≠ [] := fun e => by rw [e] at hl; cases hl
      subst h
      exact (ih hl).updateTxn hne t

end SlotPriorityFees

end PriorityFeeEstimator
