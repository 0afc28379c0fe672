import Mathlib
import PriorityFeeEstimator.Blocks

/-!
# The stream of updates

`poll_blocks` connects, subscribes, and then receives one update after another.
Every update is handed to all consumers; a ping is answered. When anything goes
wrong, or the stream ends, it waits a second and begins again. What comes from
outside are the replies: the outcome of a connection attempt, of a subscription,
of waiting for the next update, of sending, and the end of a pause. The loop
accepts at each point the replies to what it did last, and no others.

The consumers work on a state that they may share. The name of a subscription is
random, and `names` gives the names drawn.
-/

namespace PriorityFeeEstimator

namespace Geyser

/-- The content of an update, as far as it is told apart. -/
inductive UpdateOneof where
  | block (block : Proto.SubscribeUpdateBlock)
  | ping
  | other
deriving DecidableEq

structure SubscribeUpdate where
  updateOneof : Option UpdateOneof
deriving DecidableEq

/-- The update as the tracker reads it, which looks for blocks only. -/
def SubscribeUpdate.read (update : SubscribeUpdate) : Proto.SubscribeUpdate where
  updateOneof := update.updateOneof.map fun
    | .block block => .block block
    | .ping => .other
    | .other => .other

structure SubscribeRequestFilterBlocks where
  accountInclude : List String
  includeTransactions : Option Bool
  includeAccounts : Option Bool
  includeEntries : Option Bool
deriving DecidableEq

structure SubscribeRequestPing where
  id : ℤ
deriving DecidableEq

/-- The part of a request that is not left at its default. -/
structure SubscribeRequest where
  blocks : List (String × SubscribeRequestFilterBlocks)
  commitment : Option ℤ
  ping : Option SubscribeRequestPing
deriving DecidableEq

/-- `CommitmentLevel::Confirmed`. -/
def confirmed : ℤ := 1

def getBlockSubscribeRequest (name : String) : SubscribeRequest where
  blocks := [(name, { accountInclude := []
                      includeTransactions := some true
                      includeAccounts := some true
                      includeEntries := some false })]
  commitment := some confirmed
  ping := none

def ping : SubscribeRequest where
  blocks := []
  commitment := none
  ping := some ⟨1⟩

/-- A consumer: what it makes of an update in a state. -/
abbrev GrpcConsumer (σ : Type) := SubscribeUpdate → σ → Except String Unit × σ

/-- Hand an update to all consumers, one after another; an error of one is noted
    and does not keep the update from the next. -/
def deliver {σ : Type} (consumers : List (GrpcConsumer σ)) (world : σ)
    (update : SubscribeUpdate) : List String × σ :=
  consumers.foldl (fun (errors, world) consumer =>
    match consumer update world with
    | (.ok (), world) => (errors, world)
    | (.error e, world) => (errors ++ [e], world)) ([], world)

/-- What the loop waits for. -/
inductive PollPc where
  | connect
  | subscribe
  | next
  | send
  | sleep
deriving DecidableEq

/-- What the loop does, as seen from outside. -/
inductive Action where
  | connect
  | subscribe (request : SubscribeRequest)
  | send (request : SubscribeRequest)
  | sleep (milliseconds : ℕ)
  | count (metric : String)
deriving DecidableEq

/-- What the loop learns from outside. -/
inductive Reply where
  | connected (result : Except String Unit)
  | subscribed (result : Except String Unit)
  | received (item : Option (Except String SubscribeUpdate))
  | sent (result : Except String Unit)
  | slept

/-- The metric that counts the failure a reply reports, if it reports one. -/
def Reply.failure : Reply → Option String
  | .connected (.error _) => some "grpc_connect_error"
  | .subscribed (.error _) => some "grpc_subscribe_error"
  | .received (some (.error _)) => some "grpc_resubscribe"
  | .sent (.error _) => some "grpc_ping_error"
  | _ => none

/-- The update that a reply brings. -/
def Reply.update : Reply → Option SubscribeUpdate
  | .received (some (.ok update)) => some update
  | _ => none

/-- The updates received, in order. -/
def updates (replies : List Reply) : List SubscribeUpdate := replies.filterMap Reply.update

/-- The reply ends a connection attempt or a stream: a failure, or the end of the
    stream. -/
def Reply.endsAttempt : Reply → Bool
  | .received none => true
  | reply => reply.failure.isSome

/-- The reply ends a pause. -/
def Reply.endsPause : Reply → Bool
  | .slept => true
  | _ => false

/-- The update is a ping. -/
def SubscribeUpdate.isPing (update : SubscribeUpdate) : Bool := update.updateOneof = some .ping

end Geyser

open Geyser

/-- The loop between two replies: the state of the consumers, what it waits for,
    what it has done, and how many subscriptions it has asked for. -/
structure GrpcGeyserImpl (σ : Type) where
  world : σ
  pc : PollPc
  actions : List Action
  subscriptions : ℕ

namespace GrpcGeyserImpl

variable {σ : Type} (consumers : List (GrpcConsumer σ)) (names : ℕ → String)

/-- The first round of the loop begins. -/
def new (world : σ) : GrpcGeyserImpl σ where
  world := world
  pc := .connect
  actions := [.connect]
  subscriptions := 0

/-- The loop goes on to wait at `pc`, after some more actions. -/
def goto (x : GrpcGeyserImpl σ) (pc : PollPc) (actions : List Action) : GrpcGeyserImpl σ :=
  { x with pc := pc, actions := x.actions ++ actions }

/-- Something went wrong: count it, and wait a second. -/
def giveUp (x : GrpcGeyserImpl σ) (metric : String) : GrpcGeyserImpl σ :=
  x.goto .sleep [.count metric, .sleep 1000]

/-- An update is handed to the consumers, and answered when it is a ping. -/
def receive (x : GrpcGeyserImpl σ) (update : SubscribeUpdate) : GrpcGeyserImpl σ :=
  let (errors, world) := deliver consumers x.world update
  let x := { x with world := world }
  let counts := errors.map fun _ => Action.count "grpc_consume_error"
  match update.updateOneof with
  | some .ping => x.goto .send (counts ++ [.send ping])
  | _ => x.goto .next counts

/-- The loop gets a reply. -/
def step (x : GrpcGeyserImpl σ) (reply : Reply) : Option (GrpcGeyserImpl σ) :=
  match x.pc, reply with
  | .connect, .connected (.error _) => some (x.giveUp "grpc_connect_error")
  | .connect, .connected (.ok ()) =>
    let request := getBlockSubscribeRequest (names x.subscriptions)
    some { x.goto .subscribe [.subscribe request] with subscriptions := x.subscriptions + 1 }
  | .subscribe, .subscribed (.error _) => some (x.giveUp "grpc_subscribe_error")
  | .subscribe, .subscribed (.ok ()) => some (x.goto .next [])
  | .next, .received (some (.ok update)) => some (x.receive consumers update)
  | .next, .received (some (.error _)) => some (x.giveUp "grpc_resubscribe")
  | .next, .received none => some (x.goto .sleep [.sleep 1000])
  | .send, .sent (.ok ()) => some (x.goto .next [])
  | .send, .sent (.error _) => some (x.giveUp "grpc_ping_error")
  | .sleep, .slept => some (x.goto .connect [.connect])
  | _, _ => none

/-- The loop after some replies. -/
def run (world : σ) (replies : List Reply) : Option (GrpcGeyserImpl σ) :=
  replies.foldlM (step consumers names) (new world)

variable {consumers names} {x x' : GrpcGeyserImpl σ} {reply : Reply}

-- ════════════════════════════════════════════════════════════════════════
-- What a reply can bring about
-- ════════════════════════════════════════════════════════════════════════

/-- What a reply can bring about: an update is received, something fails, the
    stream ends, the pause is over, or the next thing is waited for. -/
theorem step_cases (h : step consumers names x reply = some x') :
    (∃ update, x.pc = .next ∧ reply = .received (some (.ok update)) ∧
      x' = x.receive consumers update) ∨
    (∃ metric, x.pc ≠ .sleep ∧ reply.failure = some metric ∧ reply.update = none ∧
      reply ≠ .slept ∧ x' = x.giveUp metric) ∨
    (x.pc = .next ∧ reply = .received none ∧ x' = x.goto .sleep [.sleep 1000]) ∨
    (x.pc = .sleep ∧ reply = .slept ∧ x' = x.goto .connect [.connect]) ∨
    (x.pc = .connect ∧ reply = .connected (.ok ()) ∧
      x' = { x.goto .subscribe [.subscribe (getBlockSubscribeRequest (names x.subscriptions))] with
        subscriptions := x.subscriptions + 1 }) ∨
    (x.pc = .subscribe ∧ reply = .subscribed (.ok ()) ∧ x' = x.goto .next []) ∨
    (x.pc = .send ∧ reply = .sent (.ok ()) ∧ x' = x.goto .next []) := by
  unfold step at h
  split at h
  all_goals cases h
  · next e hpc => exact .inr (.inl ⟨_, by simp [hpc], rfl, rfl, nofun, rfl⟩)
  · next hpc => exact .inr (.inr (.inr (.inr (.inl ⟨hpc, rfl, rfl⟩))))
  · next e hpc => exact .inr (.inl ⟨_, by simp [hpc], rfl, rfl, nofun, rfl⟩)
  · next hpc => exact .inr (.inr (.inr (.inr (.inr (.inl ⟨hpc, rfl, rfl⟩)))))
  · next update hpc => exact .inl ⟨update, hpc, rfl, rfl⟩
  · next e hpc => exact .inr (.inl ⟨_, by simp [hpc], rfl, rfl, nofun, rfl⟩)
  · next hpc => exact .inr (.inr (.inl ⟨hpc, rfl, rfl⟩))
  · next hpc => exact .inr (.inr (.inr (.inr (.inr (.inr ⟨hpc, rfl, rfl⟩)))))
  · next e hpc => exact .inr (.inl ⟨_, by simp [hpc], rfl, rfl, nofun, rfl⟩)
  · next hpc => exact .inr (.inr (.inr (.inl ⟨hpc, rfl, rfl⟩)))

@[simp] theorem goto_actions (pc : PollPc) (actions : List Action) :
    (x.goto pc actions).actions = x.actions ++ actions := rfl

@[simp] theorem giveUp_actions (metric : String) :
    (x.giveUp metric).actions = x.actions ++ [.count metric, .sleep 1000] := rfl

/-- Receiving an update: the consumers move on, their errors are counted, and a
    ping is answered. -/
theorem receive_eq (update : SubscribeUpdate) :
    x.receive consumers update =
      ({ x with world := (deliver consumers x.world update).2 } : GrpcGeyserImpl σ).goto
        (if update.isPing then .send else .next)
        ((deliver consumers x.world update).1.map (fun _ => Action.count "grpc_consume_error") ++
          if update.isPing then [.send ping] else []) := by
  cases hu : update.updateOneof with
  | none => simp [receive, hu, SubscribeUpdate.isPing]
  | some u => cases u <;> simp [receive, hu, SubscribeUpdate.isPing]

/-- What holds at the start and is kept by every reply holds after every run. -/
theorem run_induction {P : List Reply → GrpcGeyserImpl σ → Prop} {world : σ}
    (hnew : P [] (new world))
    (hstep : ∀ replies x reply x', P replies x → step consumers names x reply = some x' →
      P (replies ++ [reply]) x')
    {replies : List Reply} (h : run consumers names world replies = some x) : P replies x := by
  induction replies using List.reverseRecOn generalizing x with
  | nil =>
    obtain rfl := Option.some.inj h
    exact hnew
  | append_singleton replies reply ih =>
    rw [run, List.foldlM_append, Option.bind_eq_bind, Option.bind_eq_some_iff] at h
    obtain ⟨y, hy, hlast⟩ := h
    rw [List.foldlM_cons, Option.bind_eq_bind, Option.bind_eq_some_iff] at hlast
    obtain ⟨x', hx', hend⟩ := hlast
    obtain rfl := Option.some.inj hend
    exact hstep replies y reply x' (ih hy) hx'

theorem updates_concat (replies : List Reply) (reply : Reply) :
    updates (replies ++ [reply]) = updates replies ++ reply.update.toList := by
  rw [updates, List.filterMap_append]
  cases h : reply.update <;> simp [updates, h]

-- ════════════════════════════════════════════════════════════════════════
-- What is delivered
-- ════════════════════════════════════════════════════════════════════════

/-- The consumers after some updates. -/
def deliverAll (consumers : List (GrpcConsumer σ)) (world : σ)
    (updates : List SubscribeUpdate) : σ :=
  updates.foldl (fun world update => (deliver consumers world update).2) world

/-- The errors of the consumers over some updates. -/
def consumeErrors (consumers : List (GrpcConsumer σ)) (world : σ) :
    List SubscribeUpdate → List String
  | [] => []
  | update :: updates => (deliver consumers world update).1 ++
      consumeErrors consumers (deliver consumers world update).2 updates

theorem consumeErrors_concat (world : σ) (us : List SubscribeUpdate) (u : SubscribeUpdate) :
    consumeErrors consumers world (us ++ [u]) = consumeErrors consumers world us ++
      (deliver consumers (deliverAll consumers world us) u).1 := by
  induction us generalizing world with
  | nil => simp [consumeErrors, deliverAll]
  | cons v us ih =>
    rw [List.cons_append, consumeErrors, ih, consumeErrors, List.append_assoc]
    rfl

/-- Every consumer gets the update, whatever the others make of it. -/
theorem deliver_world (world : σ) (update : SubscribeUpdate) :
    (deliver consumers world update).2 =
      consumers.foldl (fun world consumer => (consumer update world).2) world := by
  suffices h : ∀ errors, (consumers.foldl (fun (acc : List String × σ) consumer =>
      match consumer update acc.2 with
      | (.ok (), world) => (acc.1, world)
      | (.error e, world) => (acc.1 ++ [e], world)) (errors, world)).2 =
        consumers.foldl (fun world consumer => (consumer update world).2) world from h []
  induction consumers generalizing world with
  | nil => exact fun _ => rfl
  | cons consumer consumers ih =>
    intro errors
    rw [List.foldl_cons, List.foldl_cons]
    rcases hc : consumer update world with ⟨e | u, world'⟩
    · exact ih world' (errors ++ [e])
    · exact ih world' errors

/-- What the loop has done for the updates it has received, and counted. -/
structure Delivered (consumers : List (GrpcConsumer σ)) (world : σ) (replies : List Reply)
    (x : GrpcGeyserImpl σ) : Prop where
  world_eq : x.world = deliverAll consumers world (updates replies)
  pings : x.actions.count (.send ping) = (updates replies).countP SubscribeUpdate.isPing
  requests : ∀ request, .send request ∈ x.actions → request = ping
  errors : x.actions.count (.count "grpc_consume_error") =
    (consumeErrors consumers world (updates replies)).length
  failures : ∀ metric, metric ≠ "grpc_consume_error" →
    x.actions.count (.count metric) = replies.countP fun reply => reply.failure = some metric

/-- A reply without an update, whose only metric is the one of its failure. -/
theorem Delivered.step_of_no_update {world : σ} {replies : List Reply}
    (h : Delivered consumers world replies x) (hupdate : reply.update = none)
    {actions : List Action} (hworld : x'.world = x.world)
    (hactions : x'.actions = x.actions ++ actions)
    (hsend : ∀ request, .send request ∉ actions)
    (hcount : ∀ metric, actions.count (.count metric) =
      if reply.failure = some metric then 1 else 0)
    (hmetric : reply.failure ≠ some "grpc_consume_error") :
    Delivered consumers world (replies ++ [reply]) x' where
  world_eq := by rw [updates_concat, hupdate, hworld, h.world_eq]; simp
  pings := by
    rw [updates_concat, hupdate, hactions, List.count_append, h.pings,
      List.count_eq_zero_of_not_mem (hsend ping)]
    simp
  requests := by
    intro request hmem
    rw [hactions, List.mem_append] at hmem
    exact h.requests request (hmem.resolve_right (hsend request))
  errors := by
    rw [updates_concat, hupdate, hactions, List.count_append, h.errors, hcount, if_neg hmetric]
    simp
  failures := by
    intro metric hne
    rw [hactions, List.count_append, h.failures metric hne, hcount, List.countP_append,
      List.countP_singleton]
    simp

/-- An update is received. -/
theorem Delivered.receive {world : σ} {replies : List Reply}
    (h : Delivered consumers world replies x) (update : SubscribeUpdate) :
    Delivered consumers world (replies ++ [.received (some (.ok update))])
      (x.receive consumers update) := by
  set counts := (deliver consumers x.world update).1.map
    fun _ => Action.count "grpc_consume_error" with hcounts
  have hother : ∀ a, a ≠ .count "grpc_consume_error" → counts.count a = 0 := by
    intro a ha
    rw [List.count_eq_zero, hcounts, List.mem_map]
    rintro ⟨_, -, rfl⟩
    exact ha rfl
  have hself : counts.count (.count "grpc_consume_error") =
      (deliver consumers x.world update).1.length := by
    rw [hcounts, List.map_const', List.count_replicate_self]
  have hupdates : updates (replies ++ [.received (some (.ok update))]) =
      updates replies ++ [update] := updates_concat _ _
  rw [receive_eq]
  refine ⟨?_, ?_, fun request hmem => ?_, ?_, fun metric hne => ?_⟩
  · rw [hupdates, deliverAll, List.foldl_concat]
    exact congrArg (fun w => (deliver consumers w update).2) h.world_eq
  · rw [goto_actions, hupdates, List.count_append, List.count_append, h.pings,
      hother _ (by simp), List.countP_append, List.countP_singleton]
    cases update.isPing <;> simp
  · rw [goto_actions, List.mem_append, List.mem_append] at hmem
    rcases hmem with hold | hcount | hping
    · exact h.requests request hold
    · rw [List.mem_map] at hcount
      obtain ⟨_, -, he⟩ := hcount
      cases he
    · cases hu : update.isPing with
      | false => simp [hu] at hping
      | true => simpa [hu] using hping
  · have hping : (if update.isPing then [Action.send ping] else []).count
        (.count "grpc_consume_error") = 0 := by
      cases update.isPing <;> rfl
    rw [goto_actions, hupdates, consumeErrors_concat, List.length_append, ← h.world_eq,
      List.count_append, List.count_append, hself, hping]
    exact congrArg (· + (deliver consumers x.world update).1.length) h.errors
  · have hping : (if update.isPing then [Action.send ping] else []).count
        (.count metric) = 0 := by
      cases update.isPing <;> rfl
    rw [goto_actions, List.count_append, List.count_append, hping, hother _ (by simpa using hne),
      List.countP_append, List.countP_singleton]
    exact congrArg (· + 0) (h.failures metric hne)

/-- Every reply keeps it so. -/
theorem Delivered.step {world : σ} {replies : List Reply}
    (h : Delivered consumers world replies x)
    (hstep : GrpcGeyserImpl.step consumers names x reply = some x') :
    Delivered consumers world (replies ++ [reply]) x' := by
  rcases step_cases hstep with ⟨update, -, rfl, rfl⟩ | ⟨metric, -, hfail, hupdate, -, rfl⟩ |
    ⟨-, rfl, rfl⟩ | ⟨-, rfl, rfl⟩ | ⟨-, rfl, rfl⟩ | ⟨-, rfl, rfl⟩ | ⟨-, rfl, rfl⟩
  · exact h.receive update
  · have hne : metric ≠ "grpc_consume_error" := by
      rintro rfl
      unfold Reply.failure at hfail
      split at hfail
      all_goals simp at hfail
    refine h.step_of_no_update hupdate rfl rfl (by simp) (fun m => ?_) (by simpa [hfail] using hne)
    by_cases hm : metric = m
    · simp [hfail, hm]
    · simp [hfail, hm]
  · exact h.step_of_no_update rfl rfl rfl (by simp) (by simp [Reply.failure])
      (by simp [Reply.failure])
  · exact h.step_of_no_update rfl rfl rfl (by simp) (by simp [Reply.failure])
      (by simp [Reply.failure])
  · exact h.step_of_no_update rfl rfl rfl (by simp) (by simp [Reply.failure])
      (by simp [Reply.failure])
  · exact h.step_of_no_update rfl rfl rfl (by simp) (by simp [Reply.failure])
      (by simp [Reply.failure])
  · exact h.step_of_no_update rfl rfl rfl (by simp) (by simp [Reply.failure])
      (by simp [Reply.failure])

theorem delivered_run {world : σ} {replies : List Reply}
    (h : run consumers names world replies = some x) : Delivered consumers world replies x := by
  refine run_induction ?_ (fun replies x reply x' hx hstep => hx.step hstep) h
  exact ⟨rfl, rfl, by simp [new], rfl, by simp [new]⟩

-- ════════════════════════════════════════════════════════════════════════
-- How connection attempts are paced
-- ════════════════════════════════════════════════════════════════════════

/-- Before every connection attempt but the first there is a pause of its own. -/
def Paced (actions : List Action) : Prop :=
  ∀ done, done <+: actions → done.count .connect ≤ done.count (.sleep 1000) + 1

theorem Paced.append_of_no_connect {actions more : List Action} (h : Paced actions)
    (hmore : .connect ∉ more) : Paced (actions ++ more) := by
  induction more using List.reverseRecOn with
  | nil => rwa [List.append_nil]
  | append_singleton more action ih =>
    rw [List.mem_append, not_or] at hmore
    intro done hdone
    rw [← List.append_assoc, List.prefix_concat_iff] at hdone
    rcases hdone with rfl | hold
    · have hprev := ih hmore.1 (actions ++ more) (List.prefix_refl _)
      have hnone : [action].count .connect = 0 := List.count_eq_zero.mpr hmore.2
      generalize actions ++ more = done at hprev ⊢
      rw [List.count_append, List.count_append, hnone]
      omega
    · exact ih hmore.1 done hold

/-- How the connection attempts and the pauses of a run are counted. -/
structure PacedRun (replies : List Reply) (x : GrpcGeyserImpl σ) : Prop where
  paced : Paced x.actions
  balance : x.actions.count .connect =
    x.actions.count (.sleep 1000) + if x.pc = .sleep then 0 else 1
  connects : x.actions.count .connect = replies.countP Reply.endsPause + 1
  pauses : x.actions.count (.sleep 1000) = replies.countP Reply.endsAttempt

/-- A reply after which the loop neither connects nor pauses. -/
theorem PacedRun.step_of_neither {replies : List Reply} (h : PacedRun replies x)
    {actions : List Action} (hpc : x.pc ≠ .sleep) (hpc' : x'.pc ≠ .sleep)
    (hactions : x'.actions = x.actions ++ actions) (hconnect : .connect ∉ actions)
    (hsleep : .sleep 1000 ∉ actions) (hattempt : reply.endsAttempt = false)
    (hpause : reply.endsPause = false) : PacedRun (replies ++ [reply]) x' := by
  have hbalance := h.balance
  rw [if_neg hpc] at hbalance
  refine ⟨hactions ▸ h.paced.append_of_no_connect hconnect, ?_, ?_, ?_⟩
  · rw [hactions, if_neg hpc', List.count_append, List.count_append,
      List.count_eq_zero_of_not_mem hconnect, List.count_eq_zero_of_not_mem hsleep, hbalance]
  · rw [hactions, List.count_append, List.count_eq_zero_of_not_mem hconnect, h.connects,
      List.countP_append, List.countP_singleton, hpause]
    rfl
  · rw [hactions, List.count_append, List.count_eq_zero_of_not_mem hsleep, h.pauses,
      List.countP_append, List.countP_singleton, hattempt]
    rfl

/-- A reply after which the loop pauses. -/
theorem PacedRun.step_of_pause {replies : List Reply} (h : PacedRun replies x)
    {actions : List Action} (hpc : x.pc ≠ .sleep) (hpc' : x'.pc = .sleep)
    (hactions : x'.actions = x.actions ++ actions) (hconnect : .connect ∉ actions)
    (hsleep : actions.count (.sleep 1000) = 1) (hattempt : reply.endsAttempt = true)
    (hpause : reply.endsPause = false) : PacedRun (replies ++ [reply]) x' := by
  have hbalance := h.balance
  rw [if_neg hpc] at hbalance
  refine ⟨hactions ▸ h.paced.append_of_no_connect hconnect, ?_, ?_, ?_⟩
  · rw [hactions, if_pos hpc', List.count_append, List.count_append,
      List.count_eq_zero_of_not_mem hconnect, hsleep, hbalance]
  · rw [hactions, List.count_append, List.count_eq_zero_of_not_mem hconnect, h.connects,
      List.countP_append, List.countP_singleton, hpause]
    rfl
  · rw [hactions, List.count_append, hsleep, h.pauses, List.countP_append, List.countP_singleton,
      hattempt]
    rfl

/-- The pause is over, and the loop connects. -/
theorem PacedRun.step_of_slept {replies : List Reply} (h : PacedRun replies x)
    (hpc : x.pc = .sleep) : PacedRun (replies ++ [.slept]) (x.goto .connect [.connect]) := by
  have hbalance := h.balance
  rw [if_pos hpc] at hbalance
  refine ⟨fun done hdone => ?_, ?_, ?_, ?_⟩
  · rw [goto_actions, List.prefix_concat_iff] at hdone
    rcases hdone with rfl | hold
    · simp [hbalance]
    · exact h.paced done hold
  · rw [goto_actions, if_neg (by simp [goto]), List.count_append, List.count_append, hbalance]
    rfl
  · rw [goto_actions, List.count_append, h.connects, List.countP_append]
    rfl
  · rw [goto_actions, List.count_append, h.pauses, List.countP_append]
    rfl

theorem PacedRun.step {replies : List Reply} (h : PacedRun replies x)
    (hstep : GrpcGeyserImpl.step consumers names x reply = some x') :
    PacedRun (replies ++ [reply]) x' := by
  rcases step_cases hstep with ⟨update, hpc, rfl, rfl⟩ | ⟨metric, hpc, hfail, -, hslept, rfl⟩ |
    ⟨hpc, rfl, rfl⟩ | ⟨hpc, rfl, rfl⟩ | ⟨hpc, rfl, rfl⟩ | ⟨hpc, rfl, rfl⟩ | ⟨hpc, rfl, rfl⟩
  · rw [receive_eq]
    refine h.step_of_neither (by simp [hpc]) ?_ rfl ?_ ?_ rfl rfl
    · cases update.isPing <;> simp [goto]
    · cases update.isPing <;> simp
    · cases update.isPing <;> simp
  · have hattempt : reply.endsAttempt = true := by
      unfold Reply.endsAttempt
      split
      · rfl
      · rw [hfail]
        rfl
    have hpause : reply.endsPause = false := by
      cases reply with
      | slept => exact absurd rfl hslept
      | _ => rfl
    exact h.step_of_pause hpc rfl rfl (by simp) (by simp) hattempt hpause
  · exact h.step_of_pause (by simp [hpc]) rfl rfl (by simp) (by simp) rfl rfl
  · exact h.step_of_slept hpc
  · exact h.step_of_neither (by simp [hpc]) (by simp [goto]) rfl (by simp) (by simp) rfl rfl
  · exact h.step_of_neither (by simp [hpc]) (by simp [goto]) rfl (by simp) (by simp) rfl rfl
  · exact h.step_of_neither (by simp [hpc]) (by simp [goto]) rfl (by simp) (by simp) rfl rfl

theorem pacedRun_run {world : σ} {replies : List Reply}
    (h : run consumers names world replies = some x) : PacedRun replies x := by
  refine run_induction (P := PacedRun) ?_ (fun replies x reply x' hx hstep => hx.step hstep) h
  refine ⟨fun done hdone => ?_, rfl, rfl, rfl⟩
  exact (hdone.sublist.count_le _).trans (Nat.le_add_left _ _)

/-- The replies that bring the loop back to the stream, when all goes well. -/
def recovery : PollPc → List Reply
  | .connect => [.connected (.ok ()), .subscribed (.ok ())]
  | .subscribe => [.subscribed (.ok ())]
  | .next => []
  | .send => [.sent (.ok ())]
  | .sleep => [.slept, .connected (.ok ()), .subscribed (.ok ())]

theorem foldlM_recovery (consumers : List (GrpcConsumer σ)) (names : ℕ → String)
    (x : GrpcGeyserImpl σ) : ∃ y, (recovery x.pc).foldlM (step consumers names) x = some y ∧
      y.pc = .next ∧ y.world = x.world := by
  obtain ⟨world, pc, actions, subscriptions⟩ := x
  cases pc with
  | connect => exact ⟨_, rfl, rfl, rfl⟩
  | subscribe => exact ⟨_, rfl, rfl, rfl⟩
  | next => exact ⟨_, rfl, rfl, rfl⟩
  | send => exact ⟨_, rfl, rfl, rfl⟩
  | sleep => exact ⟨_, rfl, rfl, rfl⟩

end GrpcGeyserImpl

open GrpcGeyserImpl

/-- Whatever fails on the way, every update received is given once, in the order
    received, to every consumer in turn, and an error of a consumer keeps nothing
    from the others or from later updates. For each ping received one is sent,
    and nothing else is ever sent on an open stream. Each metric counts the
    failures it is for. -/
theorem poll_blocks_delivers {σ : Type} (consumers : List (GrpcConsumer σ)) (names : ℕ → String)
    (world : σ) {replies : List Reply} {x : GrpcGeyserImpl σ}
    (h : GrpcGeyserImpl.run consumers names world replies = some x) :
    x.world = (updates replies).foldl (fun world update =>
      consumers.foldl (fun world consumer => (consumer update world).2) world) world ∧
    x.actions.count (.send ping) = (updates replies).countP SubscribeUpdate.isPing ∧
    (∀ request, .send request ∈ x.actions → request = ping) ∧
    x.actions.count (.count "grpc_consume_error") =
      (consumeErrors consumers world (updates replies)).length ∧
    ∀ metric, metric ≠ "grpc_consume_error" →
      x.actions.count (.count metric) = replies.countP fun reply => reply.failure = some metric := by
  have hx := delivered_run h
  refine ⟨?_, hx.pings, hx.requests, hx.errors, hx.failures⟩
  rw [hx.world_eq, deliverAll]
  simp only [deliver_world]

/-- The loop never connects twice without a pause of a second between. It pauses
    once for each failure and each end of a stream, and connects once more than
    it has paused to the end. From wherever it is, at most three good replies
    bring it back to its stream, with the consumers as they were. -/
theorem poll_blocks_paces {σ : Type} (consumers : List (GrpcConsumer σ)) (names : ℕ → String)
    (world : σ) {replies : List Reply} {x : GrpcGeyserImpl σ}
    (h : GrpcGeyserImpl.run consumers names world replies = some x) :
    (∀ done, done <+: x.actions → done.count .connect ≤ done.count (.sleep 1000) + 1) ∧
    x.actions.count (.sleep 1000) = replies.countP Reply.endsAttempt ∧
    x.actions.count .connect = replies.countP Reply.endsPause + 1 ∧
    ∃ more : List Reply, more.length ≤ 3 ∧ (∀ reply ∈ more, reply.endsAttempt = false) ∧
      updates more = [] ∧ ∃ y, GrpcGeyserImpl.run consumers names world (replies ++ more) = some y ∧
        y.pc = .next ∧ y.world = x.world := by
  have hx := pacedRun_run h
  refine ⟨hx.paced, hx.pauses, hx.connects, recovery x.pc, ?_, ?_, ?_, ?_⟩
  · cases x.pc <;> decide
  · cases x.pc <;> simp [recovery, Reply.endsAttempt, Reply.failure]
  · cases x.pc <;> rfl
  · obtain ⟨y, hy, hpc, hworld⟩ := foldlM_recovery consumers names x
    refine ⟨y, ?_, hpc, hworld⟩
    rw [GrpcGeyserImpl.run, List.foldlM_append]
    change (GrpcGeyserImpl.run consumers names world replies).bind _ = some y
    rw [h]
    exact hy

/-- The first attempt to connect fails, and the stream breaks off at the answer to
    a ping: of two consumers the second counts what it gets. -/
theorem poll_blocks_delivers_ping_lost :
    let refuse : GrpcConsumer ℕ := fun _ world => (.error "refused", world)
    let tally : GrpcConsumer ℕ := fun _ world => (.ok (), world + 1)
    let replies : List Reply := [.connected (.error "down"), .slept, .connected (.ok ()),
      .subscribed (.ok ()), .received (some (.ok ⟨some .other⟩)),
      .received (some (.ok ⟨some .ping⟩)), .sent (.error "closed"), .slept]
    ∃ x, GrpcGeyserImpl.run [refuse, tally] (fun _ => "name") 0 replies = some x ∧ x.world = 2 ∧
      x.actions.count (.send ping) = 1 ∧ x.actions.count (.count "grpc_ping_error") = 1 := by
  intro refuse tally replies
  obtain ⟨x, hx⟩ : ∃ x, GrpcGeyserImpl.run [refuse, tally] (fun _ => "name") 0 replies = some x :=
    ⟨_, rfl⟩
  have h := poll_blocks_delivers [refuse, tally] (fun _ => "name") 0 hx
  exact ⟨x, hx, h.1, h.2.1, (h.2.2.2.2 "grpc_ping_error" (by decide)).trans rfl⟩

/-- A stream that ends at once: two attempts to connect, and a pause between. -/
theorem poll_blocks_paces_twice :
    let replies : List Reply :=
      [.connected (.ok ()), .subscribed (.ok ()), .received none, .slept]
    ∃ x, GrpcGeyserImpl.run ([] : List (GrpcConsumer Unit)) (fun _ => "name") () replies = some x ∧
      x.actions.count (.sleep 1000) = 1 ∧ x.actions.count .connect = 2 := by
  intro replies
  obtain ⟨x, hx⟩ : ∃ x, GrpcGeyserImpl.run ([] : List (GrpcConsumer Unit)) (fun _ => "name") ()
      replies = some x := ⟨_, rfl⟩
  have h := poll_blocks_paces [] (fun _ => "name") () hx
  exact ⟨x, hx, h.2.1, h.2.2.1⟩

-- ════════════════════════════════════════════════════════════════════════
-- The tracker as the consumer
-- ════════════════════════════════════════════════════════════════════════

namespace PriorityFeeTracker

/-- The tracker consumes updates. -/
def consumer (process : ComputeBudgetProcessor) : GrpcConsumer PriorityFeeTracker :=
  fun update t => t.consume process update.read

/-- The pushes an update comes to: those of its block, if it brings one. -/
def pushesOf (process : ComputeBudgetProcessor) (update : SubscribeUpdate) : List (Slot × Txn) :=
  match update.updateOneof with
  | some (.block block) => (recordedTxns process block).map (block.slot, ·)
  | _ => []

theorem deliver_consumer (process : ComputeBudgetProcessor) (t : PriorityFeeTracker)
    (update : SubscribeUpdate) :
    deliver [consumer process] t update = ([], t.pushAll (pushesOf process update)) := by
  obtain ⟨o⟩ := update
  cases o with
  | none => rfl
  | some u =>
    cases u with
    | block block =>
      have h := consume_block process t block
      simp only [deliver, List.foldl_cons, List.foldl_nil, consumer, pushesOf]
      rw [show (SubscribeUpdate.mk (some (.block block))).read = blockUpdate block from rfl, h]
    | ping => rfl
    | other => rfl

/-- The tracker after some updates holds the pushes of their blocks. -/
theorem deliverAll_consumer (process : ComputeBudgetProcessor) (t : PriorityFeeTracker)
    (us : List SubscribeUpdate) :
    deliverAll [consumer process] t us = t.pushAll (us.flatMap (pushesOf process)) := by
  induction us generalizing t with
  | nil => rfl
  | cons u us ih =>
    rw [deliverAll, List.foldl_cons, deliver_consumer, List.flatMap_cons]
    refine (ih _).trans ?_
    rw [pushAll, pushAll, pushAll, List.foldl_append]

/-- The tracker after any run of the stream is the one that the blocks received
    leave on a fresh tracker. -/
theorem world_of_run {process : ComputeBudgetProcessor} {names : ℕ → String} {n : ℕ}
    {replies : List Reply} {x : GrpcGeyserImpl PriorityFeeTracker}
    (h : GrpcGeyserImpl.run [consumer process] names (new n) replies = some x) :
    x.world = run n ((updates replies).flatMap (pushesOf process)) := by
  rw [(delivered_run h).world_eq, deliverAll_consumer]
  rfl

end PriorityFeeTracker

end PriorityFeeEstimator
