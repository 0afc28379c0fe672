import Mathlib
import PriorityFeeEstimator.Gauges
import PriorityFeeEstimator.Geyser
import PriorityFeeEstimator.WindowServer

/-!
# The service

`main` makes a tracker, which starts the task that reports its gauges, the stream
loop with the tracker as its only consumer, and a server that reads the same
tracker; one number is the capacity of the cache and the largest lookback. What
happens to the program is a sequence of events: the loop gets a reply, the gauges
are due, or a request comes in, together with the answers that the node will give
while it is served. The orders in which the hash maps are traversed come with the
event.

`Service.run` is the program, `WindowServer.run` the same events on a window of
slots. A window server knows nothing of connections, pings, caches or hash maps,
gives the same answers and reports the same gauges.
-/

namespace PriorityFeeEstimator

open Geyser

/-- What happens to the program. -/
inductive ServiceEvent where
  | reply (reply : Reply)
  | poll (slots : IterOrder Slot) (groups : IterOrder Group)
      (versions : TransactionVersion → IterOrder SlotPriorityFees)
  | request (orders : Traversals) (rpcClient : RpcClient)
      (request : GetPriorityFeeEstimateRequest) (isV1 : Bool)

abbrev RpcResult := Except ErrorObject GetPriorityFeeEstimateResponse

/-- The stream loop with the tracker, the responses given and the gauges reported
    so far. -/
structure Service where
  geyser : GrpcGeyserImpl PriorityFeeTracker
  responses : List RpcResult
  gauges : List (List Gauge)

/-- A window, the responses given and the gauges reported so far. -/
structure WindowServer (n : ℕ) where
  window : Window n
  responses : List RpcResult
  gauges : List (List Gauge)

variable (S : Statrs) (crates : Crates) (process : ComputeBudgetProcessor) (names : ℕ → String)

namespace Service

/-- The program when it starts. -/
def new (maxLookbackSlots : ℕ) : Service where
  geyser := .new (.new maxLookbackSlots)
  responses := []
  gauges := []

/-- The server as it reads the tracker. -/
def server (x : Service) (maxLookbackSlots : ℕ) (rpcClient : RpcClient) :
    AtlasPriorityFeeEstimator where
  priorityFeeTracker := x.geyser.world
  rpcClient := some rpcClient
  maxLookbackSlots := maxLookbackSlots

def step (maxLookbackSlots : ℕ) (x : Service) : ServiceEvent → Option Service
  | .reply reply =>
    (x.geyser.step [PriorityFeeTracker.consumer process] names reply).map fun geyser =>
      { x with geyser := geyser }
  | .poll slots groups versions =>
    let gauges := x.geyser.world.recordGeneralFees S slots groups versions
    some { x with gauges := x.gauges ++ [gauges] }
  | .request orders rpcClient request isV1 =>
    let response := executePriorityFeeEstimateCoordinator S crates orders
      (x.server maxLookbackSlots rpcClient) request isV1
    some { x with responses := x.responses ++ [response] }

/-- The program after some events. -/
def run (maxLookbackSlots : ℕ) (events : List ServiceEvent) : Option Service :=
  events.foldlM (step S crates process names maxLookbackSlots) (new maxLookbackSlots)

end Service

namespace WindowServer

variable {n : ℕ}

noncomputable def step (y : WindowServer n) : ServiceEvent → WindowServer n
  | .reply reply =>
    let pushes := reply.update.toList.flatMap (PriorityFeeTracker.pushesOf process)
    { y with window := y.window.recordAll pushes }
  | .poll _ _ _ => { y with gauges := y.gauges ++ [windowGauges S y.window] }
  | .request _ rpcClient request isV1 =>
    let answer := windowAnswer S crates y.window (some rpcClient) request isV1
    { y with responses := y.responses ++ [answer] }

/-- The window server after some events. -/
noncomputable def run (n : ℕ) (events : List ServiceEvent) : WindowServer n :=
  events.foldl (step S crates process) ⟨.empty, [], []⟩

end WindowServer

/-- A response without the moments of its details. -/
def RpcResult.withoutMoments (r : RpcResult) : RpcResult :=
  r.map GetPriorityFeeEstimateResponse.withoutMoments

variable {S crates process names} {n : ℕ}

theorem Simulates.pushAll {t : PriorityFeeTracker} {w : Window n} (h : Simulates t w) (hn : 0 < n)
    (ps : List (Slot × Txn)) : Simulates (t.pushAll ps) (w.recordAll ps) := by
  induction ps generalizing t w with
  | nil => exact h
  | cons p ps ih => exact ih (h.push hn p)

/-- A reply changes the tracker by the pushes of the update it brings. -/
theorem GrpcGeyserImpl.step_world {x x' : GrpcGeyserImpl PriorityFeeTracker} {reply : Reply}
    (h : step [PriorityFeeTracker.consumer process] names x reply = some x') :
    x'.world = x.world.pushAll
      (reply.update.toList.flatMap (PriorityFeeTracker.pushesOf process)) := by
  rcases step_cases h with ⟨update, -, rfl, rfl⟩ | ⟨metric, -, -, hu, -, rfl⟩ | ⟨-, rfl, rfl⟩ |
    ⟨-, rfl, rfl⟩ | ⟨-, rfl, rfl⟩ | ⟨-, rfl, rfl⟩ | ⟨-, rfl, rfl⟩
  · rw [receive_eq, PriorityFeeTracker.deliver_consumer]
    simp [goto, Reply.update]
  · rw [hu]
    rfl
  all_goals rfl

namespace Service

/-- What the program and the window server have in common. -/
structure Refines (x : Service) (y : WindowServer n) : Prop where
  simulates : Simulates x.geyser.world y.window
  responses : x.responses.map RpcResult.withoutMoments = y.responses
  gauges : x.gauges = y.gauges

theorem Refines.new : Refines (new n) (⟨.empty, [], []⟩ : WindowServer n) where
  simulates := Simulates.new n
  responses := rfl
  gauges := rfl

/-- Every event keeps it so. -/
theorem Refines.step {x x' : Service} {y : WindowServer n} (h : Refines x y) (hn : 0 < n)
    (hS : S.DependsOnMultiset) (hnan : S.NanOnEmpty)
    (hname : Function.Injective (DataType.toText crates.display)) {event : ServiceEvent}
    (hstep : step S crates process names n x event = some x') :
    Refines x' (y.step S crates process event) := by
  cases event with
  | reply reply =>
    obtain ⟨geyser, hgeyser, rfl⟩ := Option.map_eq_some_iff.mp hstep
    refine ⟨?_, h.responses, h.gauges⟩
    change Simulates geyser.world _
    rw [GrpcGeyserImpl.step_world hgeyser]
    exact h.simulates.pushAll hn _
  | poll slots groups versions =>
    obtain rfl := Option.some.inj hstep
    refine ⟨h.simulates, h.responses, ?_⟩
    change x.gauges ++ [_] = y.gauges ++ [_]
    rw [h.gauges, h.simulates.recordGeneralFees_eq hS hnan]
  | request orders rpcClient request isV1 =>
    obtain rfl := Option.some.inj hstep
    refine ⟨h.simulates, ?_, h.gauges⟩
    change List.map _ (x.responses ++ [_]) = y.responses ++ [_]
    rw [List.map_append, h.responses, List.map_singleton]
    congr 2
    exact h.simulates.answer_eq hS hnan hname orders (some rpcClient) request isV1

end Service

end PriorityFeeEstimator
