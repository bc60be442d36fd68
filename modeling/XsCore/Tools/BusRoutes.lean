import XsCore.Foundation.Machine
import Mathlib.Data.List.Nodup

/-!
# Routes of the message bus

The table of pending routes of `dbus-daemon`.  Every client has a thread; the thread that routes a
call waits until its route is completed.  A reply is matched by its own serial number, not by the
one its reply-serial field names.
-/

namespace XsCore.Tools.Bus

open Function Machine Option List

def maxPending : Nat := 8

structure Call where
  caller : Nat
  target : Nat
  serial : UInt32
  deriving DecidableEq

/-- `struct dbus_pending_route` while it is used; `number` counts the calls. -/
structure Route where
  call : Call
  number : Nat
  delivered : Bool
  completed : Bool
  deriving DecidableEq

/-- A reply that was passed on, with the call it answers and the call of its route. -/
structure Forward where
  service : Nat
  answers : Option Nat
  receiver : Nat
  number : Nat
  /-- The route was not completed before. -/
  outstanding : Bool
  deriving DecidableEq

structure State where
  routes : Nat → Option Route
  /-- Routes whose delivery has failed, before they are marked. -/
  failing : List Nat
  calls : List Call
  forwards : List Forward

def start : State := ⟨fun _ => none, [], [], []⟩

namespace State

def find (s : State) (q : Option Route → Bool) : Option Nat :=
  (range maxPending).find? fun i => q (s.routes i)

def setRoute (s : State) (i : Nat) (r : Option Route) : State :=
  { s with routes := update s.routes i r }

/-- The client's thread waits for a route of its own. -/
def waits (s : State) (client : Nat) : Bool :=
  (s.find fun r => r.any fun r => r.call.caller = client).isSome

/-- `queue_route`, up to the wait. -/
def queueRoute (s : State) (call : Call) : State :=
  match s.find fun r => r.isNone with
  | none => s
  | some i => { s.setRoute i (some ⟨call, s.calls.length, false, false⟩) with
      calls := s.calls ++ [call] }

/-- The end of `queue_route`: the thread sees that its route is completed. -/
def wakeUp (s : State) (i : Nat) : State :=
  if (s.routes i).any Route.completed then s.setRoute i none else s

def complete (r : Route) : Route := { r with completed := true }

/-- `deliver_queued_route`, with the result of the transmission. -/
def deliverQueuedRoute (s : State) (target : Nat) (sent : Bool) : State :=
  match s.find fun r => r.any fun r => r.call.target = target && !r.delivered with
  | none => s
  | some i => { s.setRoute i ((s.routes i).map fun r => { r with delivered := true }) with
      failing := if sent then s.failing else i :: s.failing }

/-- What follows a failed transmission, once the lock is taken again; the route may be another one
by now. -/
def markFailed (s : State) (i : Nat) : State :=
  if i ∈ s.failing then { s.setRoute i ((s.routes i).map complete) with
    failing := s.failing.erase i }
  else s

/-- `forward_route_reply`, with the result of the transmission. -/
def forwardRouteReply (s : State) (service : Nat) (serial : UInt32) (answers : Option Nat)
    (sent : Bool) : State :=
  match s.find fun r => r.any fun r =>
      r.call.target = service && r.delivered && r.call.serial = serial with
  | none => s
  | some i =>
    match s.routes i with
    | none => s
    | some r => { s.setRoute i (some (complete r)) with
        forwards := if sent then
            ⟨service, answers, r.call.caller, r.number, !r.completed⟩ :: s.forwards
          else s.forwards }

def failRoutesForClient (s : State) (client : Nat) : State :=
  { s with routes := fun i => (s.routes i).map fun r =>
      if r.call.caller = client || r.call.target = client then complete r else r }

end State

inductive Op where
  | call (request : Call)
  | wakeUp (slot : Nat)
  | deliver (target : Nat) (sent : Bool)
  | markFailed (slot : Nat)
  /-- A method return or error with its own serial number; `answers` is the call that its
  reply-serial field names. -/
  | reply (service : Nat) (serial : UInt32) (answers : Option Nat) (sent : Bool)
  | disconnect (client : Nat)

def Op.apply (s : State) : Op → State
  | .call request => if s.waits request.caller then s else s.queueRoute request
  | .wakeUp slot => s.wakeUp slot
  | .deliver target sent => if s.waits target then s else s.deliverQueuedRoute target sent
  | .markFailed slot => s.markFailed slot
  | .reply service serial answers sent =>
      if s.waits service then s else s.forwardRouteReply service serial answers sent
  | .disconnect client => s.failRoutesForClient client

/-- Replies go to the clients whose calls they answer, and no call is answered twice. -/
structure Routed (s : State) : Prop where
  answers : ∀ f ∈ s.forwards, f.outstanding = true ∧ f.answers = some f.number ∧
    ∃ call, s.calls[f.number]? = some call ∧ call.caller = f.receiver ∧ call.target = f.service
  once : (s.forwards.map Forward.number).Nodup

/-- A call does not repeat the serial number of a pending call to the same client.  A reply has the
serial number of the call it answers, which is delivered and not completed; one that answers no call
has a serial number of no delivered call. -/
def Op.Orderly (s : State) : Op → Prop
  | .call request => ∀ i r, s.routes i = some r → r.call.target = request.target →
      r.call.serial ≠ request.serial
  | .reply service serial (some number) _ => ∃ i r, s.routes i = some r ∧ r.number = number ∧
      r.call.target = service ∧ r.call.serial = serial ∧ r.completed = false
  | .reply service serial none _ => ∀ i r, s.routes i = some r → r.call.target = service →
      r.delivered = true → r.call.serial ≠ serial
  | _ => True

/-! ## The table and the calls -/

structure TableOk (s : State) : Prop extends Routed s where
  logged : ∀ i r, s.routes i = some r → s.calls[r.number]? = some r.call
  apart : ∀ i j r r', s.routes i = some r → s.routes j = some r' →
    r.call.target = r'.call.target → r.call.serial = r'.call.serial → i = j
  unanswered : ∀ i r, s.routes i = some r → r.completed = false →
    r.number ∉ s.forwards.map Forward.number

variable {s : State}

theorem find_some {q : Option Route → Bool} {i : Nat} (h : s.find q = some i) : q (s.routes i) := by
  have hfound := find?_some h
  exact hfound

theorem TableOk.evolve (h : TableOk s) (routes : Nat → Option Route) (failing : List Nat)
    (hroutes : ∀ i r', routes i = some r' → ∃ r, s.routes i = some r ∧ r'.call = r.call ∧
      r'.number = r.number ∧ (r'.completed = false → r.completed = false)) :
    TableOk { s with routes := routes, failing := failing } := by
  constructor
  · exact ⟨h.answers, h.once⟩
  · intro i r' hr'
    obtain ⟨r, hr, hcall, hnumber, -⟩ := hroutes i r' hr'
    rw [hcall, hnumber]
    exact h.logged i r hr
  · intro i j r r' hr hr' htarget hserial
    obtain ⟨q, hq, hcall, -, -⟩ := hroutes i r hr
    obtain ⟨q', hq', hcall', -, -⟩ := hroutes j r' hr'
    rw [hcall, hcall'] at htarget hserial
    exact h.apart i j q q' hq hq' htarget hserial
  · intro i r' hr' hopen
    obtain ⟨r, hr, -, hnumber, hcompleted⟩ := hroutes i r' hr'
    rw [hnumber]
    exact h.unanswered i r hr (hcompleted hopen)

theorem setRoute_cases {i j : Nat} {r : Option Route} {q : Route}
    (h : (s.setRoute i r).routes j = some q) :
    j = i ∧ r = some q ∨ j ≠ i ∧ s.routes j = some q := by
  have h : update s.routes i r j = some q := h
  by_cases hj : j = i
  · rw [hj, update_self] at h
    exact Or.inl ⟨hj, h⟩
  · rw [update_of_ne hj] at h
    exact Or.inr ⟨hj, h⟩

theorem TableOk.setRoute (h : TableOk s) (i : Nat) (r' : Option Route) (failing : List Nat)
    (hr : ∀ q, r' = some q → ∃ r, s.routes i = some r ∧ q.call = r.call ∧ q.number = r.number ∧
      (q.completed = false → r.completed = false)) :
    TableOk { s.setRoute i r' with failing := failing } := by
  apply h.evolve
  intro j q hq
  rcases setRoute_cases hq with ⟨rfl, hnew⟩ | ⟨-, hold⟩
  · exact hr q hnew
  · exact ⟨q, hold, rfl, rfl, id⟩

theorem TableOk.queueRoute (h : TableOk s) {request : Call}
    (horderly : Op.Orderly s (.call request)) : TableOk (s.queueRoute request) := by
  unfold State.queueRoute
  split
  · exact h
  next i hi =>
  have hlogged : ∀ {number : Nat} {call : Call}, s.calls[number]? = some call →
      (s.calls ++ [request])[number]? = some call := by
    intro number call hcall
    rw [List.getElem?_append_left (List.getElem?_eq_some_iff.mp hcall).1, hcall]
  constructor
  · constructor
    · intro f hf
      obtain ⟨hopen, hanswers, call, hcall, hends⟩ := h.answers f hf
      exact ⟨hopen, hanswers, call, hlogged hcall, hends⟩
    · exact h.once
  · intro j r hr
    rcases setRoute_cases hr with ⟨-, hnew⟩ | ⟨-, hold⟩
    · cases hnew
      exact getElem?_concat_length
    · exact hlogged (h.logged j r hold)
  · intro j k r r' hr hr' htarget hserial
    rcases setRoute_cases hr with ⟨hj, hnew⟩ | ⟨-, hold⟩
    · cases hnew
      rcases setRoute_cases hr' with ⟨hk, -⟩ | ⟨-, hold'⟩
      · rw [hj, hk]
      · exact absurd hserial.symm (horderly k r' hold' htarget.symm)
    · rcases setRoute_cases hr' with ⟨-, hnew⟩ | ⟨-, hold'⟩
      · cases hnew
        exact absurd hserial (horderly j r hold htarget)
      · exact h.apart j k r r' hold hold' htarget hserial
  · intro j r hr hopen hmem
    rcases setRoute_cases hr with ⟨-, hnew⟩ | ⟨-, hold⟩
    · cases hnew
      obtain ⟨f, hf, hnumber⟩ := mem_map.mp hmem
      obtain ⟨-, -, call, hcall, -⟩ := h.answers f hf
      rw [hnumber, getElem?_eq_none (Nat.le_refl _)] at hcall
      cases hcall
    · exact h.unanswered j r hold hopen hmem

theorem TableOk.forwardRouteReply (h : TableOk s) {service : Nat} {serial : UInt32}
    {answers : Option Nat} {sent : Bool}
    (horderly : Op.Orderly s (.reply service serial answers sent)) :
    TableOk (s.forwardRouteReply service serial answers sent) := by
  unfold State.forwardRouteReply
  split
  · exact h
  next i hi =>
  have hfound := find_some hi
  split
  · exact h
  next r hr =>
  rw [hr, any_some] at hfound
  simp only [Bool.and_eq_true, decide_eq_true_eq] at hfound
  obtain ⟨⟨htarget, hdelivered⟩, hserial⟩ := hfound
  have hanswers : answers = some r.number ∧ r.completed = false := by
    rcases answers with _ | number
    · exact absurd hserial (horderly i r hr htarget hdelivered)
    obtain ⟨j, q, hq, hnumber, hservice, hown, hopen⟩ := horderly
    have hsame := h.apart i j r q hr hq (htarget.trans hservice.symm)
      (hserial.trans hown.symm)
    rw [← hsame, hr] at hq
    rw [some.inj hq]
    exact ⟨congrArg some hnumber.symm, hopen⟩
  have hset := h.setRoute i (some (State.complete r)) s.failing fun q hq =>
    ⟨r, hr, by rw [← some.inj hq]; rfl, by rw [← some.inj hq]; rfl,
      by rw [← some.inj hq]; exact nofun⟩
  rcases sent with _ | _
  · exact hset
  constructor
  · constructor
    · intro f hf
      rcases mem_cons.mp hf with rfl | hf
      · exact ⟨by simp [hanswers.2], hanswers.1, r.call, h.logged i r hr, rfl, htarget⟩
      · exact h.answers f hf
    · exact nodup_cons.mpr ⟨h.unanswered i r hr hanswers.2, h.once⟩
  · exact hset.logged
  · exact hset.apart
  · intro j q hq hopen hmem
    rcases mem_cons.mp hmem with hsame | hmem
    · rcases setRoute_cases hq with ⟨-, hnew⟩ | ⟨hne, hold⟩
      · rw [← some.inj hnew] at hopen
        cases hopen
      have hcall := h.logged j q hold
      rw [hsame, h.logged i r hr] at hcall
      have hcall := some.inj hcall
      exact hne (h.apart j i q r hold hr (by rw [hcall]) (by rw [hcall]))
    · exact hset.unanswered j q hq hopen hmem

theorem TableOk.step (s : State) (op : Op) (h : TableOk s) (horderly : op.Orderly s) :
    TableOk (op.apply s) := by
  cases op with
  | call request =>
    rw [Op.apply]
    split
    · exact h
    · exact h.queueRoute horderly
  | wakeUp slot =>
    rw [Op.apply, State.wakeUp]
    split
    · exact h.setRoute slot none s.failing nofun
    · exact h
  | deliver target sent =>
    rw [Op.apply]
    split
    · exact h
    unfold State.deliverQueuedRoute
    split
    · exact h
    apply h.setRoute
    intro q hq
    obtain ⟨r, hr, rfl⟩ := map_eq_some_iff.mp hq
    exact ⟨r, hr, rfl, rfl, id⟩
  | markFailed slot =>
    rw [Op.apply, State.markFailed]
    split
    · apply h.setRoute
      intro q hq
      obtain ⟨r, hr, rfl⟩ := map_eq_some_iff.mp hq
      exact ⟨r, hr, rfl, rfl, nofun⟩
    · exact h
  | reply service serial answers sent =>
    rw [Op.apply]
    split
    · exact h
    · exact h.forwardRouteReply horderly
  | disconnect client =>
    apply h.evolve
    intro i q hq
    obtain ⟨r, hr, hq⟩ := map_eq_some_iff.mp hq
    split at hq
    · rw [← hq]
      exact ⟨r, hr, rfl, rfl, nofun⟩
    · rw [← hq]
      exact ⟨r, hr, rfl, rfl, id⟩

/-- In every run of orderly steps, replies go where they belong. -/
theorem replies_routed (ops : List Op) (h : Guarded Op.apply (fun s op => op.Orderly s) start ops) :
    Routed (run Op.apply start ops) :=
  (h.invariant TableOk TableOk.step
    ⟨⟨nofun, nodup_nil⟩, nofun, nofun, nofun⟩).toRouted

/-- Two clients call a service, which answers the first call with a serial number of its own, the
second call's. -/
def crossedSerials : List Op :=
  [.call ⟨2, 1, 1⟩, .call ⟨3, 1, 2⟩, .deliver 1 true, .deliver 1 true, .reply 1 2 (some 0) true]

/-- The answer goes to the client of the second call. -/
theorem reply_to_wrong_client :
    (run Op.apply start crossedSerials).forwards = [⟨1, some 0, 3, 1, true⟩] ∧
      ¬ Routed (run Op.apply start crossedSerials) := by
  have hforwards : (run Op.apply start crossedSerials).forwards =
      [⟨1, some 0, 3, 1, true⟩] := by decide
  constructor
  · exact hforwards
  · intro h
    have hanswers := (h.answers ⟨1, some 0, 3, 1, true⟩ (by rw [hforwards]; simp)).2.1
    cases hanswers

/-- One call that is answered with its own serial number. -/
theorem replies_routed_one : Routed (run Op.apply start
      [.call ⟨2, 1, 7⟩, .deliver 1 true, .reply 1 7 (some 0) true, .wakeUp 0]) := by
  apply replies_routed
  refine ⟨nofun, trivial, ?_, trivial, trivial⟩
  exact ⟨0, ⟨⟨2, 1, 7⟩, 0, true, false⟩, by decide, rfl, rfl, rfl, rfl⟩

end XsCore.Tools.Bus
