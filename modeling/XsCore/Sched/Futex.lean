import XsCore.Foundation.Machine
import XsCore.Sched.Threads
import Mathlib.Tactic.Linarith
import Mathlib.Tactic.Ring

/-! # Futexes

`syscall_futex` and `xscore_syscall_futex_timer_tick` of `kernel/syscall.c`.  A step of the machine
is one section under `futex_wait_lock` or `thread_lock`.  A wait takes three of them: it registers,
it goes to sleep, and it collects its result; what a thread still has to do is its phase.
-/

namespace XsCore.Sched

def futexWaiters : Nat := maxThreads

/-- What two calls must agree on to meet: the address-space root, 0 for a shared futex, and the
virtual or the physical address. -/
structure Key where
  addressSpaceRoot : Nat
  address : Nat
  deriving DecidableEq

inductive WaitResult where
  | pending
  | woken
  | timedOut
  deriving DecidableEq

structure Waiter where
  key : Key := ⟨0, 0⟩
  threadId : Nat := 0
  deadlineTicks : Nat := 0
  result : WaitResult := .pending
  timed : Bool := false
  used : Bool := false

inductive FutexError where
  | invalid
  | noSys
  | fault
  | again
  | timedOut
  | busy

/-! ### Deadlines -/

/-- One round of `futex_divide_u64_u32` for each of the low `bits` bits, the highest first. -/
def futexDivideBits (dividend divisor : Nat) : Nat → Nat × Nat → Nat × Nat
  | 0, acc => acc
  | bit + 1, (quotient, remainder) =>
    let remainder := remainder * 2 + dividend / 2 ^ bit % 2
    if remainder ≥ divisor then
      futexDivideBits dividend divisor bit (quotient + 2 ^ bit, remainder - divisor)
    else futexDivideBits dividend divisor bit (quotient, remainder)

def futexDivide (dividend divisor : Nat) : Nat × Nat :=
  if divisor = 0 then (2 ^ 64 - 1, 0) else futexDivideBits dividend divisor 64 (0, 0)

def futexSaturatingMultiply (value factor : Nat) : Nat :=
  if value = 0 ∨ factor = 0 then 0
  else
    let high := value / 2 ^ 32
    let low := value % 2 ^ 32
    if high > (2 ^ 32 - 1) / factor then 2 ^ 64 - 1
    else if 2 ^ 64 - 1 - high * factor * 2 ^ 32 < low * factor then 2 ^ 64 - 1
    else high * factor * 2 ^ 32 + low * factor

structure FutexTimeout where
  expected : Nat
  reserved : Nat
  seconds : Nat
  nanoseconds : Nat
  reserved2 : Nat

def futexTimeoutTicks (frequency : Nat) (timeout : FutexTimeout) : Nat :=
  let frequency := if frequency = 0 then 100 else frequency
  let wholeTicks := futexSaturatingMultiply timeout.seconds frequency
  if wholeTicks = 2 ^ 64 - 1 then 2 ^ 64 - 1
  else
    let (ticks, remainder) := futexDivide (timeout.nanoseconds * frequency) 1000000000
    let fractionalTicks := if remainder ≠ 0 then ticks + 1 else ticks
    if 2 ^ 64 - 1 - wholeTicks < fractionalTicks then 2 ^ 64 - 1
    else wholeTicks + fractionalTicks

/-! ### The call -/

/-- The arguments of a futex call and what the kernel finds when it looks at them. -/
structure FutexCall where
  /-- The root of the caller's address space, if the thread has a process. -/
  root : Option Nat
  address : Nat
  operation : Nat
  value : Nat
  /-- `xscore_user_range_prepare` of the word. -/
  prepared : Bool
  /-- The timeout, if it could be copied in. -/
  timeout : Option FutexTimeout
  /-- What `xscore_process_page_info` says: whether the page is a user page, and its frame. -/
  page : Option (Bool × Nat)
  /-- The clock when the deadline is computed. -/
  now : Nat
  /-- The word, as the section that registers the thread reads it. -/
  word : Nat

structure WaitRequest where
  key : Key
  expected : Nat
  timed : Bool
  deadlineTicks : Nat

inductive Request where
  | wait (request : WaitRequest)
  | wake (key : Key) (value : Nat)

namespace FutexCall

def isPrivate (call : FutexCall) : Bool := call.operation.testBit 7

def command (call : FutexCall) : Nat :=
  if call.isPrivate then call.operation - 128 else call.operation

def key (call : FutexCall) (root physical : Nat) : Key :=
  if call.isPrivate then ⟨root, call.address⟩
  else ⟨0, (physical + call.address % 4096) % 2 ^ 64⟩

/-- The expected word and the deadline of a timed wait. -/
def deadline (call : FutexCall) (frequency : Nat) : Except FutexError (Nat × Nat) :=
  match call.timeout with
  | none => .error .fault
  | some timeout =>
    if timeout.reserved ≠ 0 ∨ timeout.reserved2 ≠ 0 ∨ timeout.nanoseconds ≥ 1000000000 then
      .error .invalid
    else
      let delta := futexTimeoutTicks frequency timeout
      .ok (timeout.expected, if 2 ^ 64 - 1 - call.now < delta then 2 ^ 64 - 1 else call.now + delta)

def decode (call : FutexCall) (frequency : Nat) : Except FutexError Request :=
  match call.root with
  | none => .error .invalid
  | some root =>
    if call.address = 0 ∨ call.address % 4 ≠ 0 then .error .invalid
    else if call.operation / 256 ≠ 0 ∨ call.command > 2 then .error .noSys
    else if !call.prepared then .error .fault
    else do
      let (expected, deadlineTicks) ←
        if call.command = 2 then
          if call.value = 0 then .error .fault else call.deadline frequency
        else .ok (call.value % 2 ^ 32, 0)
      match call.page with
      | some (true, physical) =>
        if root = 0 ∨ physical = 0 then .error .fault
        else if call.command = 1 then .ok (.wake (call.key root physical) call.value)
        else .ok (.wait ⟨call.key root physical, expected, call.command = 2, deadlineTicks⟩)
      | _ => .error .fault

end FutexCall

/-! ### The table of waiters -/

/-- The loop that looks for a slot drops the entries of threads that are gone.  It stops where it
meets an entry of the caller, and says so. -/
def sweep (sched : Scheduler) (thread : Nat) : List Waiter → List Waiter × Bool
  | [] => ([], false)
  | w :: ws =>
    let w := if w.used && sched.threadState w.threadId = .unused then { w with used := false } else w
    if w.used && w.threadId = thread then (w :: ws, true)
    else
      let (ws, busy) := sweep sched thread ws
      (w :: ws, busy)

def place (entry : Waiter) : List Waiter → Option (List Waiter)
  | [] => none
  | w :: ws => if w.used then (place entry ws).map (w :: ·) else some (entry :: ws)

/-- The second half of a wait: the thread's entry is freed, and its result read if the entry is for
the futex waited on. -/
def takeResult (thread : Nat) (key : Key) : List Waiter → WaitResult × List Waiter
  | [] => (.pending, [])
  | w :: ws =>
    if w.used && w.threadId = thread then
      (if w.key = key then w.result else .pending, { w with used := false } :: ws)
    else
      let (result, ws) := takeResult thread key ws
      (result, w :: ws)

def Waiter.waitsOn (w : Waiter) (key : Key) : Bool :=
  w.used && w.result = .pending && w.key = key

/-- The loop of a wake: it stops when it has woken `maximum` threads, and drops entries of threads
that cannot be woken.  The last component is the number of threads woken. -/
def wakeWaiters (key : Key) : Nat → Scheduler → List Waiter → Scheduler × List Waiter × Nat
  | _, sched, [] => (sched, [], 0)
  | 0, sched, ws => (sched, ws, 0)
  | maximum + 1, sched, w :: ws =>
    if w.waitsOn key then
      match sched.wake w.threadId with
      | some sched =>
        let (sched, ws, woken) := wakeWaiters key maximum sched ws
        (sched, { w with result := .woken } :: ws, woken + 1)
      | none =>
        let (sched, ws, woken) := wakeWaiters key (maximum + 1) sched ws
        (sched, { w with used := false } :: ws, woken)
    else
      let (sched, ws, woken) := wakeWaiters key (maximum + 1) sched ws
      (sched, w :: ws, woken)

def expireWaiters (now : Nat) : Scheduler → List Waiter → Scheduler × List Waiter
  | sched, [] => (sched, [])
  | sched, w :: ws =>
    if w.used && w.timed && w.result = .pending && w.deadlineTicks ≤ now then
      match sched.wake w.threadId with
      | some sched =>
        let (sched, ws) := expireWaiters now sched ws
        (sched, { w with result := .timedOut } :: ws)
      | none =>
        let freed := if sched.threadState w.threadId = .unused then { w with used := false } else w
        let (sched, ws) := expireWaiters now sched ws
        (sched, freed :: ws)
    else
      let (sched, ws) := expireWaiters now sched ws
      (sched, w :: ws)

/-! ### The machine -/

inductive Phase where
  | outside
  /-- The entry stands; `xscore_thread_block` is still to come. -/
  | registered (key : Key)
  /-- Inside `xscore_thread_block`. -/
  | asleep (key : Key)
  | resumed (key : Key)
  deriving DecidableEq

inductive Event where
  /-- A wait; `none` when it returned 0. -/
  | wait (thread : Nat) (error : Option FutexError)
  | wake (thread : Nat) (woken : Nat)
  | refused (thread : Nat) (error : FutexError)

structure Futex where
  sched : Scheduler
  phases : Nat → Phase
  waiters : List Waiter
  ticks : Nat
  frequency : Nat
  history : List Event

variable (s : Futex)

namespace Futex

def boot (frequency : Nat) : Futex where
  sched := .boot
  phases _ := .outside
  waiters := List.replicate futexWaiters {}
  ticks := 0
  frequency := frequency
  history := []

def answer (e : Event) : Futex := { s with history := e :: s.history }

def setPhase (t : Nat) (phase : Phase) : Futex :=
  { s with phases := Function.update s.phases t phase }

def CanCall (t : Nat) : Prop :=
  (s.sched.threads t).state = .running ∧ s.phases t = .outside

instance (s : Futex) (t : Nat) : Decidable (s.CanCall t) := inferInstanceAs (Decidable (_ ∧ _))

def register (t : Nat) (request : WaitRequest) (word : Nat) : Futex :=
  if word ≠ request.expected then s.answer (.wait t (some .again))
  else if request.timed ∧ request.deadlineTicks ≤ s.ticks then
    s.answer (.wait t (some .timedOut))
  else
    match sweep s.sched t s.waiters with
    | (ws, true) => { s with waiters := ws }.answer (.wait t (some .busy))
    | (ws, false) =>
      match place ⟨request.key, t, request.deadlineTicks, .pending, request.timed, true⟩ ws with
      | none => { s with waiters := ws }.answer (.wait t (some .again))
      | some ws => { s with waiters := ws }.setPhase t (.registered request.key)

def wakeAll (t : Nat) (key : Key) (value : Nat) : Futex :=
  if value = 0 then s.answer (.wake t 0)
  else
    let (sched, ws, woken) := wakeWaiters key (min value futexWaiters) s.sched s.waiters
    { s with sched := sched, waiters := ws }.answer (.wake t woken)

/-- `syscall_futex` up to its return or the sleep of a wait. -/
def syscallFutex (t : Nat) (call : FutexCall) : Futex :=
  match call.decode s.frequency with
  | .error e => s.answer (.refused t e)
  | .ok (.wait request) => s.register t request call.word
  | .ok (.wake key value) => s.wakeAll t key value

/-- The wait's own `xscore_thread_block`: a pending wake makes it return at once. -/
def block (s : Futex) (t : Nat) (key : Key) : Futex :=
  let (thread, sleeps) := (s.sched.threads t).block
  { s with sched := s.sched.setThread t thread }.setPhase t
    (if sleeps then .asleep key else .resumed key)

def collect (t : Nat) (key : Key) : Futex :=
  let (result, ws) := takeResult t key s.waiters
  let error := match result with
    | .woken => none
    | .timedOut => some FutexError.timedOut
    | .pending => some .again
  ({ s with waiters := ws }.setPhase t .outside).answer (.wait t error)

def timerTick (s : Futex) : Futex :=
  let (sched, ws) := expireWaiters s.ticks s.sched s.waiters
  { s with sched := sched, waiters := ws }

/-- Moves a thread can make where it is.  It sleeps elsewhere only when it is in no futex wait, and
leaves a wait for good only through the check at the end of `xscore_thread_block`. -/
def permits (phase : Phase) (t : Thread) : Move → Bool
  | .block => phase = .outside
  | .exit =>
    match phase with
    | .outside => true
    | .resumed _ => t.exitRequested
    | _ => false
  | _ => true

/-- A move of the scheduler.  The dispatch of a thread that slept in its wait ends the sleep. -/
def move (s : Futex) (t : Nat) (m : Move) : Futex :=
  let thread := s.sched.threads t
  if permits (s.phases t) thread m then
    let s' := { s with sched := s.sched.setThread t (thread.move m) }
    match m, s.phases t with
    | .dispatch, .asleep key =>
      if thread.state = .ready then s'.setPhase t (.resumed key) else s'
    | _, _ => s'
  else s

end Futex

inductive FutexOp where
  | futex (t : Nat) (call : FutexCall)
  | block (t : Nat)
  | collect (t : Nat)
  | advance
  | timerTick
  | move (t : Nat) (m : Move)
  | create

namespace Futex

def step (s : Futex) : FutexOp → Futex
  | .futex t call => if s.CanCall t then s.syscallFutex t call else s
  | .block t =>
    match s.phases t with
    | .registered key => if (s.sched.threads t).state = .running then s.block t key else s
    | _ => s
  | .collect t =>
    match s.phases t with
    | .resumed key => if (s.sched.threads t).state = .running then s.collect t key else s
    | _ => s
  | .advance => { s with ticks := (s.ticks + 1) % 2 ^ 64 }
  | .timerTick => s.timerTick
  | .move t m => s.move t m
  | .create =>
    { s with sched := s.sched.create }.setPhase s.sched.nextThreadId .outside

abbrev run (s : Futex) (ops : List FutexOp) : Futex := Machine.run step s ops

end Futex

end XsCore.Sched
