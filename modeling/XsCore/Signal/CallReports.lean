import XsCore.Signal.Calls

/-! # What a program learns of its system calls

A program reads the result of a call from the accumulator, after the handler if one ran in between.
The signal frame holds a zero there, so a call that the first check replaced by a handler looks like
a success that was never performed, and a `read` whose bytes are gone looks like the end of the
file.
-/

namespace XsCore.Signal

variable {W : Type}
variable (c : ReadCall W) (s : CallState W) (ctx : Nat → Nat) (call : Call W)
  (forkContext : Option (Nat → Nat)) (e : Errno)
variable (effect : Option Nat)
variable {memory : UserMemory} {t : Task} {done : Done W}

/-! ## The property -/

def IsError (word : Nat) : Prop := 2 ^ 64 - 4096 < word

/-- The word tells what happened: the result of the action that was performed, or an error when none
was. -/
def Told (effect : Option Nat) (word : Nat) : Prop :=
  effect = some word ∨ effect = none ∧ IsError word

/-- The program is told what its call did.  After a handler it reads the accumulator that
`sigreturn` restores.  A thread may end only by the default action of a signal without a handler. -/
def Outcome.Reported (o : Outcome W) : Prop :=
  match o.leaving with
  | .returns word => Told o.effect word
  | .handled d => ∀ after st resumed, HandlerReturned d after st →
      resumedContext .x86_64 after st = some resumed → Told o.effect (resumed.ctx 14)
  | .ended t => t.hasHandler = false

/-! ## When a call is reported -/

def Task.Deliverable (t : Task) : Prop :=
  t.caught = true → validSignal t.process.pendingSignal = true

def ReadCall.reads (c : ReadCall W) (s : CallState W) : Bool :=
  c.hasTable && c.length != 0 && rangePrepare s.memory.writable c.buffer c.count && c.allocated

/-- The bytes `write` hands to the descriptor, if it gets that far. -/
def WriteCall.source (c : WriteCall W) (s : CallState W) : Option (List UInt8) :=
  if c.hasTable && c.length != 0 && c.allocated then copyFromUser s.memory c.buffer c.count
  else none

def KillCall.sends (c : KillCall W) : Bool := c.target != 0 && validSignal c.signal

/-- What the descriptor gave can be reported: after an error no handler is in the way, the end of
the file is a zero whether a handler runs or not, and bytes need both the buffer and no handler. -/
def ReadCall.Settled (c : ReadCall W) (ctx : Nat → Nat) :
    CallState W × Except Errno (List UInt8) → Prop
  | (s, .error _) => Spared s.task ctx s.memory
  | (s, .ok bytes) =>
    if bytes.length = 0 then s.task.Deliverable
    else Spared s.task ctx s.memory ∧ (s.task.endsByDefault = false →
      rangePrepare s.memory.writable c.buffer bytes.length = true)

/-- The program can take what is copied to it. -/
def Reply.taken (r : Reply) (memory : UserMemory) : Bool :=
  match r.output with
  | none => true
  | some (address, bytes) => rangePrepare memory.writable address bytes.length

/-- The body tells the truth, and where it finds no room for its output it has done nothing, or
failed for that reason. -/
def Reply.Settled : CallState W × Reply → Prop
  | (s, r) => if r.taken s.memory then Told r.effect r.word else Told r.effect badAddress.word

def Call.Settled (ctx : Nat → Nat) (s : CallState W) : Call W → Prop
  | .unchecked body | .other body => Reply.Settled (body s)
  | .read c => c.reads s = true → c.Settled ctx (c.fdRead c.count s)
  | .write c => ∀ bytes, c.source s = some bytes → (c.fdWrite bytes s).1.task.caught = false
  | .kill c => c.sends = true → (c.send s).2 = none → (c.send s).1.task.Deliverable

def Call.start (call : Call W) (ctx : Nat → Nat) (forkContext : Option (Nat → Nat))
    (s : CallState W) : Option (CallState W) :=
  if call.checked then
    match deliverCheck s.task ctx forkContext s.memory with
    | .passes task memory => some { s with task := task, memory := memory }
    | _ => none
  else some s

/-- No handler takes the place of the call, and none hides its result. -/
structure Undisturbed (call : Call W) (ctx : Nat → Nat) (forkContext : Option (Nat → Nat))
    (s : CallState W) : Prop where
  entry : call.checked = true → Spared s.task ctx s.memory
  body : ∀ s', call.start ctx forkContext s = some s' → call.Settled ctx s'

/-! ## One check -/

theorem Errno.isError_word : IsError e.word := by
  have hpos := e.pos
  have hsmall := e.small
  unfold IsError Errno.word
  omega

theorem Errno.word_ne_zero : e.word ≠ 0 := by
  have hsmall := e.small
  unfold Errno.word
  omega

/-- After a handler the program reads a zero. -/
theorem handled_reported_iff {p : Process} {ctx : Nat → Nat} {forkContext : Option (Nat → Nat)}
    {d : Entered} (h : dispatchUserSignal p ctx forkContext memory = .entered d) (s : CallState W)
    (effect : Option Nat) :
    ({ state := s, effect := effect, leaving := .handled d } : Outcome W).Reported ↔
      effect = some 0 := by
  have hwritten := dispatch_frameWritten h
  constructor
  · intro hreported
    obtain ⟨after, st, hreturned⟩ := exists_handlerReturned hwritten
    obtain ⟨resumed, hresumed, hwords, -⟩ := handler_resumes hwritten hreturned
    have htold := hreported after st resumed hreturned hresumed
    have hzero : resumed.ctx 14 = 0 := hwords 14 (by omega)
    rw [hzero] at htold
    rcases htold with heffect | ⟨-, herror⟩
    · exact heffect
    · simp [IsError] at herror
  · intro heffect after st resumed hreturned hresumed
    obtain ⟨resumed', hresumed', hwords, -⟩ := handler_resumes hwritten hreturned
    have hsame : resumed = resumed' := Option.some.inj (hresumed.symm.trans hresumed')
    have hzero : resumed.ctx 14 = 0 := by
      rw [hsame]
      exact hwords 14 (by omega)
    rw [hzero]
    exact .inl heffect

theorem hasHandler_of_caught (h : t.caught) : t.hasHandler := by
  simp only [Task.caught, Bool.and_eq_true] at h
  exact h.2

theorem not_hasHandler_of_endsByDefault (h : t.endsByDefault) : t.hasHandler = false := by
  simp only [Task.endsByDefault, Bool.and_eq_true, Bool.not_eq_true'] at h
  exact h.2

theorem not_caught_of_endsByDefault (h : t.endsByDefault) : t.caught = false := by
  simp [Task.caught, not_hasHandler_of_endsByDefault h]

theorem ended_reported_iff (goOn : CallState W → Outcome W) (t : Task) (memory : UserMemory) :
    ((Check.ends t memory).leave s effect goOn).Reported ↔ t.hasHandler = false :=
  Iff.rfl

theorem Spared.deliverable {ctx : Nat → Nat} (h : Spared t ctx memory) : t.Deliverable :=
  fun hcaught => (h hcaught).1

theorem spared_of_uncaught (memory : UserMemory) (h : t.caught = false) : Spared t ctx memory :=
  fun hcaught => absurd hcaught (by simp [h])

/-- A check in front of `goOn`: a handler reports a zero, the default action nothing, and otherwise
it is up to what follows. -/
theorem deliverCheck_reported_iff (goOn : CallState W → Outcome W) :
    ((deliverCheck s.task ctx forkContext s.memory).leave s effect goOn).Reported ↔
      s.task.Deliverable ∧ (effect ≠ some 0 → Spared s.task ctx s.memory) ∧
      ∀ task memory, deliverCheck s.task ctx forkContext s.memory = .passes task memory →
        (goOn { s with task := task, memory := memory }).Reported := by
  -- a check that passes hands over to `goOn`, once it is known that no handler is in the way
  have hpasses : ∀ task memory, Spared s.task ctx s.memory →
      (((Check.passes task memory).leave s effect goOn).Reported ↔
        s.task.Deliverable ∧ (effect ≠ some 0 → Spared s.task ctx s.memory) ∧
        ∀ task' memory', Check.passes task memory = .passes task' memory' →
          (goOn { s with task := task', memory := memory' }).Reported) := by
    intro task memory hspared
    constructor
    · intro hreported
      refine ⟨hspared.deliverable, fun _ => hspared, ?_⟩
      intro task' memory' hsame
      cases hsame
      exact hreported
    · intro hall
      exact hall.2.2 task memory rfl
  cases hcaught : s.task.caught with
  | true =>
    have hhandler := hasHandler_of_caught hcaught
    rcases deliverCheck_caught ctx forkContext s.memory hcaught with
      ⟨hvalid, hcheck⟩ | ⟨hvalid, hroom, task, memory, hcheck⟩ | ⟨hvalid, hroom, d, hentered, hcheck⟩
    · rw [hcheck, ended_reported_iff]
      constructor
      · intro hnone
        simp [hnone] at hhandler
      · intro hall
        exact absurd (hall.1 hcaught) (by simp [hvalid])
    · rw [hcheck]
      exact hpasses task memory fun _ => ⟨hvalid, hroom⟩
    · rw [hcheck]
      refine (handled_reported_iff hentered _ effect).trans ⟨?_, ?_⟩
      · intro hzero
        exact ⟨fun _ => hvalid, fun hne => absurd hzero hne, nofun⟩
      · intro hall
        by_contra hne
        have hfull := (hall.2.1 hne hcaught).2
        simp [hroom] at hfull
  | false =>
    have hspared := spared_of_uncaught ctx s.memory hcaught
    rcases deliverCheck_uncaught ctx forkContext s.memory hcaught with
      ⟨-, task, memory, hcheck⟩ | ⟨hends, hcheck⟩
    · rw [hcheck]
      exact hpasses task memory hspared
    rw [hcheck, ended_reported_iff]
    constructor
    · intro _
      exact ⟨hspared.deliverable, fun _ => hspared, nofun⟩
    · intro _
      exact not_hasHandler_of_endsByDefault hends

/-- Where no handler is in the way, only the default action keeps a check from passing. -/
theorem Spared.passes_iff {ctx : Nat → Nat}
    (hspared : Spared t ctx memory) (forkContext : Option (Nat → Nat)) :
    (∃ task memory', deliverCheck t ctx forkContext memory = .passes task memory') ↔
      t.endsByDefault = false := by
  cases hcaught : t.caught with
  | true =>
    have hends : t.endsByDefault = false := by
      by_contra hends
      rw [Bool.not_eq_false] at hends
      simp [not_caught_of_endsByDefault hends] at hcaught
    refine iff_of_true ?_ hends
    rcases deliverCheck_caught ctx forkContext memory hcaught with
      ⟨hvalid, -⟩ | ⟨-, -, hpasses⟩ | ⟨-, hroom, -⟩
    · exact absurd (hspared hcaught).1 (by simp [hvalid])
    · exact hpasses
    · exact absurd (hspared hcaught).2 (by simp [hroom])
  | false =>
    rcases deliverCheck_uncaught ctx forkContext memory hcaught with
      ⟨hends, hpasses⟩ | ⟨hends, hcheck⟩
    · exact iff_of_true hpasses hends
    rw [hcheck, hends]
    constructor
    · rintro ⟨task, memory', hsame⟩
      exact nomatch hsame
    · nofun

theorem takeCheck_reported_iff (goOn : CallState W → Outcome W) (hgoOn : ∀ s, (goOn s).Reported) :
    ((takeCheck s.task s.memory).leave s effect goOn).Reported ↔ s.task.caught = false := by
  rcases hcaught : s.task.caught with _ | _
  swap
  · obtain ⟨hcheck, hhandler⟩ := takeCheck_caught s.memory hcaught
    rw [hcheck, ended_reported_iff, hhandler]
  refine iff_of_true ?_ rfl
  rcases takeCheck_uncaught s.memory hcaught with ⟨task, hcheck⟩ | ⟨hcheck, hhandler⟩
  · rw [hcheck]
    exact hgoOn _
  · rw [hcheck, ended_reported_iff]
    exact hhandler

/-! ## The bodies -/

theorem refuse_reported (ctx : Nat → Nat) (forkContext : Option (Nat → Nat)) :
    ((s.refuse e).leave ctx forkContext).Reported :=
  .inr ⟨rfl, e.isError_word⟩

theorem return_reported (h : done.effect = some done.result) (s : CallState W) :
    (done.return s).Reported :=
  .inl h

/-- A body that returns the result of its action after a check. -/
theorem deliver_reported_iff (hrecheck : done.recheck = .deliver)
    (htrue : done.effect = some done.result) (ctx : Nat → Nat) (forkContext : Option (Nat → Nat)) :
    (done.leave ctx forkContext).Reported ↔ done.state.task.Deliverable ∧
      (done.result ≠ 0 → Spared done.state.task ctx done.state.memory) := by
  unfold Done.leave
  rw [hrecheck]
  rw [deliverCheck_reported_iff, htrue]
  constructor
  · intro hall
    exact ⟨hall.1, fun hne => hall.2.1 (by simpa using hne)⟩
  · intro hall
    refine ⟨hall.1, fun hne => hall.2 (by simpa using hne), ?_⟩
    intro task memory _
    exact return_reported htrue _

theorem take_reported_iff (hrecheck : done.recheck = .take)
    (htrue : done.effect = some done.result) (ctx : Nat → Nat) (forkContext : Option (Nat → Nat)) :
    (done.leave ctx forkContext).Reported ↔ done.state.task.caught = false := by
  unfold Done.leave
  rw [hrecheck]
  exact takeCheck_reported_iff done.state done.effect done.return (return_reported htrue)

theorem copyOut_reported_iff (r : CallState W × Except Errno (List UInt8))
    (hlength : ∀ bytes, r.2 = .ok bytes → bytes.length ≤ maxIo) :
    ((c.copyOut r).leave ctx forkContext).Reported ↔ c.Settled ctx r := by
  rcases r with ⟨s, e | bytes⟩
  · refine (deliver_reported_iff rfl rfl ctx forkContext).trans ?_
    constructor
    · intro hall
      exact hall.2 e.word_ne_zero
    · intro hspared
      exact ⟨Spared.deliverable hspared, fun _ => hspared⟩
  have hlong := hlength bytes rfl
  rw [ReadCall.copyOut, ReadCall.Settled]
  split_ifs with hempty
  · refine (deliver_reported_iff rfl rfl ctx forkContext).trans ?_
    exact and_iff_left fun hne => absurd rfl hne
  rw [copyToUser]
  split_ifs with hroom
  · refine (deliver_reported_iff rfl rfl ctx forkContext).trans ?_
    constructor
    · intro hall
      exact ⟨hall.2 hempty, fun _ => hroom⟩
    · intro hall
      exact ⟨hall.1.deliverable, fun _ => hall.1⟩
  -- the bytes are gone and the program is told that its buffer was bad
  have hlie : ∀ s' : CallState W, ¬ Outcome.Reported
      { state := s', effect := some bytes.length, leaving := .returns badAddress.word } := by
    intro s' htold
    rcases htold with heffect | ⟨hnone, -⟩
    · have hword : bytes.length = 2 ^ 64 - 14 := Option.some.inj heffect
      unfold maxIo at hlong
      omega
    · cases hnone
  refine (deliverCheck_reported_iff s ctx forkContext _ _).trans ?_
  have hne : (some bytes.length : Option Nat) ≠ some 0 := by simpa using hempty
  constructor
  · intro hall
    have hspared := hall.2.1 hne
    refine ⟨hspared, ?_⟩
    intro hends
    obtain ⟨task, memory, hpasses⟩ := (hspared.passes_iff forkContext).mpr hends
    exact absurd (hall.2.2 task memory hpasses) (hlie _)
  · intro hall
    refine ⟨hall.1.deliverable, fun _ => hall.1, ?_⟩
    intro task memory hpasses
    have hends := (hall.1.passes_iff forkContext).mp ⟨task, memory, hpasses⟩
    exact absurd (hall.2 hends) hroom

theorem read_reported_iff (s : CallState W) : ((syscallRead c s).leave ctx forkContext).Reported ↔
      (c.reads s → c.Settled ctx (c.fdRead c.count s)) := by
  have hlength : ∀ bytes, (c.fdRead c.count s).2 = .ok bytes → bytes.length ≤ maxIo := by
    intro bytes hok
    have hcount := c.fdRead_length _ s bytes hok
    unfold ReadCall.count at hcount
    omega
  unfold syscallRead ReadCall.reads
  rcases htable : c.hasTable with _ | _
  · simpa using refuse_reported s badDescriptor ctx forkContext
  by_cases hzero : c.length = 0
  · simp only [hzero]
    exact iff_of_true (.inl rfl) (by simp)
  cases hrange : rangePrepare s.memory.writable c.buffer c.count with
  | false => simpa [hzero] using refuse_reported s badAddress ctx forkContext
  | true =>
    cases hheap : c.allocated with
    | false => simpa [hzero] using refuse_reported s noMemory ctx forkContext
    | true => simpa [hzero] using copyOut_reported_iff c ctx forkContext _ hlength

theorem write_reported_iff (c : WriteCall W) (ctx : Nat → Nat) (forkContext : Option (Nat → Nat))
    (s : CallState W) : ((syscallWrite c s).leave ctx forkContext).Reported ↔
      ∀ bytes, c.source s = some bytes → (c.fdWrite bytes s).1.task.caught = false := by
  unfold syscallWrite WriteCall.source
  rcases htable : c.hasTable with _ | _
  · simpa using refuse_reported s badDescriptor ctx forkContext
  by_cases hzero : c.length = 0
  · simp only [hzero]
    exact iff_of_true (.inl rfl) (by simp)
  rcases hheap : c.allocated with _ | _
  · simpa [hzero] using refuse_reported s noMemory ctx forkContext
  cases hcopied : copyFromUser s.memory c.buffer c.count with
  | none => simpa [hzero] using refuse_reported s badAddress ctx forkContext
  | some bytes =>
    simpa [hzero] using take_reported_iff rfl rfl ctx forkContext

theorem kill_reported_iff (c : KillCall W) (ctx : Nat → Nat) (forkContext : Option (Nat → Nat))
    (s : CallState W) : ((syscallKill c s).leave ctx forkContext).Reported ↔
      (c.sends → (c.send s).2 = none → (c.send s).1.task.Deliverable) := by
  unfold syscallKill KillCall.sends
  split_ifs with hrefused
  · refine iff_of_true (refuse_reported s invalidArgument ctx forkContext) ?_
    intro hsends
    simp only [Bool.and_eq_true, bne_iff_ne] at hsends
    rcases hrefused with h | h
    · exact absurd h hsends.1
    · exact absurd hsends.2 (by simp [h])
  have hsends : (c.target != 0 && validSignal c.signal) := by simpa using hrefused
  generalize c.send s = sent
  rcases sent with ⟨s', _ | e⟩
  · refine (deliver_reported_iff rfl rfl ctx forkContext).trans ?_
    constructor
    · intro hall _ _
      exact hall.1
    · intro hall
      exact ⟨hall hsends rfl, fun hne => absurd rfl hne⟩
  · exact iff_of_true (.inl rfl) (fun _ hsome => by cases hsome)

theorem runBody_reported_iff (ctx : Nat → Nat) (forkContext : Option (Nat → Nat))
    (r : CallState W × Reply) :
    ((runBody r).leave ctx forkContext).Reported ↔ Reply.Settled r := by
  obtain ⟨s, effect, word, _ | ⟨address, bytes⟩⟩ := r
  · exact Iff.rfl
  rw [Reply.Settled, Reply.taken, runBody, copyToUser]
  split_ifs <;> exact Iff.rfl

/-- What the checks at the end of a body leave of its result. -/
theorem perform_reported_iff (ctx : Nat → Nat) (forkContext : Option (Nat → Nat)) (s : CallState W) :
    ((call.perform s).leave ctx forkContext).Reported ↔ call.Settled ctx s := by
  cases call with
  | unchecked body | other body => exact runBody_reported_iff ctx forkContext (body s)
  | read c => exact read_reported_iff c ctx forkContext s
  | write c => exact write_reported_iff c ctx forkContext s
  | kill c => exact kill_reported_iff c ctx forkContext s

/-! ## Whole calls -/

def interruptedTask : Task where
  process := interruptedProcess
  run := .running
  waitStatus := 0
  uid := 0
  effectiveUid := 0
  log := []

def writeByte : WriteCall (List UInt8) where
  hasTable := true
  buffer := 0x500000
  length := 1
  allocated := true
  fdWrite := fun bytes s => ({ s with world := s.world ++ bytes }, .ok bytes.length)

def interruptedState : CallState (List UInt8) where
  world := []
  task := interruptedTask
  memory := mappedMemory

end XsCore.Signal
