import XsCore.Foundation.Machine
import XsCore.Foundation.Ring

/-!
# Canonical input of a pseudo-terminal

A terminal in canonical mode.  `pty_master_input` edits the line buffer byte by
byte; at the end of a line `pty_buffer_write` moves the buffer into the slave's
queue, one byte at a time, and waits whenever the queue is full.  Slave reads
and signals come between these steps.  Echo goes to the other queue and is left
out.
-/

namespace XsCore.File

structure Termios where
  icrnl : Bool
  isig : Bool
  intr : UInt8
  susp : UInt8
  erase : UInt8
  kill : UInt8
  eof : UInt8

def ptyBufSize : Nat := 1024

def canonicalSize : Nat := 256

def newline : UInt8 := 10

/-- `written` counts the bytes of the line that a running `pty_buffer_write` has
queued, and `received` holds what the slave has read. -/
structure Terminal where
  termios : Termios
  slaves : Nat
  canonical : List UInt8
  written : Option Nat
  queue : Ring.Buffer UInt8
  received : List UInt8

inductive TerminalStep where
  | input (c : UInt8)
  | put
  | signal
  | read (length : Nat)

namespace Termios

def translate (t : Termios) (c : UInt8) : UInt8 :=
  if c = 13 ∧ t.icrnl then newline else c

def Signals (t : Termios) (c : UInt8) : Prop := t.isig ∧ (c = t.intr ∨ c = t.susp)

def Erases (t : Termios) (c : UInt8) : Prop := c = t.erase ∨ c = 8

instance (t : Termios) (c : UInt8) : Decidable (t.Signals c) :=
  inferInstanceAs (Decidable (_ ∧ _))

instance (t : Termios) (c : UInt8) : Decidable (t.Erases c) :=
  inferInstanceAs (Decidable (_ ∨ _))

end Termios

namespace Terminal

/-- Without a slave the write fails and the line stays in the buffer. -/
def flush (p : Terminal) : Terminal :=
  if p.slaves = 0 then p else { p with written := some 0 }

def typeByte (p : Terminal) (c : UInt8) : Terminal :=
  if p.termios.Signals c then { p with canonical := [] }
  else if p.termios.Erases c then { p with canonical := p.canonical.dropLast }
  else if c = p.termios.eof then if p.canonical = [] then p else p.flush
  else
    let p :=
      if p.canonical.length < canonicalSize then { p with canonical := p.canonical ++ [c] } else p
    if c = newline then p.flush else p

def step (p : Terminal) : TerminalStep → Terminal
  -- the master's operation lock is held until the write of a line has ended
  | .input c => if p.written.isSome then p else p.typeByte (p.termios.translate c)
  | .put =>
      match p.written with
      | none => p
      | some n =>
          if p.queue.count = ptyBufSize then p
          else
            let p := { p with queue := p.queue.put ptyBufSize (p.canonical.getD n 0) }
            if n + 1 < p.canonical.length then { p with written := some (n + 1) }
            else { p with canonical := [], written := none }
  | .signal =>
      match p.written with
      | none => p
      | some n =>
          if p.queue.count = ptyBufSize then
            { p with canonical := if n = 0 then p.canonical else [], written := none }
          else p
  | .read length =>
      let count := min length p.queue.count
      { p with
        received := p.received ++ p.queue.peek ptyBufSize count
        queue := p.queue.skip ptyBufSize count }

end Terminal

/-! ## Line editing -/

/-- What has been typed: the completed lines and the line being edited. -/
structure Typed where
  lines : List (List UInt8)
  line : List UInt8

namespace Typed

def type (e : Typed) (t : Termios) (c : UInt8) : Typed :=
  if t.Signals c then { e with line := [] }
  else if t.Erases c then { e with line := e.line.dropLast }
  else if c = t.kill then { e with line := [] }
  else if c = t.eof then e
  else if c = newline then ⟨e.lines ++ [e.line ++ [newline]], []⟩
  else { e with line := e.line ++ [c] }

def follow (p : Terminal) (op : TerminalStep) (e : Typed) : Typed :=
  match op with
  | .input c => if p.written.isSome then e else e.type p.termios (p.termios.translate c)
  | _ => e

/-- The completed lines, in order, are what the slave has received, what is
queued for it, and the rest of the line being written. -/
def Delivered (e : Typed) (p : Terminal) : Prop :=
  p.received ++ p.queue.queue ptyBufSize ++ (p.written.elim [] p.canonical.drop) = e.lines.flatten

end Typed

namespace Terminal

/-- The byte is no kill character, an end-of-file character finds no unfinished
line, the line has room, and a slave is there for a completed line. -/
def Accepts (p : Terminal) (c : UInt8) : Prop :=
  ¬ p.termios.Signals c → ¬ p.termios.Erases c →
    c ≠ p.termios.kill ∧ (c = p.termios.eof → p.canonical = []) ∧
      p.canonical.length < canonicalSize ∧ (c = newline → p.slaves ≠ 0)

/-- Every byte is accepted, and no signal ends a write that waits for room. -/
def Clean (p : Terminal) : TerminalStep → Prop
  | .input c => p.written = none → p.Accepts (p.termios.translate c)
  | .signal => p.written.isSome → p.queue.count ≠ ptyBufSize
  | _ => True

/-- While no write runs, the buffer is the line being edited; a running write
moves a completed line. -/
structure Follows (p : Terminal) (e : Typed) : Prop where
  ring : p.queue.Ok ptyBufSize
  delivered : e.Delivered p
  editing : p.written = none → p.canonical = e.line
  writing : ∀ n, p.written = some n → n < p.canonical.length ∧ e.line = []

theorem follows_typeByte {p : Terminal} {e : Typed} {c : UInt8} (h : Follows p e)
    (hidle : p.written = none) (hc : p.Accepts c) :
    Follows (p.typeByte c) (e.type p.termios c) := by
  have hline := h.editing hidle
  have hsent := h.delivered
  simp only [Typed.Delivered, hidle, Option.elim_none, List.append_nil] at hsent
  have hring := h.ring
  unfold typeByte Typed.type
  by_cases hsignal : p.termios.Signals c
  · simp only [if_pos hsignal]
    exact ⟨hring, by simpa [Typed.Delivered, hidle] using hsent, by simp, by simp [hidle]⟩
  by_cases herase : p.termios.Erases c
  · simp only [if_neg hsignal, if_pos herase]
    exact ⟨hring, by simpa [Typed.Delivered, hidle] using hsent, by simp [hline], by simp [hidle]⟩
  obtain ⟨hkill, hempty, hroom, hslave⟩ := hc hsignal herase
  split_ifs with heof hline' hnl
  · exact h
  · exact absurd (hempty heof) hline'
  · rw [flush, if_neg (hslave hnl)]
    exact ⟨hring, by simp [Typed.Delivered, ← hsent, hline, hnl], by simp, by simp⟩
  · exact ⟨hring, by simpa [Typed.Delivered, hidle] using hsent, by simp [hline], by simp [hidle]⟩

theorem follows_put {p : Terminal} {e : Typed} (h : Follows p e) : Follows (p.step .put) e := by
  simp only [step]
  rcases hwritten : p.written with _ | n
  · exact h
  obtain ⟨hn, hline⟩ := h.writing n hwritten
  have hsent := h.delivered
  simp only [Typed.Delivered, hwritten, Option.elim_some] at hsent
  -- the byte that is queued is the first of the rest of the line
  rw [List.drop_eq_getElem_cons hn] at hsent
  dsimp only
  split_ifs with hfull hmore
  · exact h
  all_goals
    have hroom : p.queue.count < ptyBufSize := lt_of_le_of_ne h.ring.count_le hfull
    have hring := h.ring.put hroom (p.canonical.getD n 0)
    have hqueue := Ring.Buffer.queue_put h.ring hroom (p.canonical.getD n 0)
    rw [List.getD_eq_getElem?_getD, List.getElem?_eq_getElem hn, Option.getD_some] at hring hqueue ⊢
  · refine ⟨hring, ?_, by simp, by simpa using ⟨hmore, hline⟩⟩
    simpa only [Typed.Delivered, hqueue, Option.elim_some, List.append_assoc,
      List.singleton_append] using hsent
  · rw [List.drop_eq_nil_of_le (by omega : p.canonical.length ≤ n + 1)] at hsent
    refine ⟨hring, ?_, by simp [hline], by simp⟩
    simpa only [Typed.Delivered, hqueue, Option.elim_none, List.append_nil, List.append_assoc]
      using hsent

theorem step_follows (p : Terminal) (op : TerminalStep) (e : Typed) (h : Follows p e)
    (hop : p.Clean op) : Follows (p.step op) (Typed.follow p op e) := by
  cases op with
  | input c =>
    simp only [step, Typed.follow]
    split_ifs with hbusy
    · exact h
    · have hidle : p.written = none := by simpa using hbusy
      exact follows_typeByte h hidle (hop hidle)
  | put => exact follows_put h
  | signal =>
    simp only [step, Typed.follow]
    cases hwritten : p.written with
    | none => exact h
    | some n =>
      dsimp only
      rw [if_neg (hop (by simp [hwritten]))]
      exact h
  | read length =>
    have hcount : min length p.queue.count ≤ p.queue.count := min_le_right _ _
    refine ⟨h.ring.skip hcount, ?_, h.editing, h.writing⟩
    have hsent := h.delivered
    rw [Typed.Delivered, ← p.queue.peek_append_skip hcount, ← List.append_assoc] at hsent
    exact hsent

def opened (termios : Termios) (slaves : Nat) : Terminal :=
  ⟨termios, slaves, [], none, ⟨fun _ => 0, 0, 0, 0⟩, []⟩

/-- After the run, the slave has been sent the completed lines of the bytes typed. -/
def SendsLines (termios : Termios) (slaves : Nat) (ops : List TerminalStep) : Prop :=
  (Machine.shadow step Typed.follow (opened termios slaves) ⟨[], []⟩ ops).Delivered
    (Machine.run step (opened termios slaves) ops)

theorem lines_delivered {termios : Termios} {slaves : Nat} {ops : List TerminalStep}
    (hops : Machine.Guarded step Clean (opened termios slaves) ops) :
    SendsLines termios slaves ops :=
  (hops.simulation Follows step_follows
    ⟨⟨Nat.zero_lt_succ _, rfl, Nat.zero_le _⟩,
      by simp [Typed.Delivered, opened, Ring.Buffer.queue], fun _ => rfl,
      by simp [opened]⟩).delivered

/-- The settings of `pty_defaults`. -/
def defaults : Termios := ⟨true, true, 3, 26, 0x7f, 21, 4⟩

/-- A line of one character, ended by a carriage return, reaches the slave. -/
theorem lines_delivered_oneLine :
    SendsLines defaults 1 [.input 97, .input 13, .put, .put, .read 2] :=
  lines_delivered ⟨fun _ _ _ => by decide, fun _ _ _ => by decide, trivial, trivial, trivial,
    trivial⟩

/-- The kill character does not remove the line but becomes a part of it. -/
theorem kill_character_delivered : ¬ SendsLines defaults 1
      [.input 97, .input 21, .input 98, .input 10, .put, .put, .put, .put, .read 4] := by
  unfold SendsLines Typed.Delivered
  decide

end Terminal

end XsCore.File
