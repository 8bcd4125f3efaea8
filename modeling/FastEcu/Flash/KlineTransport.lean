import FastEcu.Flash.BeefTrace
import FastEcu.Logging.SsmProtocol

/-!
# The K-line transport of a flash session

What the executors of the K-line families call (`IKlineFlashTransport` of
`src/backend/flash/flash_executor.h`), as computations whose events are the calls, and the exchange that
their BEEF dialects share.

* `KlineAnswer` : what the cancellation token, the transport or the clock answers; a session runs against
  a list of them.
* `klineFrame`, `exchangeWith` : the frame of a request, and the exchange.
* `exchangeWith_writesFrame` : an exchange writes the frame of its request and nothing else.
-/

namespace FastEcu.Flash.Beef

open Calibration (ErrorKind)
open Data Computation Ports
open Logging (sum8)

/-- An answer: what the token says when it is asked, how many bytes a write has taken, what a call
without a value returns, and what a read returns.  Times are in milliseconds. -/
structure KlineAnswer where
  cancelled : Bool := false
  written : Except LinkError ℕ := .ok 0
  status : Except LinkError Unit := .ok ()
  frame : Except LinkError (Option Bytes) := .ok none

instance : Inhabited KlineAnswer := ⟨{}⟩

/-- A call of the transport or of the clock, with its answer. -/
inductive KlineEvent
  | write (data : Bytes) (written : Except LinkError ℕ)
  | read (timeout : ℤ) (frame : Except LinkError (Option Bytes))
  | sleep (duration : ℤ) (status : Except LinkError Unit)
  | enableProgrammingVoltageLine (status : Except LinkError Unit)
  | disableLecLines (status : Except LinkError Unit)
  | pulseLec2Line (duration : ℤ) (status : Except LinkError Unit)
  | setBaud (baud : ℤ) (status : Except LinkError Unit)

/-- A computation over the transport. -/
abbrev KlineCalls (α : Type) := Computation LinkError KlineEvent (List KlineAnswer) α

/-- A part of a session over the transport. -/
abbrev KlineRun (α : Type) := BeefRun KlineEvent KlineAnswer α

namespace Kline

/-- `ICancellationToken::Cancelled`. -/
def poll : KlineCalls Bool := ask fun answer => (.ok answer.cancelled, [])

/-- `IClock::Sleep`. -/
def sleep (duration : ℤ) : KlineCalls Unit :=
  ask fun answer => (answer.status, [.sleep duration answer.status])

/-- `IKlineTransport::Write`. -/
def write (data : Bytes) : KlineCalls ℕ :=
  ask fun answer => (answer.written, [.write data answer.written])

/-- `IKlineTransport::Read`. -/
def read (timeout : ℤ) : KlineCalls (Option Bytes) :=
  ask fun answer => (answer.frame, [.read timeout answer.frame])

/-- `IKlineFlashTransport::EnableProgrammingVoltageLine`. -/
def enableProgrammingVoltageLine : KlineCalls Unit :=
  ask fun answer => (answer.status, [.enableProgrammingVoltageLine answer.status])

/-- `IKlineFlashTransport::DisableLecLines`. -/
def disableLecLines : KlineCalls Unit :=
  ask fun answer => (answer.status, [.disableLecLines answer.status])

/-- `IKlineFlashTransport::PulseLec2Line`. -/
def pulseLec2Line (duration : ℤ) : KlineCalls Unit :=
  ask fun answer => (answer.status, [.pulseLec2Line duration answer.status])

/-- `IKlineFlashTransport::SetBaud`. -/
def setBaud (baud : ℤ) : KlineCalls Unit :=
  ask fun answer => (answer.status, [.setBaud baud answer.status])

/-- `CheckCancelled`. -/
def checkCancelled (detail : String) : KlineCalls Unit := do
  if ← poll then fail (.of .cancelled detail) else pure ()

/-- `DensoBeefKlineGuarded`. -/
def guarded (what : String) (action : KlineCalls Unit) : KlineCalls Unit := do
  checkCancelled ("cancelled before " ++ what)
  action
  checkCancelled ("cancelled after " ++ what)

/-- `DrainResponse`, `Drain`. -/
def drain (timeout : ℤ) (detail : String) : KlineCalls Unit :=
  guarded detail do
    let _ ← read timeout

/-- `DensoBeefKlineWriteAll`. -/
def writeAll (request : Bytes) : KlineCalls Unit := do
  let written ← write request
  if written ≠ request.length then fail (.of .disconnected "short K-Line write") else pure ()

/-- An exchange, which is checked for cancellation at its boundaries; the dialects differ in what they do
after the write. -/
def exchangeWith (afterWrite : KlineCalls Unit) (request : Bytes) (settle timeout : ℤ) :
    KlineCalls (Option Bytes) := do
  checkCancelled "cancelled before write"
  writeAll request
  afterWrite
  when (decide (0 < settle)) (sleep settle)
  checkCancelled "cancelled before read"
  let received ← read timeout
  checkCancelled "cancelled after read"
  pure received

end Kline

/-- `DensoBeefKlineFrame`: the request with the sum of its bytes. -/
def klineFrame (request : BeefRequest) : Bytes := request.body ++ [sum8 request.body]

/-! ### What is written -/

/-- What a call writes. -/
def KlineEvent.data? : KlineEvent → Option Bytes
  | .write data _ => some data
  | _ => none

/-- The call that has written the whole frame of a request. -/
def klineTaken (request : BeefRequest) : KlineEvent :=
  .write (klineFrame request) (.ok (klineFrame request).length)

/-- An event of the K-line writes the frame of its request, or nothing. -/
abbrev KlineFramed : BeefEvent KlineEvent → Prop := Framed KlineEvent.data? klineFrame klineTaken

theorem checkCancelled_silent (detail : String) :
    Silent KlineEvent.data? Unit (Kline.checkCancelled detail) :=
  Emits.compositional.bind (silent_ask fun _ _ h => (nomatch h)) fun _ =>
    Compositional.ite (Emits.compositional.fail _) (Emits.compositional.pure ())

/-- A call that leaves one event, which writes nothing. -/
theorem silent_call {α : Type} {value : KlineAnswer → Except LinkError α} {event : KlineAnswer → KlineEvent}
    (h : ∀ answer, (event answer).data? = none) :
    Silent KlineEvent.data? α (ask fun answer => (value answer, [event answer])) := by
  refine silent_ask fun answer call hmem => ?_
  rw [List.mem_singleton.1 hmem]
  exact h answer

theorem sleep_silent (duration : ℤ) : Silent KlineEvent.data? Unit (Kline.sleep duration) :=
  silent_call fun _ => rfl

theorem read_silent (timeout : ℤ) : Silent KlineEvent.data? (Option Bytes) (Kline.read timeout) :=
  silent_call fun _ => rfl

theorem enableProgrammingVoltageLine_silent :
    Silent KlineEvent.data? Unit Kline.enableProgrammingVoltageLine := silent_call fun _ => rfl

theorem disableLecLines_silent : Silent KlineEvent.data? Unit Kline.disableLecLines :=
  silent_call fun _ => rfl

theorem pulseLec2Line_silent (duration : ℤ) :
    Silent KlineEvent.data? Unit (Kline.pulseLec2Line duration) := silent_call fun _ => rfl

theorem setBaud_silent (baud : ℤ) : Silent KlineEvent.data? Unit (Kline.setBaud baud) :=
  silent_call fun _ => rfl

theorem guarded_silent {action : KlineCalls Unit} (h : Silent KlineEvent.data? Unit action)
    (what : String) : Silent KlineEvent.data? Unit (Kline.guarded what action) :=
  Emits.compositional.bind (checkCancelled_silent _) fun _ =>
    Emits.compositional.bind h fun _ => checkCancelled_silent _

theorem drain_silent (timeout : ℤ) (detail : String) :
    Silent KlineEvent.data? Unit (Kline.drain timeout detail) :=
  guarded_silent (Emits.compositional.bind (read_silent timeout) fun _ => Emits.compositional.pure ()) _

theorem writeAll_writesFrame (frame : Bytes) :
    Meets (WritesFrame KlineEvent.data? frame (.write frame (.ok frame.length)))
      (Kline.writeAll frame) := by
  have hframe : ∀ written, ∀ call ∈ [KlineEvent.write frame written], ∀ data,
      call.data? = some data → data = frame := by
    intro written call hmem data hdata
    rw [List.mem_singleton.1 hmem] at hdata
    exact (Option.some.inj hdata).symm
  refine .bind (.ask fun answer => ?_)
  cases hwritten : answer.written with
  | error e => exact .error ⟨hframe _, fun _ h => (nomatch h)⟩
  | ok written =>
    refine .ok (.ite (fun _ => .fail ⟨hframe _, fun _ h => (nomatch h)⟩) fun hlength => .pure ?_)
    rw [not_not.1 hlength]
    exact ⟨hframe _, fun _ _ => by simp⟩

theorem exchangeWith_writesFrame {afterWrite : KlineCalls Unit}
    (h : Silent KlineEvent.data? Unit afterWrite) (frame : Bytes) (settle timeout : ℤ) :
    Meets (WritesFrame KlineEvent.data? frame (.write frame (.ok frame.length)))
      (Kline.exchangeWith afterWrite frame settle timeout) := by
  refine WritesFrame.silent_bind (checkCancelled_silent _) fun _ =>
    WritesFrame.bind (writeAll_writesFrame frame) fun _ => ?_
  exact Emits.compositional.bind h fun _ =>
    Emits.compositional.bind (Emits.compositional.when _ (sleep_silent _)) fun _ =>
    Emits.compositional.bind (checkCancelled_silent _) fun _ =>
    Emits.compositional.bind (read_silent _) fun _ =>
    Emits.compositional.bind (checkCancelled_silent _) fun _ => Emits.compositional.pure _

end FastEcu.Flash.Beef
