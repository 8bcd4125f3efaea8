import FastEcu.Calibration.Definition

/-!
# Errors of the ports

`src/backend/ports/error.h`: an error says of a cancellation whether the operation may have reached
the ECU.

* `LinkError` : the error with its exposure.
* `LinkError.Refused` : the operation was cancelled before it was handed on.
-/

namespace FastEcu.Ports

open Calibration (ErrorKind)

/-- `CancellationIoExposure`. -/
inductive CancellationIoExposure
  | mayHaveStarted
  | refusedBeforeDelegation
deriving DecidableEq, Repr

/-- `Error`, with the exposure of a cancellation. -/
structure LinkError extends Calibration.Error where
  cancellationIoExposure : CancellationIoExposure := .mayHaveStarted
deriving DecidableEq, Repr

namespace LinkError

/-- `Fail`: the exposure is the conservative one. -/
def of (kind : ErrorKind) (detail : String) : LinkError := { kind, detail }

/-- `CancelledBeforeDelegation`. -/
def cancelledBeforeDelegation (detail : String) : LinkError :=
  { kind := .cancelled, detail, cancellationIoExposure := .refusedBeforeDelegation }

/-- `AfterIoMayHaveStarted`. -/
def afterIoMayHaveStarted (e : LinkError) : LinkError :=
  if e.kind = .cancelled then { e with cancellationIoExposure := .mayHaveStarted } else e

/-- A cancellation that is marked as refused before delegation. -/
def Refused (e : LinkError) : Prop :=
  e.kind = .cancelled ∧ e.cancellationIoExposure = .refusedBeforeDelegation

instance (e : LinkError) : Decidable e.Refused := inferInstanceAs (Decidable (_ ∧ _))

theorem not_refused_afterIoMayHaveStarted (e : LinkError) : ¬ e.afterIoMayHaveStarted.Refused := by
  rintro ⟨hkind, hexposure⟩
  unfold afterIoMayHaveStarted at hkind hexposure
  split at hexposure
  · cases hexposure
  · rename_i hne
    rw [if_neg hne] at hkind
    exact hne hkind

theorem not_refused_of (kind : ErrorKind) (detail : String) : ¬ (of kind detail).Refused := by
  rintro ⟨-, hexposure⟩
  cases hexposure

end LinkError

end FastEcu.Ports
