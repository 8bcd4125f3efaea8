import FastEcu.Data.NextFit
import FastEcu.Logging.ReadPlan

/-!
# What a logging session has

What the checks of `MakeLoggingSession` give (`src/backend/logging/logging_session.cpp`): a conversion for
each channel, ids that are all different, and channels that fit the protocol.

* `SessionSpec` : the channels, their conversions and what the protocol needs.
* `makeLoggingSession_spec` : every session has it.
* `batchChannelsIntoFrames_spec` : the frames of CDBG.
-/

namespace FastEcu.Logging

open Calibration (Error ErrorKind invalidConfig)
open Data
open Expression (Numbers Instruction)

/-! ### The frames of CDBG -/

/-- The data bytes of a frame. -/
def frameBytes (frame : List CdbgChannel) : ℕ := (frame.map (·.size.toNat)).sum

theorem frameBytes_concat (frame : List CdbgChannel) (channel : CdbgChannel) :
    frameBytes (frame ++ [channel]) = frameBytes frame + channel.size.toNat := by
  simp [frameBytes]

/-- The loop cuts the channels as they fit into frames; an empty frame is only left out at the end. -/
theorem batchLoop_eq {frames : List (List CdbgChannel)} {current rest : List CdbgChannel} {byteIndex : ℕ}
    (hindex : byteIndex = 1 + frameBytes current) (hne : current ≠ [] ∨ rest ≠ []) :
    batchLoop frames current byteIndex rest =
      frames ++ nextFit (fun channel => channel.size.toNat) kMaxFrameBytes current rest := by
  induction rest generalizing frames current byteIndex with
  | nil =>
    have hcurrent : current ≠ [] := hne.resolve_right fun h => h rfl
    rw [batchLoop, if_pos hcurrent, nextFit]
  | cons channel rest ih =>
    rw [batchLoop]
    split
    · rename_i hfull
      have hfull' : kMaxFrameBytes < load (fun channel => channel.size.toNat) current + channel.size.toNat := by
        change 7 < frameBytes current + channel.size.toNat
        omega
      rw [nextFit_cons_of_lt hfull', ih (by simp [frameBytes]) (.inl (by simp)), List.append_assoc,
        List.singleton_append]
    · rename_i hroom
      have hroom' : load (fun channel => channel.size.toNat) current + channel.size.toNat ≤ kMaxFrameBytes := by
        change frameBytes current + channel.size.toNat ≤ 7
        omega
      rw [nextFit_cons_of_le hroom', ih (by rw [frameBytes_concat]; omega) (.inl (by simp))]

/-- The loop keeps the channels in order and the frames within their size. -/
theorem batchLoop_spec {frames : List (List CdbgChannel)} {current rest : List CdbgChannel}
    {byteIndex : ℕ} (hindex : byteIndex = 1 + frameBytes current) (hle : byteIndex ≤ 8)
    (hframes : ∀ frame ∈ frames, frameBytes frame ≤ kMaxFrameBytes)
    (hsizes : ∀ channel ∈ rest, channel.size.toNat ≤ kMaxFrameBytes) :
    (batchLoop frames current byteIndex rest).flatten = frames.flatten ++ current ++ rest ∧
      ∀ frame ∈ batchLoop frames current byteIndex rest, frameBytes frame ≤ kMaxFrameBytes := by
  by_cases hne : current ≠ [] ∨ rest ≠ []
  · have hcurrent : frameBytes current ≤ kMaxFrameBytes := by
      rw [kMaxFrameBytes]
      omega
    rw [batchLoop_eq hindex hne, List.flatten_append, flatten_nextFit]
    refine ⟨(List.append_assoc ..).symm, ?_⟩
    intro frame hmem
    rcases List.mem_append.1 hmem with hmem | hmem
    · exact hframes frame hmem
    · exact load_le_of_mem_nextFit hcurrent hsizes frame hmem
  · push Not at hne
    obtain ⟨rfl, rfl⟩ := hne
    exact ⟨by simp [batchLoop], by simpa [batchLoop] using hframes⟩

/-- **The frames of CDBG**: at most eight of at most seven data bytes, with the channels in order. -/
theorem batchChannelsIntoFrames_spec {channels : List CdbgChannel} {frames : List (List CdbgChannel)}
    (hsizes : ∀ channel ∈ channels, channel.size.toNat ≤ kMaxFrameBytes)
    (h : batchChannelsIntoFrames channels = some frames) : frames.flatten = channels ∧
      frames.length ≤ kMaxFrames ∧ ∀ frame ∈ frames, frameBytes frame ≤ kMaxFrameBytes := by
  rw [batchChannelsIntoFrames] at h
  split at h
  · cases h
  · simp only at h
    split at h
    · cases h
    · rename_i hfit
      cases h
      have hindex : 1 = 1 + frameBytes [] := rfl
      have hframes : ∀ frame ∈ ([] : List (List CdbgChannel)), frameBytes frame ≤ kMaxFrameBytes := by
        simp
      obtain ⟨hflatten, hall⟩ := batchLoop_spec hindex (by omega) hframes hsizes
      exact ⟨by simpa using hflatten, Nat.le_of_not_lt hfit, hall⟩

/-! ### The channels -/

section Session

variable {α : Type} {N : Numbers α} {protocol : LoggingProtocolId} {channel : LoggingChannel}
  {channels : List LoggingChannel} {policy : LoggingPolicy}

theorem validateChannelFields_of_compiled {compiled : List (Instruction α)}
    (h : compileChannel N protocol channel = .ok compiled) :
    validateChannelFields protocol channel = .ok () := by
  rw [compileChannel] at h
  split at h
  · cases h
  · assumption

/-- The width of a channel that passes the checks, and the one of a `float`. -/
theorem width_of_validateChannelFields (h : validateChannelFields protocol channel = .ok ()) :
    (channel.length = 1 ∨ channel.length = 2 ∨ channel.length = 4) ∧
      (channel.storage = .float → channel.length = 4) := by
  rw [validateChannelFields] at h
  by_cases hid : channel.id = ""
  · rw [if_pos hid] at h
    cases h
  rw [if_neg hid] at h
  by_cases hlength : channel.length = 1 ∨ channel.length = 2 ∨ channel.length = 4
  · refine ⟨hlength, fun hfloat => ?_⟩
    rw [if_neg (not_not_intro hlength)] at h
    by_contra hne
    have hunknown : ¬knownEncoding channel := by simp [knownEncoding, hfloat, hne]
    repeat' split at h
    all_goals cases h
  · rw [if_pos hlength] at h
    cases h

theorem compileChannels_eq_ok {ids : List String} {conversions result : List (List (Instruction α))}
    (h : compileChannels N protocol ids conversions channels = .ok result) :
    ∃ rest, result = conversions ++ rest ∧
      List.Forall₂ (fun channel compiled => compileChannel N protocol channel = .ok compiled)
        channels rest ∧
      (channels.map (·.id)).Nodup ∧ ∀ channel ∈ channels, channel.id ∉ ids := by
  induction channels generalizing ids conversions with
  | nil =>
    cases h
    exact ⟨[], by simp, .nil, by simp, by simp⟩
  | cons channel channels ih =>
    simp only [compileChannels] at h
    split at h
    · cases h
    · rename_i hid
      cases hcompiled : compileChannel N protocol channel with
      | error e =>
        rw [hcompiled] at h
        cases h
      | ok compiled =>
        rw [hcompiled] at h
        obtain ⟨rest, rfl, hall, hnodup, hfresh⟩ := ih h
        refine ⟨compiled :: rest, by simp, .cons hcompiled hall, ?_, ?_⟩
        · rw [List.map_cons, List.nodup_cons]
          refine ⟨?_, hnodup⟩
          intro hmem
          obtain ⟨other, hother, heq⟩ := List.mem_map.1 hmem
          exact hfresh other hother (by simp [heq])
        · intro c hc
          rcases List.mem_cons.1 hc with rfl | hc
          · exact hid
          · exact fun hmem => hfresh c hc (List.mem_append_left _ hmem)

/-- What the protocol needs. -/
def FitsWire (channels : List LoggingChannel) (session : LoggingSession α) : Prop :=
  match session.protocol with
  | .ssm => ∃ plan, session.readPlan = some plan ∧ ReadPlanSpec channels plan
  | .mutDma => channels.length ≤ 96 ∧ (channels.map (·.length)).sum ≤ 96
  | .cdbg => ∃ frames, batchChannelsIntoFrames (channels.map (·.toCdbg)) = some frames ∧
      frames.flatten = channels.map (·.toCdbg) ∧ frames.length ≤ kMaxFrames ∧
      ∀ frame ∈ frames, frameBytes frame ≤ kMaxFrameBytes

/-- What a session has. -/
structure SessionSpec (N : Numbers α) (protocol : LoggingProtocolId)
    (channels : List LoggingChannel) (session : LoggingSession α) : Prop where
  protocol_eq : session.protocol = protocol
  channels_eq : session.channels = channels
  ids_nodup : (channels.map (·.id)).Nodup
  conversions : List.Forall₂
    (fun channel compiled => compileChannel N protocol channel = .ok compiled) channels
    session.conversions
  wire : FitsWire channels session

theorem width_of_compiled {conversions : List (List (Instruction α))}
    (h : List.Forall₂ (fun channel compiled => compileChannel N protocol channel = .ok compiled)
      channels conversions) :
    ∀ channel ∈ channels, (channel.length = 1 ∨ channel.length = 2 ∨ channel.length = 4) ∧
      (channel.storage = .float → channel.length = 4) := by
  induction h with
  | nil => simp
  | cons hcompiled _ ih =>
    intro c hc
    rcases List.mem_cons.1 hc with rfl | hc
    · exact width_of_validateChannelFields (validateChannelFields_of_compiled hcompiled)
    · exact ih c hc

theorem toNat_size_toCdbg (h : channel.length = 1 ∨ channel.length = 2 ∨ channel.length = 4) :
    channel.toCdbg.size.toNat ≤ kMaxFrameBytes := by
  change (UInt8.ofNat channel.length).toNat ≤ kMaxFrameBytes
  rcases h with h | h | h
  · rw [h]
    decide
  · rw [h]
    decide
  · rw [h]
    decide

/-- **What every session has.** -/
theorem makeLoggingSession_spec {session : LoggingSession α}
    (h : makeLoggingSession N protocol channels policy = .ok session) :
    SessionSpec N protocol channels session := by
  rw [makeLoggingSession] at h
  split at h
  · cases h
  split at h
  · cases h
  cases hcompiled : compileChannels N protocol [] [] channels with
  | error e =>
    rw [hcompiled] at h
    cases h
  | ok conversions =>
    rw [hcompiled] at h
    obtain ⟨rest, hrest, hall, hnodup, -⟩ := compileChannels_eq_ok hcompiled
    rw [List.nil_append] at hrest
    subst hrest
    simp only at h
    split at h
    · cases h
    · rename_i hwire
      rw [not_not] at hwire
      cases protocol with
      | ssm =>
        simp only at h
        cases hplan : makeSsmReadPlan channels with
        | error e =>
          rw [hplan] at h
          cases h
        | ok plan =>
          rw [hplan] at h
          cases h
          exact ⟨rfl, rfl, hnodup, hall, plan, rfl, makeSsmReadPlan_spec hplan⟩
      | mutDma =>
        simp only [validateMutRequestSize] at h
        split at h
        · rename_i herror
          split at herror
          · cases h
          · cases herror
        · rename_i hok
          split at hok
          · cases hok
          · rename_i hsize
            cases h
            exact ⟨rfl, rfl, hnodup, hall, by omega, by omega⟩
      | cdbg =>
        cases h
        obtain ⟨frames, hframes⟩ := Option.isSome_iff_exists.1 hwire
        refine ⟨rfl, rfl, hnodup, hall, frames, hframes, batchChannelsIntoFrames_spec ?_ hframes⟩
        intro c hc
        obtain ⟨channel, hmem, rfl⟩ := List.mem_map.1 hc
        exact toNat_size_toCdbg (width_of_compiled hall channel hmem).1

end Session

end FastEcu.Logging
