import FastEcu.Logging.Session

/-!
# What a read plan asks for

The addresses of the read plan of SSM are those of the channels, one channel after the other, and each
channel finds its bytes where its addresses stand (`MakeSsmReadPlan` of
`src/backend/logging/logging_read_plan.cpp`).

* `channelAddresses` : the addresses of a channel: those it lists, or consecutive ones.
* `ReadPlanSpec` : the addresses, the positions and the limits.
* `makeSsmReadPlan_spec` : every plan has them.
-/

namespace FastEcu.Logging

open Calibration (Error ErrorKind invalidConfig)
open Expression (Numbers Instruction)

/-- The addresses of the bytes of a channel: those it lists, or consecutive ones. -/
def channelAddresses (channel : LoggingChannel) : List UInt32 :=
  if channel.byteAddresses = [] then
    (List.range channel.length).map fun i => UInt32.ofNat (channel.address.toNat + i)
  else channel.byteAddresses

/-- Where the channels find their bytes, from a position on. -/
def positionsFrom : ℕ → List LoggingChannel → List (List ℕ)
  | _, [] => []
  | offset, channel :: rest =>
    List.range' offset channel.length :: positionsFrom (offset + channel.length) rest

/-- What a read plan is for its channels. -/
structure ReadPlanSpec (channels : List LoggingChannel) (plan : SsmReadPlan) : Prop where
  addresses : plan.addresses = channels.flatMap channelAddresses
  positions : plan.responsePositions = positionsFrom 0 channels
  inRange : ∀ address ∈ plan.addresses, address.toNat < 0x1000000
  length_le : plan.addresses.length ≤ 84
  channelLength : ∀ channel ∈ channels, (channelAddresses channel).length = channel.length

theorem planBytes_eq_ok {channel : LoggingChannel} {i count : ℕ} {addresses addresses' : List UInt32}
    {positions positions' : List ℕ}
    (h : planBytes channel i count addresses positions = .ok (addresses', positions')) :
    addresses' = addresses ++
        (List.range' i count).map (fun j => UInt32.ofNat (byteAddress channel j)) ∧
      positions' = positions ++ List.range' addresses.length count ∧
      ∀ j ∈ List.range' i count, byteAddress channel j < 0x1000000 := by
  induction count generalizing i addresses positions with
  | zero =>
    cases h
    simp
  | succ count ih =>
    simp only [planBytes] at h
    split at h
    · cases h
    · rename_i hle
      obtain ⟨haddresses, hpositions, hall⟩ := ih h
      have hlt : byteAddress channel i < 0x1000000 := by omega
      refine ⟨?_, ?_, ?_⟩
      · rw [haddresses, List.range'_succ]
        simp
      · rw [hpositions, List.range'_succ, List.length_append, List.length_singleton]
        simp
      · intro j hj
        rw [List.range'_succ, List.mem_cons] at hj
        rcases hj with rfl | hj
        · exact hlt
        · exact hall j hj

/-- The addresses of a channel whose list has the length of the channel, if it has one. -/
theorem map_byteAddress {channel : LoggingChannel}
    (h : channel.byteAddresses = [] ∨ channel.byteAddresses.length = channel.length) :
    (List.range channel.length).map (fun i => UInt32.ofNat (byteAddress channel i)) =
      channelAddresses channel := by
  rw [channelAddresses]
  split
  · rename_i hnil
    simp [byteAddress, hnil]
  · rename_i hlist
    have hlength := h.resolve_left hlist
    refine List.ext_getElem (by simp [hlength]) ?_
    intro i hi hi'
    simp [byteAddress, hlist, List.getElem?_eq_getElem hi']

theorem length_channelAddresses {channel : LoggingChannel}
    (h : channel.byteAddresses = [] ∨ channel.byteAddresses.length = channel.length) :
    (channelAddresses channel).length = channel.length := by
  rw [← map_byteAddress h]
  simp

theorem planChannel_eq_ok {plan plan' : SsmReadPlan} {channel : LoggingChannel}
    (h : planChannel plan channel = .ok plan') :
    plan'.addresses = plan.addresses ++ channelAddresses channel ∧
      plan'.responsePositions =
        plan.responsePositions ++ [List.range' plan.addresses.length channel.length] ∧
      (∀ address ∈ channelAddresses channel, address.toNat < 0x1000000) ∧
      plan'.addresses.length ≤ 84 ∧ (channelAddresses channel).length = channel.length := by
  simp only [planChannel] at h
  split at h
  · cases h
  · rename_i hlayout
    simp only [not_or, not_and, not_lt, ne_eq, not_not] at hlayout
    obtain ⟨-, hmax, hroom, hlist, -⟩ := hlayout
    have hlengths : channel.byteAddresses = [] ∨ channel.byteAddresses.length = channel.length := by
      by_cases hnil : channel.byteAddresses = []
      · exact .inl hnil
      · exact .inr (hlist hnil)
    have hlength := length_channelAddresses hlengths
    cases hbytes : planBytes channel 0 channel.length plan.addresses [] with
    | error e =>
      rw [hbytes] at h
      cases h
    | ok result =>
      obtain ⟨addresses, positions⟩ := result
      rw [hbytes] at h
      cases h
      obtain ⟨haddresses, hpositions, hall⟩ := planBytes_eq_ok hbytes
      rw [← List.range_eq_range', map_byteAddress hlengths] at haddresses
      refine ⟨haddresses, by rw [hpositions, List.nil_append], ?_, ?_, hlength⟩
      · rw [← map_byteAddress hlengths]
        intro address hmem
        obtain ⟨i, hi, rfl⟩ := List.mem_map.1 hmem
        have hlt := hall i (by simpa using hi)
        refine lt_of_le_of_lt ?_ hlt
        rw [UInt32.toNat_ofNat']
        exact Nat.mod_le _ _
      · rw [haddresses, List.length_append, hlength]
        omega

/-- The loop adds the addresses and the positions of the channels. -/
theorem planChannels_eq_ok {plan plan' : SsmReadPlan} {channels : List LoggingChannel}
    (h : planChannels plan channels = .ok plan') (hle : plan.addresses.length ≤ 84)
    (hrange : ∀ address ∈ plan.addresses, address.toNat < 0x1000000) :
    plan'.addresses = plan.addresses ++ channels.flatMap channelAddresses ∧
      plan'.responsePositions =
        plan.responsePositions ++ positionsFrom plan.addresses.length channels ∧
      (∀ address ∈ plan'.addresses, address.toNat < 0x1000000) ∧ plan'.addresses.length ≤ 84 ∧
      ∀ channel ∈ channels, (channelAddresses channel).length = channel.length := by
  induction channels generalizing plan with
  | nil =>
    cases h
    simpa [positionsFrom] using ⟨hrange, hle⟩
  | cons channel rest ih =>
    simp only [planChannels] at h
    cases hchannel : planChannel plan channel with
    | error e =>
      rw [hchannel] at h
      cases h
    | ok plan₁ =>
      rw [hchannel] at h
      obtain ⟨haddresses, hpositions, hrange₁, hle₁, hlength⟩ := planChannel_eq_ok hchannel
      have hrange' : ∀ address ∈ plan₁.addresses, address.toNat < 0x1000000 := by
        intro address hmem
        rw [haddresses] at hmem
        rcases List.mem_append.1 hmem with hmem | hmem
        · exact hrange address hmem
        · exact hrange₁ address hmem
      obtain ⟨haddresses', hpositions', hrange'', hle', hlengths⟩ := ih h hle₁ hrange'
      refine ⟨?_, ?_, hrange'', hle', ?_⟩
      · rw [haddresses', haddresses, List.flatMap_cons, List.append_assoc]
      · rw [hpositions', hpositions, haddresses, List.length_append, hlength, positionsFrom,
          List.append_assoc]
        rfl
      · intro c hc
        rcases List.mem_cons.1 hc with rfl | hc
        · exact hlength
        · exact hlengths c hc

/-- Every read plan has the addresses of its channels, in range, and their positions. -/
theorem makeSsmReadPlan_spec {channels : List LoggingChannel} {plan : SsmReadPlan}
    (h : makeSsmReadPlan channels = .ok plan) : ReadPlanSpec channels plan := by
  obtain ⟨haddresses, hpositions, hrange, hle, hlengths⟩ :=
    planChannels_eq_ok h (Nat.zero_le _) (fun _ hmem => nomatch hmem)
  exact ⟨haddresses, hpositions, hrange, hle, hlengths⟩

end FastEcu.Logging
