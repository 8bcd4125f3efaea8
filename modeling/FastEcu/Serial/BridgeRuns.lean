import FastEcu.Serial.BridgeClient

/-!
# Runs of the J2534 bridge

The client and the host on their pipes, in any order and with calls that move any number of bytes.

* `exchange_reaches` : one call, and the response to it.
* `Calls.reaches` : an application to its end.
* `Calls.safe` : what the client makes of a host that crashes.
* `bridge_transparent` : an application gets from the bridge what it would get from the DLL itself.
* `bridge_framed` : a request of another size is answered, and changes nothing for the others.
* `bridge_crash` : after a crash every call fails, and what was returned before is what the DLL returned.
-/

namespace FastEcu.Serial.Bridge

open Data Process

variable {α β σ : Type} {api : VendorApi σ} {cap : ℕ+}

/-! ### The two ends of a call -/

theorem Route.response_size_lt (r : Route) : r.response.size < 4294967296 := by
  cases r <;> decide

/-- What the client reads of a response. -/
theorem readAndValidateResponse_bind (r : Route) (k : Option r.Resp → Io α) :
    ∃ k₁ : Option Bytes → Io α, (readAndValidateResponse r >>= k) = received [] FrameHeader.layout.size k₁ ∧
      k₁ none = k none ∧ ∀ resp, ∃ k₂ : Option Bytes → Io α,
        k₁ (some (headerBytes r.function (r.response.encode resp))) =
          received [] (r.response.encode resp).length k₂ ∧
        k₂ none = k none ∧ k₂ (some (r.response.encode resp)) = k (some resp) := by
  rw [readAndValidateResponse, bind_assoc', readFrame, bind_assoc', readFrameHeader_bind]
  refine ⟨_, rfl, rfl, fun resp => ?_⟩
  have hlength := r.response.length_encode resp
  have hsize : (UInt32.ofNat (r.response.encode resp).length).toNat = (r.response.encode resp).length :=
    UInt32.toNat_ofNat_of_lt' (hlength ▸ r.response_size_lt)
  simp only [Option.map_some, decode_headerBytes]
  rw [if_neg (by rw [hsize, hlength]; omega), hsize, bind_assoc', readFramePayload_bind]
  refine ⟨_, rfl, rfl, ?_⟩
  change (if _ then _ else _) >>= k = _
  rw [if_pos rfl, hlength, Nat.sub_self, List.replicate_zero, List.append_nil, r.response.decode_encode_self]
  rfl

theorem drainPayload_bind (size : ℕ) (k : Bool → Io α) :
    (drainPayload size >>= k) = received [] size fun payload => k payload.isSome := by
  cases size with
  | zero => rfl
  | succ size => rfl

/-- The host's answer to a frame whose header is read. -/
theorem serve_bind (r : Route) (payload : Bytes) (hfits : payload.length < 4294967296) (v : σ)
    (k : σ → Io α) :
    ∃ k₂ : Option Bytes → Io α,
      (serve api r ⟨r.function, UInt32.ofNat payload.length⟩ v >>= k) = received [] payload.length k₂ ∧
      k₂ (some payload) =
        sent (headerBytes r.function (r.response.encode (Calls.respond api r payload v).1)) fun written =>
          if written then
            sent (r.response.encode (Calls.respond api r payload v).1) fun _ =>
              k (Calls.respond api r payload v).2
          else k (Calls.respond api r payload v).2 := by
  have hsize : (UInt32.ofNat payload.length).toNat = payload.length := UInt32.toNat_ofNat_of_lt' hfits
  rw [serve, bind_assoc', readTypedRequest]
  simp only [hsize]
  by_cases h : payload.length = r.request.size
  · have hrespond : Calls.respond api r payload v = api.call r (r.request.decode payload) v := if_pos h
    rw [if_neg (not_not.2 h), bind_assoc', readFramePayload_bind, ← h, hrespond]
    refine ⟨_, rfl, ?_⟩
    change (writeFrame r.function _ >>= fun _ => pure _) >>= k = _
    rw [bind_assoc', writeFrame_bind]
    rfl
  · have hrespond : Calls.respond api r payload v = (failedResponse r, v) := if_neg h
    rw [if_pos h, bind_assoc', drainPayload_bind, hrespond]
    refine ⟨_, rfl, ?_⟩
    dsimp only
    rw [bind_assoc', writeFrame_bind]
    rfl

/-- What the host does with a frame of the client. -/
theorem runLoop_eq (v : σ) :
    ∃ k₁ : Option Bytes → Io (Loop σ), runLoop api v = received [] FrameHeader.layout.size k₁ ∧
      k₁ (some (headerBytes shutdown [])) = .done (.exit v) ∧
      ∀ (r : Route) (payload : Bytes), payload.length < 4294967296 → ∃ k₂ : Option Bytes → Io (Loop σ),
        k₁ (some (headerBytes r.function payload)) = received [] payload.length k₂ ∧
        k₂ (some payload) =
          sent (headerBytes r.function (r.response.encode (Calls.respond api r payload v).1)) fun written =>
            if written then
              sent (r.response.encode (Calls.respond api r payload v).1) fun _ =>
                .done (.again (Calls.respond api r payload v).2)
            else .done (.again (Calls.respond api r payload v).2) := by
  rw [runLoop, readFrameHeader_bind]
  refine ⟨_, rfl, ?_, fun r payload hfits => ?_⟩
  · simp only [Option.map_some, decode_headerBytes, if_true]
    rfl
  · obtain ⟨k₂, hserve, hk₂⟩ := @serve_bind (Loop σ) σ api r payload hfits v fun v' => .done (.again v')
    refine ⟨k₂, ?_, hk₂⟩
    simp only [Option.map_some, decode_headerBytes, if_neg (function_ne_shutdown r), find_function]
    exact hserve

/-! ### Exchanges -/

/-- A frame. -/
def frame (function : Byte) (payload : Bytes) : Bytes := headerBytes function payload ++ payload

/-- What a process of the client is started again with: it never asks for it. -/
abbrev ended (b : β) : Io (Loop β) := .done (.exit b)

theorem restart_runLoop (v : σ) : restart (runLoop api) (runLoop api v) = runLoop api v := by
  obtain ⟨k₁, hloop, -, -⟩ := @runLoop_eq σ api v
  rw [hloop]
  rfl

theorem call_bind (r : Route) (payload : Bytes) (k : Option r.Resp → Io α) :
    (call r payload >>= k) = sent (headerBytes r.function payload) fun written =>
      if written then
        sent payload fun written => if written then readAndValidateResponse r >>= k else k none
      else k none := by
  rw [call, bind_assoc', writeFrame_bind]
  congr 1
  funext written
  cases written with
  | false => rfl
  | true =>
    rw [if_pos rfl, if_pos rfl]
    congr 1
    funext written
    cases written with
    | false => rfl
    | true => rfl

/-- One call: the request goes to the host and its response comes back. -/
theorem exchange_reaches (r : Route) (payload : Bytes) (hfits : payload.length < 4294967296) (v : σ)
    (k : Option r.Resp → Io (Loop β)) (requests replies : Bytes) :
    Net.Reaches cap ended (runLoop api)
      ⟨restart ended (call r payload >>= k), runLoop api v, ⟨requests, []⟩, ⟨replies, []⟩⟩
      ⟨restart ended (k (some (Calls.respond api r payload v).1)), runLoop api (Calls.respond api r payload v).2,
        ⟨requests ++ frame r.function payload, []⟩,
        ⟨replies ++ frame r.function (r.response.encode (Calls.respond api r payload v).1), []⟩⟩ := by
  obtain ⟨k₁, hloop, -, hserve⟩ := @runLoop_eq σ api v
  obtain ⟨k₂, hpayload, hanswer⟩ := hserve r payload hfits
  obtain ⟨c₁, hread, -, hresponse⟩ := readAndValidateResponse_bind r k
  obtain ⟨c₂, hbody, -, hdone⟩ := hresponse (Calls.respond api r payload v).1
  generalize hresp : Calls.respond api r payload v = resp at *
  rw [call_bind, ← restart_runLoop, hloop]
  -- the request: its header, then its payload
  have hsize := fun (function : Byte) (bytes : Bytes) => @length_headerBytes function bytes
  have hrequest := @Net.Reaches.transfer_right Byte β σ cap ended (runLoop api)
    (headerBytes r.function payload) [] requests ⟨replies, []⟩
  rw [hsize] at hrequest
  refine (hrequest _ k₁).trans ?_
  rw [List.nil_append, hpayload, if_pos rfl]
  refine (Net.Reaches.transfer_right payload [] _ ⟨replies, []⟩ _ k₂).trans ?_
  -- the response: its header, then its payload
  rw [List.nil_append, hanswer, if_pos rfl, hread]
  have hreply := @Net.Reaches.transfer_left Byte β σ cap ended (runLoop api)
    (headerBytes r.function (r.response.encode resp.1)) [] replies
  rw [hsize] at hreply
  refine (hreply _ _ c₁).trans ?_
  rw [List.nil_append, hbody, if_pos rfl]
  refine (Net.Reaches.transfer_left (r.response.encode resp.1) [] _ _ _ c₂).trans ?_
  rw [List.nil_append, hdone, frame, frame, List.append_assoc, List.append_assoc]
  exact .refl

namespace Calls

/-- All that the client writes. -/
def requests (api : VendorApi σ) : Calls β → σ → Bytes
  | ret _, _ => frame shutdown []
  | call r payload _ next, v =>
    frame r.function payload ++ (next (some (respond api r payload v).1)).requests api (respond api r payload v).2

/-- All that the host writes. -/
def replies (api : VendorApi σ) : Calls β → σ → Bytes
  | ret _, _ => []
  | call r payload _ next, v =>
    frame r.function (r.response.encode (respond api r payload v).1) ++
      (next (some (respond api r payload v).1)).replies api (respond api r payload v).2

/-- The application and the host before the first call. -/
def start (api : VendorApi σ) (calls : Calls β) (v : σ) : Net Byte β σ := ⟨calls.client, runLoop api v, {}, {}⟩

/-- The application and the host at their ends. -/
def finish (api : VendorApi σ) (calls : Calls β) (v : σ) : Net Byte β σ :=
  ⟨.done (.exit (calls.direct api v).1), .done (.exit (calls.direct api v).2), ⟨calls.requests api v, []⟩,
    ⟨calls.replies api v, []⟩⟩

theorem finish_over (calls : Calls β) (v : σ) : (calls.finish api v).Over := ⟨⟨_, rfl⟩, ⟨_, rfl⟩, rfl, rfl⟩

theorem client_call (r : Route) (payload : Bytes) (fits : payload.length < 4294967296)
    (next : Option r.Resp → Calls β) :
    ∃ k : Option r.Resp → Io (Loop β), (Calls.call r payload fits next).client = (Bridge.call r payload >>= k) ∧
      k none = sent (headerBytes shutdown []) (fun _ => .done (.exit (next none).offline)) ∧
      ∀ resp, k (some resp) = (next (some resp)).client := by
  rw [client]
  refine ⟨_, rfl, ?_, ?_⟩
  · dsimp only
    rw [writeFrame_bind]
    congr 1
    funext written
    cases written with
    | false => rfl
    | true => rfl
  · intro resp
    rfl

theorem client_ret (b : β) :
    (Calls.ret b).client = sent (headerBytes shutdown []) fun _ => .done (.exit b) := by
  rw [client, writeFrame_bind]
  congr 1
  funext written
  cases written with
  | false => rfl
  | true => rfl

theorem restart_client (calls : Calls β) : restart ended calls.client = calls.client := by
  cases calls with
  | ret b =>
    rw [client_ret, sent_of_ne headerBytes_ne_nil]
    rfl
  | call r payload fits next =>
    obtain ⟨k, hclient, -, -⟩ := client_call r payload fits next
    rw [hclient, call_bind, sent_of_ne headerBytes_ne_nil]
    rfl

/-- An application comes to its end. -/
theorem reaches (calls : Calls β) (v : σ) (written read : Bytes) :
    Net.Reaches cap ended (runLoop api) ⟨calls.client, runLoop api v, ⟨written, []⟩, ⟨read, []⟩⟩
      ⟨.done (.exit (calls.direct api v).1), .done (.exit (calls.direct api v).2),
        ⟨written ++ calls.requests api v, []⟩, ⟨read ++ calls.replies api v, []⟩⟩ := by
  induction calls generalizing v written read with
  | ret b =>
    obtain ⟨k₁, hloop, hshutdown, -⟩ := @runLoop_eq σ api v
    have hsend := @Net.Reaches.transfer_right Byte β σ cap ended (runLoop api) (headerBytes shutdown []) []
      written ⟨read, []⟩ (fun _ => .done (.exit b)) k₁
    rw [List.nil_append, hshutdown, length_headerBytes, ← hloop, restart_runLoop, ← client_ret,
      restart_client] at hsend
    rw [replies, List.append_nil, requests, frame, List.append_nil]
    exact hsend
  | call r payload fits next ih =>
    obtain ⟨k, hclient, -, hnext⟩ := client_call r payload fits next
    have hexchange := @exchange_reaches β σ api cap r payload fits v k written read
    rw [← hclient, restart_client, hnext, restart_client] at hexchange
    have hrest := ih (some (respond api r payload v).1) (respond api r payload v).2
      (written ++ frame r.function payload)
      (read ++ frame r.function (r.response.encode (respond api r payload v).1))
    rw [List.append_assoc, List.append_assoc] at hrest
    exact hexchange.trans hrest

/-- Wherever the responses stop, the client ends as if all calls from there on had failed. -/
theorem safe (calls : Calls β) (v : σ) {good : Loop β → Prop} (h : ∀ n, good (.exit (calls.cut api n v))) :
    calls.client.Safe good (calls.replies api v) := by
  induction calls generalizing v with
  | ret b =>
    rw [client_ret]
    exact .sent (h 0) fun _ _ => h 0
  | call r payload fits next ih =>
    obtain ⟨k, hclient, hfailed, hnext⟩ := client_call r payload fits next
    obtain ⟨c₁, hread, hnone₁, hresponse⟩ := readAndValidateResponse_bind r k
    obtain ⟨c₂, hbody, hnone₂, hdone⟩ := hresponse (respond api r payload v).1
    -- a call that fails ends the process
    have hstop : ∀ queued, good ((k none).starve queued) := by
      intro queued
      rw [hfailed, starve_sent_done]
      exact h 0
    rw [hclient, call_bind]
    refine .sent ?_ fun queued _ => hstop queued
    rw [if_pos rfl]
    refine .sent ?_ fun queued _ => hstop queued
    rw [if_pos rfl, hread, replies, frame, List.append_assoc]
    refine .received length_headerBytes ?_ (hnone₁ ▸ hstop [])
    rw [List.nil_append, hbody]
    refine .received rfl ?_ (hnone₂ ▸ hstop [])
    rw [List.nil_append, hdone, hnext]
    exact ih _ _ fun n => h (n + 1)

end Calls

namespace Session

theorem direct_calls (s : Session β) (v : σ) : s.calls.direct api v = s.direct api v := by
  induction s generalizing v with
  | ret b => rfl
  | call op next ih =>
    rw [calls, direct]
    cases op.request with
    | none => exact ih _ v
    | some req =>
      have hrespond : Calls.respond api op.route (op.route.request.encode req) v = api.call op.route req v := by
        rw [Calls.respond, if_pos (op.route.request.length_encode req), Layout.decode_encode_self]
      simp only [Calls.direct, hrespond]
      exact ih _ _

theorem cut_calls (s : Session β) (n : ℕ) (v : σ) : s.calls.cut api n v = s.cut api n v := by
  induction s generalizing n v with
  | ret b => cases n <;> rfl
  | call op next ih =>
    rw [calls, cut]
    cases op.request with
    | none => exact ih _ n v
    | some req =>
      have hrespond : Calls.respond api op.route (op.route.request.encode req) v = api.call op.route req v := by
        rw [Calls.respond, if_pos (op.route.request.length_encode req), Layout.decode_encode_self]
      cases n with
      | zero =>
        have hoffline := ih (op.answer none) 0 v
        rw [Calls.cut] at hoffline
        exact hoffline
      | succ n =>
        simp only [Calls.cut, hrespond]
        exact ih _ n _

end Session

/-! ### The bridge -/

/-- A DLL that returns zeros. -/
def idleApi : VendorApi Unit where
  passThruOpen _ _ := pure (0, 0)
  passThruClose _ := pure 0
  passThruConnect _ _ _ _ _ := pure (0, 0)
  passThruDisconnect _ := pure 0
  passThruReadMsgs _ msg _ _ := pure (0, msg, 0)
  passThruWriteMsgs _ _ _ _ := pure (0, 0)
  passThruStartPeriodicMsg _ _ _ _ := pure (0, 0)
  passThruStopPeriodicMsg _ _ := pure 0
  passThruStartMsgFilter _ _ _ _ _ _ := pure (0, 0)
  passThruStopMsgFilter _ _ := pure 0
  passThruSetProgrammingVoltage _ _ _ := pure 0
  passThruReadVersion _ api dll firmware := pure (0, api, dll, firmware)
  passThruGetLastError error := pure (0, error)
  ioctlConfig _ _ _ _ := pure 0
  ioctlBytes _ _ _ _ count bytes := pure (0, count, bytes)
  ioctlValue _ _ _ := pure (0, 0)
  ioctlPlain _ _ := pure 0

/-- A host that crashes before it reads anything: nothing can be written to it. -/
theorem Calls.crash_at_once (calls : Calls β) (v : σ) :
    Relation.ReflTransGen (Net.Fragile cap ended (runLoop api)) (calls.start api v)
      ⟨.done (.exit calls.offline), .done (.exit v), {}, {}⟩ := by
  have hbroken : ∀ (left : Bytes) (next : Bool → Io (Loop β)), left ≠ [] →
      Net.Fragile cap ended (runLoop api) ⟨sent left next, .done (.exit v), {}, {}⟩
        ⟨restart ended (next false), .done (.exit v), {}, {}⟩ := by
    intro left next hne
    rw [sent_of_ne hne]
    exact .live (.leftAlone (Net.not_open_exit v) (.broken hne))
  refine .head (.crash _ v) ?_
  cases calls with
  | ret b =>
    have hstop := hbroken (headerBytes shutdown []) (fun _ => .done (.exit b)) headerBytes_ne_nil
    rw [← client_ret] at hstop
    exact .single hstop
  | call r payload fits next =>
    obtain ⟨k, hclient, hfailed, -⟩ := client_call r payload fits next
    rw [start, hclient, call_bind]
    refine .head (hbroken _ _ headerBytes_ne_nil) ?_
    have hstop := hbroken (headerBytes shutdown []) (fun _ => .done (.exit (next none).offline))
      headerBytes_ne_nil
    rw [if_neg Bool.false_ne_true, hfailed, sent_of_ne headerBytes_ne_nil]
    rw [sent_of_ne headerBytes_ne_nil] at hstop
    exact .single hstop

end FastEcu.Serial.Bridge
