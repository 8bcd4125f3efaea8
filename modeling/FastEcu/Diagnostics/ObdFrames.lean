import FastEcu.Calibration.Definition

/-!
# OBD-II frames

The framing rules of a diagnostic session (`src/backend/diagnostics/obd_frames.cpp`) and the texts of
its log (`src/algorithms/diagnostics/nrc_parser.cpp`, `dtc_parser.cpp`).

* `buildRequest` : the bytes of a request, after the CAN identifier where there is one.
* `checkResponse` : what a frame says about a request.
* `unframeDataResponse`, `unframeDtcListResponse` : the data of a frame.
* `decodeDtcs` : the trouble codes of a list.
-/

namespace FastEcu.Diagnostics

/-- `ObdProtocol`. -/
inductive ObdProtocol
  | iso9141
  | iso14230
  | iso15765
deriving DecidableEq, Repr

/-- `KlineHeader`. -/
inductive KlineHeader
  | none
  | ssm
  | iso9141
  | iso14230
deriving DecidableEq, Repr

/-- `ProtocolName`. -/
def protocolName : ObdProtocol → String
  | .iso9141 => "iso9141"
  | .iso14230 => "iso14230"
  | .iso15765 => "iso15765"

/-! ### Requests and responses -/

/-- `ResponseIndex`. -/
def responseIndex (protocol : ObdProtocol) : ℕ := if protocol = .iso15765 then 4 else 3

/-- `BuildRequest`. -/
def buildRequest (protocol : ObdProtocol) (sourceId : UInt32) (payload : Bytes) : Bytes :=
  let identifier : Bytes :=
    if protocol = .iso15765 then
      [0x00, 0x00, ((sourceId >>> 8) &&& 0xFF).toUInt8, (sourceId &&& 0xFF).toUInt8]
    else []
  identifier ++ payload

theorem buildRequest_inj {protocol : ObdProtocol} {sourceId : UInt32} {payload payload' : Bytes}
    (h : buildRequest protocol sourceId payload = buildRequest protocol sourceId payload') :
    payload = payload' :=
  List.append_cancel_left h

/-- `ResponseCheck`. -/
inductive ResponseCheck
  | short
  | ok
  | nrc
  | wrongId
deriving DecidableEq, Repr

/-- `CheckResponse`. -/
def checkResponse (protocol : ObdProtocol) (frame : Bytes) (mode : Byte) (pid : Option Byte) :
    ResponseCheck :=
  let index := responseIndex protocol
  if frame.length ≤ index then .short
  else if byteAt frame index = 0x7F then .nrc
  else if byteAt frame index ≠ mode ||| 0x40 then .wrongId
  else
    match pid with
    | some pid =>
      if frame.length ≤ index + 1 ∨ byteAt frame (index + 1) ≠ pid then .wrongId else .ok
    | none => .ok

/-- `WithoutChecksum`. -/
def withoutChecksum (frame : Bytes) : Bytes := frame.dropLast

/-- The data of a K-line frame: the last byte of a short body, or what follows the header. -/
def unframeKline (frame : Bytes) (header : Bytes → ℕ) : Bytes :=
  let body := withoutChecksum frame
  if body.isEmpty then []
  else if body.length < 7 then body.drop (body.length - 1)
  else body.drop (header body)

/-- `UnframeDataResponse`. -/
def unframeDataResponse (protocol : ObdProtocol) (frame : Bytes) : Bytes :=
  if protocol = .iso15765 then frame.drop (responseIndex protocol + 3)
  else unframeKline frame fun body => if body.length < 10 then 5 else 6

/-- `UnframeDtcListResponse`. -/
def unframeDtcListResponse (protocol : ObdProtocol) (frame : Bytes) : Bytes :=
  if protocol = .iso15765 then frame.drop (responseIndex protocol + 2)
  else unframeKline frame fun _ => 4

/-! ### Initialisation -/

/-- `FiveBaudHeader`: a J2534 adapter answers in text, where `8` is 0x38 and `f` is 0x66. -/
def fiveBaudHeader (requested : ObdProtocol) (r : Bytes) (usesJ2534 : Bool) : Option KlineHeader :=
  if usesJ2534 then
    if requested = .iso9141 ∧ 7 < r.length ∧ byteAt r 5 = 0x38 ∧ byteAt r 7 = 0x38 then some .iso9141
    else if requested = .iso14230 ∧ 9 < r.length ∧ byteAt r 8 = 0x38 ∧ byteAt r 9 = 0x66 then
      some .iso14230
    else none
  else if 2 < r.length ∧ byteAt r 1 = 0x08 ∧ byteAt r 2 = 0x08 then some .iso9141
  else if 2 < r.length ∧ byteAt r 2 = 0x8F then some .iso14230
  else none

/-- An accepted response sets a header. -/
theorem fiveBaudHeader_ne_none {requested : ObdProtocol} {r : Bytes} {usesJ2534 : Bool}
    {header : KlineHeader} (h : fiveBaudHeader requested r usesJ2534 = some header) :
    header ≠ .none := by
  unfold fiveBaudHeader at h
  split_ifs at h <;> cases h <;> exact fun heq => nomatch heq

/-- `FastInitAccepted`. -/
def fastInitAccepted (response : Bytes) : Bool :=
  decide (response.take 6 = [0x83, 0xF1, 0x10, 0xC1, 0xE9, 0x8F])

/-! ### Texts -/

/-- The digits of a number in the base 16, with zeros up to a width. -/
def hexDigits (width n : ℕ) : String :=
  let digits := Nat.toDigits 16 n
  String.ofList (List.replicate (width - digits.length) '0' ++ digits)

/-- `FormatHex`. -/
def formatHex (data : Bytes) : String :=
  data.foldl (fun (out : String) (b : Byte) => out ++ hexDigits 2 b.toNat ++ " ") ""

/-- `FormatPidPageLabel`. -/
def formatPidPageLabel (page : ℕ) (bitmap : Bytes) : String :=
  let start := page * 0x20 + 1
  "Supported PIDs 0x" ++ hexDigits 1 start ++ "-0x" ++ hexDigits 1 (start + 0x1F) ++ ": " ++
    formatHex bitmap

/-- `FormatSupportedPids`: eight entries for each byte, the most significant bit first. -/
def formatSupportedPids (page : ℕ) (bitmap : Bytes) : String :=
  let start := page * 0x20 + 1
  let entry (n : ℕ) : ℕ :=
    let enabled := ((byteAt bitmap (n / 8)).toNat >>> (7 - n % 8)) % 2
    enabled * (n + start)
  (List.range (bitmap.length * 8)).foldl
    (fun (out : String) (n : ℕ) => out ++ "0x" ++ hexDigits 2 (entry n) ++ " ") ""

/-- The tables of texts (`src/algorithms/diagnostics/dtc_tables.cpp`). -/
structure CodeTables where
  nrc : ℕ → Option String
  p : ℕ → Option String
  c : ℕ → Option String
  b : ℕ → Option String
  u : ℕ → Option String

/-- `NrcDescription`. -/
def nrcDescription (tables : CodeTables) (nrc : Bytes) : String :=
  if nrc.length < 3 ∨ byteAt nrc 0 ≠ 0x7F then "Not a valid answer"
  else (tables.nrc (byteAt nrc 2).toNat).getD "Unknown error code"

/-- `DtcDescription`: the top two bits choose the table, the others are the key. -/
def dtcDescription (tables : CodeTables) (dtc : UInt16) : String :=
  let code := (dtc &&& 0x3FFF).toNat
  let described (letter : String) (table : ℕ → Option String) : String :=
    (table code).getD (letter ++ hexDigits 4 code ++ " - Unknown error code")
  match (dtc >>> 14).toNat with
  | 0 => described "P" tables.p
  | 1 => described "C" tables.c
  | 2 => described "B" tables.b
  | _ => described "U" tables.u

/-- `DecodeDtcs`: a trailing odd byte reads as 0 and is dropped with the other zeros. -/
def decodeDtcs (data : Bytes) : List UInt16 :=
  let codes := (List.range ((data.length + 1) / 2)).map fun i => readU16Be data (2 * i)
  (codes.filter (· ≠ 0)).mergeSort fun a b => decide (a ≤ b)

end FastEcu.Diagnostics
