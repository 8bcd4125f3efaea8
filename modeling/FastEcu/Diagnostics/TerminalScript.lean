import FastEcu.Bytes.Words
import FastEcu.Calibration.Definition
import FastEcu.Data.Tokens

/-!
# Scripts of the terminal

`ParseTerminalScript` of `src/backend/diagnostics/terminal_script.cpp`: a line of a script is a message of hex bytes
or a delay.  A text is the list of its bytes, each as a character.

* `fromChars` : `std::from_chars` of unsigned numbers.
* `parseTerminalScript` : the steps of a script.
* `Denotes` : what a line means.
* `parseTerminalScript_spec` : the scripts that are accepted, and the line that the error of another one names.
-/

namespace FastEcu.Diagnostics.Terminal

open Calibration (ErrorKind Error)
open Data

/-! ### Numbers -/

/-- `std::errc`, as `std::from_chars` gives it. -/
inductive Errc
  | ok
  | invalidArgument
  | resultOutOfRange
deriving DecidableEq, Repr

/-- The value of a digit; the letters of both cases follow the digits. -/
def digit? (base : ℕ) (c : Char) : Option ℕ :=
  let value :=
    if c.isDigit then some (c.toNat - 48)
    else if c.isLower then some (c.toNat - 87)
    else if c.isUpper then some (c.toNat - 55)
    else none
  value.filter fun n => decide (n < base)

/-- The digits as a number. -/
def ofDigits (base : ℕ) (digits : List Char) : ℕ :=
  digits.foldl (fun value c => base * value + (digit? base c).getD 0) 0

/-- What `std::from_chars` leaves: the number, the text behind the digits, and the error. -/
structure FromChars where
  value : ℕ
  rest : List Char
  ec : Errc

/-- `std::from_chars` of an unsigned number up to `max`, which was zero: there is neither a sign nor a prefix. -/
def fromChars (base max : ℕ) (text : List Char) : FromChars :=
  let digits := text.takeWhile fun c => (digit? base c).isSome
  let rest := text.dropWhile fun c => (digit? base c).isSome
  if digits = [] then ⟨0, text, .invalidArgument⟩
  else if max < ofDigits base digits then ⟨0, rest, .resultOutOfRange⟩
  else ⟨ofDigits base digits, rest, .ok⟩

/-! ### Scripts -/

/-- `TerminalStep`; a duration is in milliseconds. -/
inductive TerminalStep
  | message (payload : Bytes)
  | delay (duration : ℤ)
deriving DecidableEq, Repr

/-- `kMaxTerminalDelay`. -/
def maxTerminalDelay : ℕ := 3600000

/-- `kWhitespace`. -/
def whitespace (c : Char) : Bool := c == ' ' || c == '\t' || c == '\r' || c == '\n'

/-- `kDelayPrefix`. -/
def delayPrefix : List Char := ['d', 'e', 'l', 'a', 'y', '(']

/-- `LineError`. -/
def lineError (line : ℕ) (detail : String) : Error := ⟨.invalidConfig, s!"line {line}: " ++ detail⟩

/-- `ParseDelay`. -/
def parseDelay (entry : List Char) (line : ℕ) : Except Error TerminalStep :=
  if ¬ (delayPrefix <+: entry ∧ entry.getLast? = some ')') then
    .error (lineError line ("expected delay(<milliseconds>), got '" ++ String.ofList entry ++ "'"))
  else
    let digits := (entry.drop delayPrefix.length).take (entry.length - delayPrefix.length - 1)
    let read := fromChars 10 0xFFFFFFFFFFFFFFFF digits
    let allDigits := digits ≠ [] ∧ digits.head?.any Char.isDigit ∧ digits.getLast?.any Char.isDigit ∧ read.rest = []
    if ¬ allDigits ∨ read.ec = .invalidArgument then
      .error (lineError line ("delay needs decimal milliseconds, got '" ++ String.ofList digits ++ "'"))
    else if read.ec = .resultOutOfRange ∨ read.value > maxTerminalDelay then
      .error (lineError line s!"delay exceeds the {maxTerminalDelay} ms maximum")
    else .ok (.delay read.value)

/-- The token is valid, as `ParseMessage` has it. -/
def validToken (token : List Char) : Bool :=
  let read := fromChars 16 0xFFFFFFFF token
  decide (token.length ≤ 2) && decide (read.ec = .ok) && decide (read.rest = []) && token.head?.any Char.isHexDigit

/-- The byte of a token. -/
def tokenByte (token : List Char) : Byte := UInt8.ofNat (fromChars 16 0xFFFFFFFF token).value

theorem length_rest_lt {entry : List Char} (h : validToken (entry.takeWhile fun c => ! whitespace c)) :
    (trim whitespace (entry.dropWhile fun c => ! whitespace c)).length < entry.length := by
  have hne : entry.takeWhile (fun c => ! whitespace c) ≠ [] := by
    intro hnil
    rw [hnil] at h
    simp [validToken] at h
  have hsplit := congrArg List.length (@List.takeWhile_append_dropWhile _ (fun c => ! whitespace c) entry)
  have hpos := List.length_pos_of_ne_nil hne
  have hle := length_trim_le whitespace (entry.dropWhile fun c => ! whitespace c)
  rw [List.length_append] at hsplit
  omega

/-- The loop of `ParseMessage`: the payload so far, and what is left of the entry. -/
def parseTokens (line : ℕ) (payload : Bytes) (entry : List Char) : Except Error TerminalStep :=
  if entry = [] then .ok (.message payload)
  else
    let token := entry.takeWhile fun c => ! whitespace c
    if validToken token then
      parseTokens line (payload ++ [tokenByte token]) (trim whitespace (entry.dropWhile fun c => ! whitespace c))
    else .error (lineError line ("'" ++ String.ofList token ++ "' is not a hex byte (one or two digits)"))
termination_by entry.length
decreasing_by exact length_rest_lt (by assumption)

/-- `ParseMessage`. -/
def parseMessage (entry : List Char) (line : ℕ) : Except Error TerminalStep := parseTokens line [] entry

/-- A line that is not blank. -/
def parseEntry (entry : List Char) (line : ℕ) : Except Error TerminalStep :=
  if ['d', 'e', 'l', 'a', 'y'] <+: entry then parseDelay entry line else parseMessage entry line

/-- The loop of `ParseTerminalScript`. -/
def parseLines : ℕ → List TerminalStep → List (List Char) → Except Error (List TerminalStep)
  | _, steps, [] => .ok steps
  | index, steps, line :: lines =>
    let entry := trim whitespace line
    if entry = [] then parseLines (index + 1) steps lines
    else
      match parseEntry entry (index + 1) with
      | .error e => .error e
      | .ok step => parseLines (index + 1) (steps ++ [step]) lines

/-- `ParseTerminalScript`. -/
def parseTerminalScript (lines : List (List Char)) : Except Error (List TerminalStep) :=
  match parseLines 0 [] lines with
  | .error e => .error e
  | .ok steps => if steps = [] then .error ⟨.invalidConfig, "script has no steps"⟩ else .ok steps

/-! ### What a line means -/

/-- One or two hexadecimal digits. -/
structure HexToken (t : List Char) : Prop where
  ne_nil : t ≠ []
  length_le : t.length ≤ 2
  digits : ∀ c ∈ t, c.isHexDigit

/-- What a line that is not blank means, when it has been trimmed. -/
inductive Denotes : List Char → TerminalStep → Prop
  /-- A delay in decimal digits. -/
  | delay {d : List Char} : d ≠ [] → (∀ c ∈ d, c.isDigit) → ofDigits 10 d ≤ maxTerminalDelay →
      Denotes (delayPrefix ++ (d ++ [')'])) (.delay (ofDigits 10 d))
  /-- The bytes of a message. -/
  | message {entry : List Char} {tokens : List (List Char)} : Tokens whitespace entry tokens →
      (∀ t ∈ tokens, HexToken t) → Denotes entry (.message (tokens.map fun t => UInt8.ofNat (ofDigits 16 t)))

theorem Denotes.ne_nil {entry : List Char} {step : TerminalStep} (h : Denotes entry step) : entry ≠ [] := by
  cases h with
  | delay => exact List.cons_ne_nil _ _
  | message htokens => exact htokens.ne_nil

section Digits

variable {base max : ℕ} {c : Char} {text : List Char}

theorem isDigit_iff : c.isDigit ↔ 48 ≤ c.toNat ∧ c.toNat ≤ 57 := Char.isDigit_iff_toNat

theorem isLower_iff : c.isLower ↔ 97 ≤ c.toNat ∧ c.toNat ≤ 122 := by
  have hrange : c.isLower = (decide (c.val ≥ 97) && decide (c.val ≤ 122)) := rfl
  simp [hrange, UInt32.le_iff_toNat_le]

theorem isUpper_iff : c.isUpper ↔ 65 ≤ c.toNat ∧ c.toNat ≤ 90 := by
  have hrange : c.isUpper = decide (c.val ≥ 65 ∧ c.val ≤ 90) := rfl
  simp [hrange, UInt32.le_iff_toNat_le]

theorem isSome_digit_ten : (digit? 10 c).isSome = c.isDigit := by
  rw [Bool.eq_iff_iff, isDigit_iff]
  simp only [digit?, isDigit_iff, isLower_iff, isUpper_iff]
  split_ifs <;> simp <;> omega

theorem isSome_digit_sixteen : (digit? 16 c).isSome = c.isHexDigit := by
  have hhex : c.isHexDigit ↔ (48 ≤ c.toNat ∧ c.toNat ≤ 57) ∨ (97 ≤ c.toNat ∧ c.toNat ≤ 102) ∨
      (65 ≤ c.toNat ∧ c.toNat ≤ 70) := by
    simp [Char.isHexDigit, Char.isDigit, UInt32.le_iff_toNat_le, or_assoc]
  rw [Bool.eq_iff_iff, hhex]
  simp only [digit?, isDigit_iff, isLower_iff, isUpper_iff]
  split_ifs <;> simp <;> omega

theorem digit_lt (h : (digit? base c).isSome) : (digit? base c).getD 0 < base := by
  obtain ⟨n, hn⟩ := Option.isSome_iff_exists.1 h
  rw [hn, Option.getD_some]
  have hfilter := (Option.filter_eq_some_iff.1 hn).2
  exact of_decide_eq_true hfilter

/-- The number stands alone exactly when all characters are digits. -/
theorem fromChars_rest_nil (h : text ≠ []) :
    (fromChars base max text).rest = [] ↔ ∀ c ∈ text, (digit? base c).isSome := by
  have hdrop := @List.dropWhile_eq_nil_iff _ (fun c => (digit? base c).isSome) text
  unfold fromChars
  dsimp only
  split_ifs with hnone hlarge
  · refine iff_of_false h fun hall => ?_
    rw [List.takeWhile_eq_self_iff.2 hall] at hnone
    exact h hnone
  · exact hdrop
  · exact hdrop

theorem fromChars_of_digits (h : text ≠ []) (hall : ∀ c ∈ text, (digit? base c).isSome) : fromChars base max text =
    if max < ofDigits base text then ⟨0, [], .resultOutOfRange⟩ else ⟨ofDigits base text, [], .ok⟩ := by
  unfold fromChars
  dsimp only
  rw [List.takeWhile_eq_self_iff.2 hall, List.dropWhile_eq_nil_iff.2 hall, if_neg h]

theorem ofDigits_lt (hall : ∀ c ∈ text, (digit? base c).isSome) : ofDigits base text < base ^ text.length := by
  induction text using List.reverseRecOn with
  | nil => exact Nat.one_pos
  | append_singleton text c ih =>
    have hlt := ih fun a ha => hall a (List.mem_append_left _ ha)
    have hc := digit_lt (hall c (List.mem_append_right _ (List.mem_singleton_self c)))
    rw [ofDigits, List.foldl_append, List.length_append, List.length_singleton, Nat.pow_succ]
    change base * ofDigits base text + (digit? base c).getD 0 < _
    have hle : base * (ofDigits base text + 1) ≤ base * base ^ text.length := Nat.mul_le_mul_left _ hlt
    rw [Nat.mul_succ] at hle
    rw [Nat.mul_comm (base ^ text.length)]
    omega

end Digits

/-! ### Messages -/

section Messages

variable {token entry : List Char} {line : ℕ}

/-- A token is valid when it is one or two hexadecimal digits. -/
theorem validToken_iff : validToken token ↔ HexToken token := by
  have hdigits : (∀ c ∈ token, (digit? 16 c).isSome) ↔ ∀ c ∈ token, c.isHexDigit := by
    simp only [isSome_digit_sixteen]
  constructor
  · intro h
    simp only [validToken, Bool.and_eq_true, decide_eq_true_eq] at h
    obtain ⟨⟨⟨hlength, -⟩, hrest⟩, hhead⟩ := h
    have hne : token ≠ [] := by
      rintro rfl
      cases hhead
    exact ⟨hne, hlength, hdigits.1 ((fromChars_rest_nil hne).1 hrest)⟩
  · rintro ⟨hne, hlength, hall⟩
    have hread := @fromChars_of_digits 16 0xFFFFFFFF token hne (hdigits.2 hall)
    have hlt := @ofDigits_lt 16 token (hdigits.2 hall)
    have hpow : 16 ^ token.length ≤ 16 ^ 2 := Nat.pow_le_pow_right (by decide) hlength
    rw [if_neg (by omega)] at hread
    obtain ⟨c, token, rfl⟩ := List.exists_cons_of_ne_nil hne
    have hhead : (c :: token).head?.any Char.isHexDigit := hall c (List.mem_cons_self ..)
    simp only [validToken, hread, hhead, hlength, decide_true, Bool.and_self]

theorem tokenByte_eq (h : HexToken token) : tokenByte token = UInt8.ofNat (ofDigits 16 token) := by
  have hall : ∀ c ∈ token, (digit? 16 c).isSome := by
    intro c hc
    rw [isSome_digit_sixteen]
    exact h.digits c hc
  have hlt := @ofDigits_lt 16 token hall
  have hpow : 16 ^ token.length ≤ 16 ^ 2 := Nat.pow_le_pow_right (by decide) h.length_le
  rw [tokenByte, fromChars_of_digits h.ne_nil hall, if_neg (by omega)]

/-- **The message of the tokens**: whatever the payload was, theirs follows. -/
theorem parseTokens_eq_ok_iff {payload : Bytes} {step : TerminalStep} (h : Trimmed whitespace entry) :
    parseTokens line payload entry = .ok step ↔ (entry = [] ∧ step = .message payload) ∨
      ∃ tokens, Tokens whitespace entry tokens ∧ (∀ t ∈ tokens, HexToken t) ∧
        step = .message (payload ++ tokens.map fun t => UInt8.ofNat (ofDigits 16 t)) := by
  induction payload, entry using parseTokens.induct with
  | case1 payload =>
    rw [parseTokens, if_pos rfl]
    constructor
    · intro hstep
      exact .inl ⟨rfl, (Except.ok.inj hstep).symm⟩
    · rintro (⟨-, rfl⟩ | ⟨tokens, htokens, -, -⟩)
      · rfl
      · exact absurd rfl htokens.ne_nil
  | case2 payload entry hne token hvalid ih =>
    have hhex := validToken_iff.1 hvalid
    have hbyte := tokenByte_eq hhex
    rw [parseTokens, if_neg hne, if_pos hvalid]
    refine (ih (trimmed_trim ..)).trans ?_
    constructor
    · rintro (⟨hnil, rfl⟩ | ⟨tokens, htokens, hall, rfl⟩)
      · refine .inr ⟨[token], (tokens_iff h).2 ⟨hne, [], rfl, .inl ⟨hnil, rfl⟩⟩, ?_, ?_⟩
        · intro t ht
          rw [List.mem_singleton.1 ht]
          exact hhex
        · rw [List.map_singleton, ← hbyte]
      · refine .inr ⟨token :: tokens, (tokens_iff h).2 ⟨hne, tokens, rfl, .inr htokens⟩, ?_, ?_⟩
        · rintro t (_ | ⟨_, ht⟩)
          · exact hhex
          · exact hall t ht
        · rw [List.map_cons, ← hbyte, List.append_assoc, List.singleton_append]
    · rintro (⟨hnil, -⟩ | ⟨tokens, htokens, hall, rfl⟩)
      · exact absurd hnil hne
      obtain ⟨-, rest, rfl, hrest⟩ := (tokens_iff h).1 htokens
      rw [List.map_cons, ← hbyte, ← List.singleton_append, ← List.append_assoc]
      rcases hrest with ⟨hnil, rfl⟩ | hrest
      · exact .inl ⟨hnil, by rw [List.map_nil, List.append_nil]⟩
      · exact .inr ⟨rest, hrest, fun t ht => hall t (List.mem_cons_of_mem _ ht), rfl⟩
  | case3 payload entry hne token hvalid =>
    rw [parseTokens, if_neg hne, if_neg hvalid]
    refine iff_of_false (by intro hok; cases hok) ?_
    rintro (⟨hnil, -⟩ | ⟨tokens, htokens, hall, -⟩)
    · exact hne hnil
    · obtain ⟨-, rest, rfl, -⟩ := (tokens_iff h).1 htokens
      exact hvalid (validToken_iff.2 (hall token (List.mem_cons_self ..)))

/-- The error of a message names its line. -/
theorem parseTokens_error {payload : Bytes} {e : Error} (h : parseTokens line payload entry = .error e) :
    ∃ detail, e = lineError line detail := by
  induction payload, entry using parseTokens.induct with
  | case1 payload =>
    rw [parseTokens, if_pos rfl] at h
    cases h
  | case2 payload entry hne token hvalid ih =>
    rw [parseTokens, if_neg hne, if_pos hvalid] at h
    exact ih h
  | case3 payload entry hne token hvalid =>
    rw [parseTokens, if_neg hne, if_neg hvalid] at h
    exact ⟨_, (Except.error.inj h).symm⟩

end Messages

/-! ### Delays -/

section Delays

variable {entry digits : List Char} {line : ℕ}

/-- The form of a delay. -/
theorem delay_form : (delayPrefix <+: entry ∧ entry.getLast? = some ')') ↔
    ∃ digits, entry = delayPrefix ++ (digits ++ [')']) := by
  constructor
  · rintro ⟨⟨rest, rfl⟩, hlast⟩
    have hne : rest ≠ [] := by
      rintro rfl
      revert hlast
      decide
    rw [List.getLast?_append_of_ne_nil _ hne, List.getLast?_eq_some_getLast hne, Option.some.injEq] at hlast
    refine ⟨rest.dropLast, ?_⟩
    rw [← hlast, List.dropLast_append_getLast hne]
  · rintro ⟨digits, rfl⟩
    refine ⟨List.prefix_append _ _, ?_⟩
    rw [← List.append_assoc, List.getLast?_concat]

/-- What `ParseDelay` does with the text between the brackets. -/
theorem parseDelay_eq : parseDelay (delayPrefix ++ (digits ++ [')'])) line =
    if ¬ (digits ≠ [] ∧ digits.head?.any Char.isDigit ∧ digits.getLast?.any Char.isDigit ∧
        (fromChars 10 0xFFFFFFFFFFFFFFFF digits).rest = []) ∨
        (fromChars 10 0xFFFFFFFFFFFFFFFF digits).ec = .invalidArgument then
      .error (lineError line ("delay needs decimal milliseconds, got '" ++ String.ofList digits ++ "'"))
    else if (fromChars 10 0xFFFFFFFFFFFFFFFF digits).ec = .resultOutOfRange ∨
        (fromChars 10 0xFFFFFFFFFFFFFFFF digits).value > maxTerminalDelay then
      .error (lineError line s!"delay exceeds the {maxTerminalDelay} ms maximum")
    else .ok (.delay (fromChars 10 0xFFFFFFFFFFFFFFFF digits).value) := by
  have hdigits : ((delayPrefix ++ (digits ++ [')'])).drop delayPrefix.length).take
      ((delayPrefix ++ (digits ++ [')'])).length - delayPrefix.length - 1) = digits := by
    rw [List.drop_left, List.length_append, Nat.add_sub_cancel_left, List.length_append, List.length_singleton,
      Nat.add_sub_cancel, List.take_left]
  rw [parseDelay, if_neg (not_not.2 (delay_form.2 ⟨digits, rfl⟩)), hdigits]

theorem parseDelay_digits {step : TerminalStep} : parseDelay (delayPrefix ++ (digits ++ [')'])) line = .ok step ↔
    digits ≠ [] ∧ (∀ c ∈ digits, c.isDigit) ∧ ofDigits 10 digits ≤ maxTerminalDelay ∧
      step = .delay (ofDigits 10 digits) := by
  have hsome : (∀ c ∈ digits, (digit? 10 c).isSome) ↔ ∀ c ∈ digits, c.isDigit := by
    simp only [isSome_digit_ten]
  rw [parseDelay_eq]
  by_cases hdigits : digits ≠ [] ∧ ∀ c ∈ digits, c.isDigit
  · obtain ⟨hne, hall⟩ := hdigits
    have hread := @fromChars_of_digits 10 0xFFFFFFFFFFFFFFFF digits hne (hsome.2 hall)
    have hhead : digits.head?.any Char.isDigit := by
      obtain ⟨c, rest, rfl⟩ := List.exists_cons_of_ne_nil hne
      exact hall c (List.mem_cons_self ..)
    have hlast : digits.getLast?.any Char.isDigit := by
      rw [List.getLast?_eq_some_getLast hne]
      exact hall _ (List.getLast_mem hne)
    rw [hread]
    by_cases hlarge : 0xFFFFFFFFFFFFFFFF < ofDigits 10 digits
    · -- a number that does not fit is more than the maximum
      rw [if_pos hlarge, if_neg (by simp [hne, hhead, hlast]), if_pos (.inl rfl)]
      refine iff_of_false (by intro hok; cases hok) ?_
      rintro ⟨-, -, hmax, -⟩
      unfold maxTerminalDelay at hmax
      omega
    · rw [if_neg hlarge, if_neg (by simp [hne, hhead, hlast])]
      by_cases hmax : ofDigits 10 digits > maxTerminalDelay
      · rw [if_pos (.inr hmax)]
        refine iff_of_false (by intro hok; cases hok) ?_
        rintro ⟨-, -, hle, -⟩
        omega
      · rw [if_neg (by simpa using hmax), Except.ok.injEq]
        constructor
        · rintro rfl
          exact ⟨hne, hall, Nat.le_of_not_lt hmax, rfl⟩
        · rintro ⟨-, -, -, rfl⟩
          rfl
  · rw [if_pos]
    · refine iff_of_false (by intro hok; cases hok) ?_
      rintro ⟨hne, hall, -, -⟩
      exact hdigits ⟨hne, hall⟩
    · refine .inl ?_
      rintro ⟨hne, -, -, hrest⟩
      exact hdigits ⟨hne, hsome.1 ((fromChars_rest_nil hne).1 hrest)⟩

/-- **The delays that are accepted.** -/
theorem parseDelay_eq_ok_iff {step : TerminalStep} : parseDelay entry line = .ok step ↔
    ∃ d, d ≠ [] ∧ (∀ c ∈ d, c.isDigit) ∧ ofDigits 10 d ≤ maxTerminalDelay ∧
      entry = delayPrefix ++ (d ++ [')']) ∧ step = .delay (ofDigits 10 d) := by
  constructor
  · intro h
    by_cases hform : delayPrefix <+: entry ∧ entry.getLast? = some ')'
    · obtain ⟨digits, rfl⟩ := delay_form.1 hform
      obtain ⟨hne, hall, hmax, hstep⟩ := parseDelay_digits.1 h
      exact ⟨digits, hne, hall, hmax, rfl, hstep⟩
    · rw [parseDelay, if_pos hform] at h
      cases h
  · rintro ⟨d, hne, hall, hmax, rfl, hstep⟩
    exact parseDelay_digits.2 ⟨hne, hall, hmax, hstep⟩

theorem parseDelay_error {e : Error} (h : parseDelay entry line = .error e) : ∃ detail, e = lineError line detail := by
  unfold parseDelay at h
  dsimp only at h
  split_ifs at h
  all_goals exact ⟨_, (Except.error.inj h).symm⟩

end Delays

/-! ### Lines -/

section Lines

variable {entry : List Char} {line : ℕ} {step : TerminalStep}

/-- **A line is accepted with the step that it means.** -/
theorem parseEntry_eq_ok_iff (h : Trimmed whitespace entry) (hne : entry ≠ []) :
    parseEntry entry line = .ok step ↔ Denotes entry step := by
  unfold parseEntry
  split_ifs with hdelay
  · rw [parseDelay_eq_ok_iff]
    constructor
    · rintro ⟨d, hd, hall, hmax, rfl, rfl⟩
      exact .delay hd hall hmax
    · intro hdenotes
      cases hdenotes with
      | delay hd hall hmax => exact ⟨_, hd, hall, hmax, rfl, rfl⟩
      | @message _ tokens htokens hall =>
        -- the first token of such a line is longer than two characters
        exfalso
        obtain ⟨-, rest, rfl, -⟩ := (tokens_iff h).1 htokens
        have hlength := (hall _ (List.mem_cons_self ..)).length_le
        obtain ⟨text, rfl⟩ := hdelay
        have hfive : ∀ c ∈ ['d', 'e', 'l', 'a', 'y'], (! whitespace c) = true := by
          simp [whitespace]
        rw [List.takeWhile_append_of_pos hfive, List.length_append] at hlength
        simp at hlength
        omega
  · have hmessage := @parseTokens_eq_ok_iff entry line [] step h
    rw [parseMessage, hmessage]
    constructor
    · rintro (⟨hnil, -⟩ | ⟨tokens, htokens, hall, rfl⟩)
      · exact absurd hnil hne
      · exact .message htokens hall
    · intro hdenotes
      cases hdenotes with
      | delay hd hall hmax =>
        refine absurd ?_ hdelay
        exact ⟨'(' :: (_ ++ [')']), rfl⟩
      | message htokens hall => exact .inr ⟨_, htokens, hall, rfl⟩

theorem parseEntry_error {e : Error} (h : parseEntry entry line = .error e) : ∃ detail, e = lineError line detail := by
  unfold parseEntry at h
  split_ifs at h
  · exact parseDelay_error h
  · exact parseTokens_error h

end Lines

/-! ### Scripts and their meaning -/

/-- The lines that are not blank, trimmed. -/
def entries (lines : List (List Char)) : List (List Char) :=
  (lines.map (trim whitespace)).filter fun entry => decide (entry ≠ [])

/-- The lines that are not blank mean the steps, in order. -/
def Means (lines : List (List Char)) (steps : List TerminalStep) : Prop := List.Forall₂ Denotes (entries lines) steps

/-- The error names the first line that means nothing. -/
structure FirstOffending (lines : List (List Char)) (line : ℕ) : Prop where
  exists_line : ∃ before offending after, lines = before ++ offending :: after ∧ before.length = line ∧
    (∃ steps, Means before steps) ∧ trim whitespace offending ≠ [] ∧ ∀ step, ¬ Denotes (trim whitespace offending) step

section Scripts

variable {lines : List (List Char)} {steps : List TerminalStep} {line : List Char} {index : ℕ}

theorem means_nil : Means [] steps ↔ steps = [] := List.forall₂_nil_left_iff

/-- All lines mean something when there are steps that they mean. -/
theorem exists_means : (∃ steps, Means lines steps) ↔ ∀ entry ∈ entries lines, ∃ step, Denotes entry step := by
  unfold Means
  generalize entries lines = l
  induction l with
  | nil => simp
  | cons entry l ih =>
    simp only [List.forall₂_cons_left_iff, List.forall_mem_cons, ← ih]
    constructor
    · rintro ⟨steps, step, rest, hdenotes, hmeans, rfl⟩
      exact ⟨⟨step, hdenotes⟩, rest, hmeans⟩
    · rintro ⟨⟨step, hdenotes⟩, rest, hmeans⟩
      exact ⟨step :: rest, step, rest, hdenotes, hmeans, rfl⟩

theorem Means.eq_nil_iff (h : Means lines steps) : steps = [] ↔ entries lines = [] := by
  rw [← List.length_eq_zero_iff, ← h.length_eq, List.length_eq_zero_iff]

theorem means_cons_blank (h : trim whitespace line = []) : Means (line :: lines) steps ↔ Means lines steps := by
  simp [Means, entries, h]

theorem means_cons (h : trim whitespace line ≠ []) : Means (line :: lines) steps ↔
    ∃ step rest, steps = step :: rest ∧ Denotes (trim whitespace line) step ∧ Means lines rest := by
  have hentries : entries (line :: lines) = trim whitespace line :: entries lines := by
    simp [entries, h]
  rw [Means, hentries, List.forall₂_cons_left_iff]
  constructor
  · rintro ⟨step, rest, hdenotes, hmeans, rfl⟩
    exact ⟨step, rest, rfl, hdenotes, hmeans⟩
  · rintro ⟨step, rest, rfl, hdenotes, hmeans⟩
    exact ⟨step, rest, hdenotes, hmeans, rfl⟩

/-- The steps of the lines follow those there were. -/
theorem parseLines_eq_ok_iff {steps' : List TerminalStep} : parseLines index steps lines = .ok steps' ↔
    ∃ more, steps' = steps ++ more ∧ Means lines more := by
  induction lines generalizing index steps with
  | nil =>
    simp only [means_nil, exists_eq_right, List.append_nil]
    rw [parseLines, Except.ok.injEq, eq_comm]
  | cons line lines ih =>
    unfold parseLines
    dsimp only
    by_cases hblank : trim whitespace line = []
    · rw [if_pos hblank, ih]
      simp only [means_cons_blank hblank]
    · rw [if_neg hblank]
      simp only [means_cons hblank]
      have hentry : ∀ step, parseEntry (trim whitespace line) (index + 1) = .ok step ↔
          Denotes (trim whitespace line) step := fun step => parseEntry_eq_ok_iff (trimmed_trim ..) hblank
      cases hparse : parseEntry (trim whitespace line) (index + 1) with
      | error e =>
        refine iff_of_false (by intro hok; cases hok) ?_
        rintro ⟨more, -, step, rest, -, hdenotes, -⟩
        rw [(hentry step).2 hdenotes] at hparse
        cases hparse
      | ok step =>
        refine (@ih (steps ++ [step]) (index + 1)).trans ?_
        constructor
        · rintro ⟨rest, rfl, hmeans⟩
          exact ⟨step :: rest, by rw [List.append_assoc, List.singleton_append], step, rest, rfl,
            (hentry step).1 hparse, hmeans⟩
        · rintro ⟨more, rfl, step', rest, rfl, hdenotes, hmeans⟩
          rw [(hentry step').2 hdenotes, Except.ok.injEq] at hparse
          exact ⟨rest, by rw [hparse, List.append_assoc, List.singleton_append], hmeans⟩

/-- The error names the line at which the loop stops. -/
theorem parseLines_error {e : Error} (h : parseLines index steps lines = .error e) :
    ∃ k detail, FirstOffending lines k ∧ e = lineError (index + k + 1) detail := by
  induction lines generalizing index steps with
  | nil => cases h
  | cons line lines ih =>
    unfold parseLines at h
    dsimp only at h
    by_cases hblank : trim whitespace line = []
    · rw [if_pos hblank] at h
      obtain ⟨k, detail, ⟨before, offending, after, rfl, rfl, ⟨steps, hmeans⟩, hoffending⟩, rfl⟩ := ih h
      refine ⟨before.length + 1, detail, ⟨line :: before, offending, after, rfl, rfl, ⟨steps, ?_⟩, hoffending⟩, ?_⟩
      · exact (means_cons_blank hblank).2 hmeans
      · congr 1
        omega
    · rw [if_neg hblank] at h
      have hentry : ∀ step, parseEntry (trim whitespace line) (index + 1) = .ok step ↔
          Denotes (trim whitespace line) step := fun step => parseEntry_eq_ok_iff (trimmed_trim ..) hblank
      cases hparse : parseEntry (trim whitespace line) (index + 1) with
      | error e' =>
        rw [hparse] at h
        cases h
        obtain ⟨detail, rfl⟩ := parseEntry_error hparse
        refine ⟨0, detail, ⟨[], line, lines, rfl, rfl, ⟨[], means_nil.2 rfl⟩, hblank, fun step hdenotes => ?_⟩, rfl⟩
        rw [(hentry step).2 hdenotes] at hparse
        cases hparse
      | ok step =>
        rw [hparse] at h
        obtain ⟨k, detail, ⟨before, offending, after, rfl, rfl, ⟨rest, hmeans⟩, hoffending⟩, rfl⟩ := ih h
        refine ⟨before.length + 1, detail, ⟨line :: before, offending, after, rfl, rfl, ⟨step :: rest, ?_⟩,
          hoffending⟩, ?_⟩
        · exact (means_cons hblank).2 ⟨step, rest, rfl, (hentry step).1 hparse, hmeans⟩
        · congr 1
          omega

end Scripts

/-! ### Writing a script -/

/-- The two digits of a byte. -/
def renderByte (b : Byte) : List Char := [Nat.digitChar (b.toNat / 16), Nat.digitChar (b.toNat % 16)]

/-- A line for a step. -/
def renderStep : TerminalStep → List Char
  | .message payload => [' '].intercalate (payload.map renderByte)
  | .delay duration => delayPrefix ++ (Nat.toDigits 10 duration.toNat ++ [')'])

/-- A step that a line can mean. -/
def Admissible : TerminalStep → Prop
  | .message payload => payload ≠ []
  | .delay duration => 0 ≤ duration ∧ duration ≤ maxTerminalDelay

section Render

theorem digit_digitChar : ∀ n < 16, digit? 16 (Nat.digitChar n) = some n ∧ (Nat.digitChar n).isHexDigit := by
  decide

theorem not_whitespace_of_isHexDigit {c : Char} (h : c.isHexDigit) : ¬ whitespace c := by
  simp only [whitespace, Bool.or_eq_true, beq_iff_eq]
  rintro (((rfl | rfl) | rfl) | rfl) <;> cases h

theorem hexToken_renderByte (b : Byte) : HexToken (renderByte b) ∧ UInt8.ofNat (ofDigits 16 (renderByte b)) = b := by
  have hb : b.toNat < 256 := b.toNat_lt
  obtain ⟨hhigh, hhighHex⟩ := digit_digitChar (b.toNat / 16) (by omega)
  obtain ⟨hlow, hlowHex⟩ := digit_digitChar (b.toNat % 16) (by omega)
  refine ⟨⟨List.cons_ne_nil _ _, Nat.le_refl 2, ?_⟩, ?_⟩
  · intro c hc
    rcases List.mem_pair.1 hc with rfl | rfl
    · exact hhighHex
    · exact hlowHex
  · have hvalue : ofDigits 16 (renderByte b) = b.toNat := by
      rw [ofDigits, renderByte, List.foldl_cons, List.foldl_cons, List.foldl_nil, hhigh, hlow, Option.getD_some,
        Option.getD_some]
      omega
    rw [hvalue, UInt8.ofNat_toNat]

theorem HexToken.isToken {t : List Char} (h : HexToken t) : IsToken whitespace t :=
  ⟨h.ne_nil, fun c hc => not_whitespace_of_isHexDigit (h.digits c hc)⟩

theorem tokens_render {payload : Bytes} (h : payload ≠ []) :
    Tokens whitespace ([' '].intercalate (payload.map renderByte)) (payload.map renderByte) := by
  induction payload with
  | nil => exact absurd rfl h
  | cons b payload ih =>
    have hb := (hexToken_renderByte b).1.isToken
    cases payload with
    | nil => exact .last hb
    | cons b' payload =>
      rw [List.map_cons, List.intercalate_cons_of_ne_nil (by simp), List.append_assoc]
      exact .cons hb (List.cons_ne_nil _ _) (by simp [whitespace]) (ih (List.cons_ne_nil _ _))

theorem ofDigits_toDigits (n : ℕ) : ofDigits 10 (Nat.toDigits 10 n) = n := by
  have hdigit : ∀ n < 10, digit? 10 (Nat.digitChar n) = some n := by decide
  induction n using Nat.strong_induction_on with
  | _ n ih =>
    by_cases hn : n < 10
    · rw [Nat.toDigits_of_lt_base hn, ofDigits, List.foldl_cons, List.foldl_nil, hdigit n hn]
      simp
    · rw [Nat.toDigits_of_base_le (by decide) (Nat.le_of_not_lt hn), ofDigits, List.foldl_append]
      change 10 * ofDigits 10 (Nat.toDigits 10 (n / 10)) + (digit? 10 (Nat.digitChar (n % 10))).getD 0 = n
      rw [ih (n / 10) (by omega), hdigit (n % 10) (by omega), Option.getD_some]
      omega

/-- A rendered step is a trimmed line that means it. -/
theorem denotes_renderStep {step : TerminalStep} (h : Admissible step) :
    Trimmed whitespace (renderStep step) ∧ Denotes (renderStep step) step := by
  cases step with
  | message payload =>
    have htokens := tokens_render h
    refine ⟨htokens.trimmed, ?_⟩
    have hmessage := Denotes.message htokens (by
      intro t ht
      obtain ⟨b, -, rfl⟩ := List.mem_map.1 ht
      exact (hexToken_renderByte b).1)
    have hbytes : (payload.map renderByte).map (fun t => UInt8.ofNat (ofDigits 16 t)) = payload := by
      rw [List.map_map]
      exact List.map_id'' (fun b => (hexToken_renderByte b).2) payload
    rw [hbytes] at hmessage
    exact hmessage
  | delay duration =>
    obtain ⟨hnonneg, hmax⟩ := h
    obtain ⟨n, rfl⟩ := Int.eq_ofNat_of_zero_le hnonneg
    refine ⟨⟨fun c hc => ?_, fun c hc => ?_⟩, ?_⟩
    · rw [show c = 'd' from (Option.some.inj hc).symm]
      decide
    · rw [renderStep, ← List.append_assoc, List.getLast?_concat, Option.mem_def, Option.some.injEq] at hc
      rw [← hc]
      decide
    · have hdelay := @Denotes.delay (Nat.toDigits 10 n) Nat.toDigits_ne_nil
        (fun c hc => Nat.isDigit_of_mem_toDigits (by decide) (by decide) hc)
        (by rw [ofDigits_toDigits]; exact Int.ofNat_le.1 hmax)
      rw [ofDigits_toDigits] at hdelay
      exact hdelay

theorem means_render {steps : List TerminalStep} (h : ∀ step ∈ steps, Admissible step) :
    Means (steps.map renderStep) steps := by
  induction steps with
  | nil => exact means_nil.2 rfl
  | cons step steps ih =>
    obtain ⟨htrimmed, hdenotes⟩ := denotes_renderStep (h step (List.mem_cons_self ..))
    have htrim := htrimmed.trim_eq
    rw [List.map_cons, means_cons (by rw [htrim]; exact hdenotes.ne_nil)]
    refine ⟨step, steps, rfl, ?_, ih fun step' hstep' => h step' (List.mem_cons_of_mem _ hstep')⟩
    rw [htrim]
    exact hdenotes

end Render

/-! ### The scripts that are accepted -/

/-- The steps of a script are what its lines mean. -/
theorem parseTerminalScript_eq_ok_iff {lines : List (List Char)} {steps : List TerminalStep} :
    parseTerminalScript lines = .ok steps ↔ steps ≠ [] ∧ Means lines steps := by
  have hlines : ∀ steps', parseLines 0 [] lines = .ok steps' ↔ Means lines steps' := by
    intro steps'
    rw [parseLines_eq_ok_iff]
    simp only [List.nil_append, exists_eq_left']
  unfold parseTerminalScript
  cases hparse : parseLines 0 [] lines with
  | error e =>
    refine iff_of_false (by intro hok; cases hok) ?_
    rintro ⟨-, hmeans⟩
    rw [(hlines steps).2 hmeans] at hparse
    cases hparse
  | ok steps' =>
    have hmeans := (hlines steps').1 hparse
    dsimp only
    split_ifs with hempty
    · refine iff_of_false (by intro hok; cases hok) ?_
      rintro ⟨hne, hmeans'⟩
      rw [(hlines steps).2 hmeans', Except.ok.injEq] at hparse
      exact hne (hparse.trans hempty)
    · constructor
      · intro hok
        rw [← Except.ok.inj hok]
        exact ⟨hempty, hmeans⟩
      · rintro ⟨-, hmeans'⟩
        rw [← hparse, (hlines steps).2 hmeans']

/-- **A script is accepted when a line is not blank and every such line means a step; the steps are what the lines
mean, in order.  The error of another script names its first line that means nothing, unless all are blank.  What is
rendered is read back.** -/
theorem parseTerminalScript_spec (lines : List (List Char)) :
    ((∃ steps, parseTerminalScript lines = .ok steps) ↔
      entries lines ≠ [] ∧ ∀ entry ∈ entries lines, ∃ step, Denotes entry step) ∧
    (∀ steps, parseTerminalScript lines = .ok steps ↔ steps ≠ [] ∧ List.Forall₂ Denotes (entries lines) steps) ∧
    (∀ e, parseTerminalScript lines = .error e →
      (entries lines = [] ∧ e = ⟨.invalidConfig, "script has no steps"⟩) ∨
        ∃ k detail, FirstOffending lines k ∧ e = lineError (k + 1) detail) ∧
    ∀ steps, steps ≠ [] → (∀ step ∈ steps, Admissible step) →
      parseTerminalScript (steps.map renderStep) = .ok steps := by
  refine ⟨?_, fun steps => parseTerminalScript_eq_ok_iff, fun e herror => ?_, fun steps hne hall => ?_⟩
  · constructor
    · rintro ⟨steps, hok⟩
      obtain ⟨hne, hmeans⟩ := parseTerminalScript_eq_ok_iff.1 hok
      exact ⟨fun hnil => hne (hmeans.eq_nil_iff.2 hnil), exists_means.1 ⟨steps, hmeans⟩⟩
    · rintro ⟨hne, hall⟩
      obtain ⟨steps, hmeans⟩ := exists_means.2 hall
      exact ⟨steps, parseTerminalScript_eq_ok_iff.2 ⟨fun hnil => hne (hmeans.eq_nil_iff.1 hnil), hmeans⟩⟩
  · unfold parseTerminalScript at herror
    cases hparse : parseLines 0 [] lines with
    | error e' =>
      rw [hparse] at herror
      cases herror
      obtain ⟨k, detail, hoffending, rfl⟩ := parseLines_error hparse
      exact .inr ⟨k, detail, hoffending, by rw [Nat.zero_add]⟩
    | ok steps =>
      rw [hparse] at herror
      dsimp only at herror
      split_ifs at herror with hempty
      obtain ⟨more, hsteps, hmeans⟩ := parseLines_eq_ok_iff.1 hparse
      rw [hempty, List.nil_append] at hsteps
      exact .inl ⟨hmeans.eq_nil_iff.1 hsteps.symm, (Except.error.inj herror).symm⟩
  · exact parseTerminalScript_eq_ok_iff.2 ⟨hne, means_render hall⟩

/-- A message and a delay. -/
theorem parseTerminalScript_spec_two : parseTerminalScript (["10 ff", "delay(100)"].map String.toList) =
    .ok [.message [0x10, 0xFF], .delay 100] :=
  (parseTerminalScript_spec []).2.2.2 [.message [0x10, 0xFF], .delay 100] (by decide) (by
    rintro step (_ | ⟨_, _ | ⟨_, h⟩⟩)
    · exact List.cons_ne_nil _ _
    · exact ⟨by decide, by decide⟩
    · cases h)

end FastEcu.Diagnostics.Terminal
