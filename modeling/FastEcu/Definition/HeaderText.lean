import FastEcu.Definition.Writer

/-!
# The texts of a header

What `TrimHeaderText` leaves, and the address that `HexText` writes and `ParseHeaderAddress` reads.

* `trimHeaderText_trimHeaderText` : a text that was trimmed stays as it is.
* `parseHeaderAddress_hexText` : an address is read back.
* `normalizeHeaderInput_normalizeHeaderInput` : so is an input that was normalised.
-/

namespace FastEcu.Definition

open Memory Data

/-! ### Trimming -/

/-- None of the spaces stands at the front. -/
def Stripped (spaces : List (List Char)) (text : List Char) : Prop := ∀ space ∈ spaces, ¬ space <+: text

section Strip

variable {spaces : List (List Char)} {text : List Char}

theorem find?_eq_none_of_stripped (h : Stripped spaces text) :
    spaces.find? (fun space => space.isPrefixOf text) = none :=
  List.find?_eq_none.2 fun space hspace hpre =>
    h space hspace (List.isPrefixOf_iff_prefix.1 hpre)

theorem stripSpaces_of_stripped (h : Stripped spaces text) (fuel : ℕ) :
    stripSpaces spaces fuel text = text := by
  cases fuel with
  | zero => rfl
  | succ fuel => rw [stripSpaces, find?_eq_none_of_stripped h]

/-- The end of a text is left, and no space stands at its front. -/
theorem stripSpaces_spec (hspaces : [] ∉ spaces) {fuel : ℕ} (hfuel : text.length ≤ fuel) :
    stripSpaces spaces fuel text <:+ text ∧ Stripped spaces (stripSpaces spaces fuel text) := by
  induction fuel generalizing text with
  | zero =>
    obtain rfl : text = [] := List.eq_nil_of_length_eq_zero (Nat.le_zero.1 hfuel)
    refine ⟨List.suffix_refl _, fun space hspace hpre => hspaces ?_⟩
    rwa [List.prefix_nil.1 hpre] at hspace
  | succ fuel ih =>
    rw [stripSpaces]
    cases hfind : spaces.find? fun space => space.isPrefixOf text with
    | none =>
      refine ⟨List.suffix_refl _, fun space hspace hpre => ?_⟩
      exact List.find?_eq_none.1 hfind space hspace (List.isPrefixOf_iff_prefix.2 hpre)
    | some space =>
      have hmem := List.mem_of_find?_eq_some hfind
      have hpos : 0 < space.length := List.length_pos_iff.2 fun hnil => hspaces (hnil ▸ hmem)
      obtain ⟨hsuffix, hstripped⟩ := @ih (text.drop space.length) (by rw [List.length_drop]; omega)
      exact ⟨hsuffix.trans (List.drop_suffix _ _), hstripped⟩

theorem Stripped.of_isPre {text' : List Char} (h : Stripped spaces text) (hpre : text' <+: text) :
    Stripped spaces text' := fun space hspace hspace' => h space hspace (hspace'.trans hpre)

end Strip

theorem kWhitespace_ne_nil : [] ∉ kWhitespace := by decide

theorem reverse_kWhitespace_ne_nil : [] ∉ kWhitespace.map List.reverse := by decide

/-- A text with a space neither at its front nor at its end is not trimmed. -/
theorem trimHeaderText_of_stripped {text : String} (hfront : Stripped kWhitespace text.toList)
    (hback : Stripped (kWhitespace.map List.reverse) text.toList.reverse) : trimHeaderText text = text := by
  unfold trimHeaderText
  rw [stripSpaces_of_stripped hfront]
  dsimp only
  rw [stripSpaces_of_stripped hback, List.reverse_reverse, String.ofList_toList]

/-- **A text that was trimmed stays as it is.** -/
theorem trimHeaderText_trimHeaderText (text : String) :
    trimHeaderText (trimHeaderText text) = trimHeaderText text := by
  have hfront := @stripSpaces_spec kWhitespace text.toList kWhitespace_ne_nil _ le_rfl
  generalize hf : stripSpaces kWhitespace text.toList.length text.toList = front at hfront
  have hback := @stripSpaces_spec (kWhitespace.map List.reverse) front.reverse reverse_kWhitespace_ne_nil
    front.length (by rw [List.length_reverse])
  generalize hb : stripSpaces (kWhitespace.map List.reverse) front.length front.reverse = back at hback
  have htrim : trimHeaderText text = String.ofList back.reverse := by
    unfold trimHeaderText
    rw [hf]
    dsimp only
    rw [hb]
  have hpre : back.reverse <+: front := by
    rw [← List.reverse_reverse front]
    exact List.reverse_prefix.2 hback.1
  rw [htrim]
  refine trimHeaderText_of_stripped ?_ ?_
  · rw [String.toList_ofList]
    exact hfront.2.of_isPre hpre
  · rw [String.toList_ofList, List.reverse_reverse]
    exact hback.2

theorem trimHeaderText_empty : trimHeaderText "" = "" := by decide

theorem normalizeHeaderInput_normalizeHeaderInput (input : DefinitionHeaderInput) :
    normalizeHeaderInput (normalizeHeaderInput input) = normalizeHeaderInput input := by
  simp only [normalizeHeaderInput, normalizeMetadata, trimHeaderText_trimHeaderText]

/-! ### Addresses -/

/-- The characters with which no space begins or ends: the ASCII ones above the blank. -/
def isGraphic (c : Char) : Bool := '!' ≤ c && c ≤ '~'

theorem kWhitespace_head : ∀ space ∈ kWhitespace, space.head?.any isGraphic = false := by decide

theorem kWhitespace_getLast :
    ∀ space ∈ kWhitespace.map List.reverse, space.head?.any isGraphic = false := by
  decide

theorem stripped_of_graphic {spaces : List (List Char)} (hne : [] ∉ spaces)
    (hspaces : ∀ space ∈ spaces, space.head?.any isGraphic = false) {c : Char} (hc : isGraphic c)
    (text : List Char) : Stripped spaces (c :: text) := by
  intro space hspace hpre
  cases space with
  | nil => exact hne hspace
  | cons d rest =>
    obtain ⟨rfl, -⟩ := List.cons_prefix_cons.1 hpre
    have hplain := hspaces _ hspace
    rw [List.head?_cons, Option.any_some, hc] at hplain
    cases hplain

/-- A text that begins and ends with graphic characters is not trimmed. -/
theorem trimHeaderText_of_graphic {text : String} {c d : Char} {rest rest' : List Char}
    (hfront : text.toList = c :: rest) (hback : text.toList = rest' ++ [d]) (hc : isGraphic c)
    (hd : isGraphic d) : trimHeaderText text = text := by
  refine trimHeaderText_of_stripped ?_ ?_
  · rw [hfront]
    exact stripped_of_graphic kWhitespace_ne_nil kWhitespace_head hc rest
  · rw [hback, List.reverse_concat]
    exact stripped_of_graphic reverse_kWhitespace_ne_nil kWhitespace_getLast hd rest'.reverse

theorem digitChar_hex : ∀ d < 16, Logging.digitValue 16 d.digitChar = some d ∧ isGraphic d.digitChar ∧
    ¬ Expression.whitespace d.digitChar := by decide

/-- The digits of a number are read as the number. -/
theorem mapM_toDigits (n : ℕ) : ∃ digits, (Nat.toDigits 16 n).mapM (Logging.digitValue 16) = some digits ∧
    digits.foldl (fun n d => n * 16 + d) 0 = n := by
  induction n using Nat.strong_induction_on with
  | _ n ih =>
    by_cases hlt : n < 16
    · rw [Nat.toDigits_of_lt_base hlt, List.mapM_cons, (digitChar_hex n hlt).1]
      exact ⟨[n], rfl, by simp⟩
    · rw [not_lt] at hlt
      obtain ⟨digits, hdigits, hvalue⟩ := ih (n / 16) (Nat.div_lt_self (by omega) (by decide))
      have hmod := Nat.mod_lt n (show 0 < 16 by decide)
      rw [Nat.toDigits_of_base_le (by decide) hlt, List.mapM_append, hdigits, List.mapM_cons,
        (digitChar_hex _ hmod).1]
      refine ⟨digits ++ [n % 16], rfl, ?_⟩
      rw [List.foldl_append, hvalue]
      show n / 16 * 16 + n % 16 = n
      omega

theorem toDigits_last (n : ℕ) : ∃ rest d, Nat.toDigits 16 n = rest ++ [d] ∧ isGraphic d ∧
    ¬ Expression.whitespace d := by
  by_cases hlt : n < 16
  · obtain ⟨-, hgraphic, hspace⟩ := digitChar_hex n hlt
    exact ⟨[], _, Nat.toDigits_of_lt_base hlt, hgraphic, hspace⟩
  · rw [not_lt] at hlt
    obtain ⟨-, hgraphic, hspace⟩ := digitChar_hex (n % 16) (Nat.mod_lt n (by decide))
    exact ⟨_, _, Nat.toDigits_of_base_le (by decide) hlt, hgraphic, hspace⟩

theorem trimHeaderText_hexText (n : ℕ) : trimHeaderText (hexText n) = hexText n := by
  obtain ⟨rest, d, hdigits, hgraphic, -⟩ := toDigits_last n
  have htext : (hexText n).toList = '0' :: 'x' :: Nat.toDigits 16 n := String.toList_ofList
  have hback : (hexText n).toList = ('0' :: 'x' :: rest) ++ [d] := by
    rw [htext, hdigits]
    rfl
  exact trimHeaderText_of_graphic htext hback (by decide) hgraphic

theorem parseHexValue_hexText {n : ℕ} (h : n < 2 ^ 64) : parseHexValue (hexText n) = some n := by
  obtain ⟨rest, d, hdigits, -, hspace⟩ := toDigits_last n
  have htext : (hexText n).toList = '0' :: 'x' :: Nat.toDigits 16 n := String.toList_ofList
  have htrim : Expression.trimmed (hexText n).toList = '0' :: 'x' :: Nat.toDigits 16 n := by
    rw [htext]
    have htokens := @Expression.trimmed_tokens [] ('0' :: 'x' :: Nat.toDigits 16 n) [] '0' d
      ('x' :: Nat.toDigits 16 n) ('0' :: 'x' :: rest) (fun _ h => (nomatch h)) (fun _ h => (nomatch h))
      (by decide) hspace rfl (by rw [hdigits]; rfl)
    rwa [List.append_nil, List.nil_append] at htokens
  obtain ⟨digits, hmap, hvalue⟩ := mapM_toDigits n
  unfold parseHexValue
  rw [htrim]
  show Logging.fromCharsWhole 16 (2 ^ 64) (Nat.toDigits 16 n) = some n
  rw [Logging.fromCharsWhole, if_neg Nat.toDigits_ne_nil, hmap]
  show (if digits.foldl (fun n d => n * 16 + d) 0 < 2 ^ 64 then some _ else none) = some n
  rw [hvalue, if_pos h]

/-- The address of a text that is trimmed and has no sign. -/
theorem parseHeaderAddress_of_hex {text : String} {n : ℕ} (htrim : trimHeaderText text = text)
    (hne : text ≠ "") (hplus : ∀ rest, text.toList ≠ '+' :: rest) (hparsed : parseHexValue text = some n)
    (hlt : n < u32Size) (source definitionId : String) :
    parseHeaderAddress text source definitionId = .ok (some ⟨n, hlt⟩) := by
  unfold parseHeaderAddress
  rw [htrim]
  dsimp only
  rw [if_neg hne]
  split
  · rename_i heq
    split at heq
    · rename_i hsign
      exact absurd hsign (hplus _)
    · rw [htrim, if_pos rfl, hparsed] at heq
      cases heq
  · rename_i heq
    split at heq
    · rename_i hsign
      exact absurd hsign (hplus _)
    · rw [htrim, if_pos rfl, hparsed] at heq
      cases heq
      rw [definitionAddressFrom, dif_pos hlt]
      rfl

/-- **An address that is written is read back.** -/
theorem parseHeaderAddress_hexText (address : DefinitionAddress) (source definitionId : String) :
    parseHeaderAddress (hexText address.value) source definitionId = .ok (some address) := by
  have htext : (hexText address.value).toList = '0' :: 'x' :: Nat.toDigits 16 address.value :=
    String.toList_ofList
  have hne : hexText address.value ≠ "" := by
    intro h
    rw [h] at htext
    cases htext
  have hplus : ∀ rest, (hexText address.value).toList ≠ '+' :: rest := by
    intro rest h
    rw [htext] at h
    exact absurd (List.cons.inj h).1 (by decide)
  have hparsed := @parseHexValue_hexText address.value (address.lt.trans (by decide))
  exact parseHeaderAddress_of_hex (trimHeaderText_hexText _) hne hplus hparsed address.lt source definitionId

end FastEcu.Definition
