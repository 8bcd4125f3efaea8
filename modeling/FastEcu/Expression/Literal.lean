import FastEcu.Expression.Grammar

/-!
# Reading a decimal literal

`scanNumber` reads the longest literal, the grammar has any.  The two agree where a character
follows that cannot continue a literal, and in an expression no other character may follow.

* `scanNumber_sound` : what is read is a decimal literal.
* `scanNumber_complete` : a literal is read whole, if one of the characters of `Follow` is next.
-/

namespace FastEcu.Expression

/-- The end of the text, or a character that may stand behind a factor. -/
def Follow (r : List Char) : Prop :=
  ∀ c ∈ r.head?, whitespace c ∨ c = '+' ∨ c = '-' ∨ c = '*' ∨ c = '/' ∨ c = ')'

theorem follow_nil : Follow [] := fun _ h => nomatch h

theorem follow_cons {c : Char} {r : List Char} :
    Follow (c :: r) ↔ whitespace c ∨ c = '+' ∨ c = '-' ∨ c = '*' ∨ c = '/' ∨ c = ')' := by
  simp [Follow]

theorem whitespace_iff {c : Char} :
    whitespace c ↔
      c = ' ' ∨ c = '\t' ∨ c = '\n' ∨ c = '\r' ∨ c = '\x0c' ∨ c = '\x0b' := by
  simp [whitespace, or_assoc]

theorem not_whitespace_of_isDigit {c : Char} (h : c.isDigit) : ¬ whitespace c := by
  rw [whitespace_iff]
  rintro (rfl | rfl | rfl | rfl | rfl | rfl) <;> simp at h

/-- No character that may follow continues a literal. -/
theorem follow_cons_not {c : Char} {r : List Char} (h : Follow (c :: r)) :
    c.isDigit = false ∧ c ≠ '.' ∧ c ≠ 'e' ∧ c ≠ 'E' := by
  rw [follow_cons, whitespace_iff] at h
  obtain (rfl | rfl | rfl | rfl | rfl | rfl) | rfl | rfl | rfl | rfl | rfl := h <;> decide

/-! ### Runs of digits -/

theorem digits_takeWhile (s : List Char) : Digits (s.takeWhile Char.isDigit) :=
  fun _ hc => List.mem_takeWhile_imp hc

theorem takeWhile_digits {s r : List Char} (hs : Digits s)
    (hr : ∀ c ∈ r.head?, c.isDigit = false) :
    (s ++ r).takeWhile Char.isDigit = s ∧ (s ++ r).dropWhile Char.isDigit = r := by
  rw [List.takeWhile_append_of_pos hs, List.dropWhile_append_of_pos hs]
  cases r with
  | nil => simp
  | cons c r =>
    have hc : c.isDigit = false := hr c rfl
    simp [hc]

theorem head_not_isDigit_of_follow {r : List Char} (h : Follow r) :
    ∀ c ∈ r.head?, c.isDigit = false := by
  cases r with
  | nil => exact fun _ hc => nomatch hc
  | cons c r =>
    rintro _ ⟨⟩
    exact (follow_cons_not h).1

/-! ### The exponent -/

theorem exponentSign_sound (text : List Char) :
    IsSign (exponentSign text) ∧
      text = exponentSign text ++ text.drop (exponentSign text).length := by
  simp only [exponentSign]
  split
  · exact ⟨.plus, rfl⟩
  · exact ⟨.minus, rfl⟩
  · exact ⟨.none, rfl⟩

theorem scanExponent_sound (text : List Char) :
    text = (scanExponent text).1 ++ (scanExponent text).2 ∧ IsExponent (scanExponent text).1 := by
  cases text with
  | nil => exact ⟨rfl, .none⟩
  | cons e tail =>
    obtain ⟨hsign, htail⟩ := exponentSign_sound tail
    simp only [scanExponent]
    split
    · rename_i h
      refine ⟨?_, .some h.1 hsign (digits_takeWhile _) h.2⟩
      rw [List.cons_append, List.append_assoc, List.takeWhile_append_dropWhile, ← htail]
    · exact ⟨rfl, .none⟩

theorem exponentSign_complete {sign s r : List Char} (h : IsSign sign) (hs : Digits s)
    (hne : s ≠ []) : exponentSign (sign ++ (s ++ r)) = sign := by
  cases h with
  | none =>
    -- a digit is no sign
    obtain ⟨d, s, rfl⟩ := List.exists_cons_of_ne_nil hne
    have hd : d.isDigit := hs d List.mem_cons_self
    simp only [exponentSign, List.nil_append, List.cons_append]
    split
    · simp_all
    · simp_all
    · rfl
  | plus => rfl
  | minus => rfl

theorem scanExponent_complete {exponent r : List Char} (h : IsExponent exponent) (hr : Follow r) :
    scanExponent (exponent ++ r) = (exponent, r) := by
  cases h with
  | none =>
    cases r with
    | nil => rfl
    | cons c r =>
      obtain ⟨-, -, he, hE⟩ := follow_cons_not hr
      simp [scanExponent, he, hE]
  | @some e sign s he hsign hs hne =>
    obtain ⟨ht, hd⟩ := takeWhile_digits hs (head_not_isDigit_of_follow hr)
    simp only [scanExponent, List.cons_append, List.append_assoc,
      exponentSign_complete hsign hs hne, List.drop_left, ht, hd]
    rw [if_pos ⟨he, hne⟩]

/-! ### The literal -/

theorem scanFraction_sound (text : List Char) :
    text = (scanFraction text).1 ++ (scanFraction text).2 ∧
      ((scanFraction text).1 = [] ∨ ∃ f, (scanFraction text).1 = '.' :: f ∧ Digits f) := by
  simp only [scanFraction]
  split
  · refine ⟨?_, .inr ⟨_, rfl, digits_takeWhile _⟩⟩
    rw [List.cons_append, List.takeWhile_append_dropWhile]
  · exact ⟨rfl, .inl rfl⟩

theorem scanNumber_sound {text literal behind : List Char}
    (h : scanNumber text = some (literal, behind)) :
    text = literal ++ behind ∧ IsDecimal literal := by
  simp only [scanNumber] at h
  split at h
  · cases h
  · rename_i hdigits
    obtain ⟨rfl, rfl⟩ := Prod.mk.inj (Option.some.inj h)
    obtain ⟨hf, hfraction⟩ := scanFraction_sound (text.dropWhile Char.isDigit)
    obtain ⟨he, hexponent⟩ := scanExponent_sound (scanFraction (text.dropWhile Char.isDigit)).2
    refine ⟨?_, _, _, rfl, ?_, hexponent⟩
    · rw [List.append_assoc, List.append_assoc, ← he, ← hf, List.takeWhile_append_dropWhile]
    · obtain hnone | ⟨f, hpoint, hdf⟩ := hfraction
      · rw [hnone] at hdigits ⊢
        rw [List.append_nil]
        exact .whole (digits_takeWhile _) fun h => hdigits ⟨h, by simp⟩
      · rw [hpoint] at hdigits ⊢
        refine .point (digits_takeWhile _) hdf ?_
        by_contra hempty
        rw [not_or, not_not, not_not] at hempty
        exact hdigits ⟨hempty.1, by simp [hempty.2]⟩

/-- The head of what stands behind a mantissa: an exponent or the end of the literal. -/
theorem head_exponent {exponent r : List Char} (h : IsExponent exponent) (hr : Follow r) :
    ∀ c ∈ (exponent ++ r).head?, c.isDigit = false ∧ c ≠ '.' := by
  cases h with
  | none =>
    cases r with
    | nil => exact fun _ hc => nomatch hc
    | cons c r =>
      rintro _ ⟨⟩
      exact ⟨(follow_cons_not hr).1, (follow_cons_not hr).2.1⟩
  | some he hsign hs hne =>
    rintro _ ⟨⟩
    obtain rfl | rfl := he <;> decide

theorem scanFraction_of_head {text : List Char} (h : ∀ c ∈ text.head?, c ≠ '.') :
    scanFraction text = ([], text) := by
  simp only [scanFraction]
  split
  · exact absurd rfl (h '.' rfl)
  · rfl

theorem scanNumber_complete {s r : List Char} (h : IsDecimal s) (hr : Follow r) :
    scanNumber (s ++ r) = some (s, r) := by
  obtain ⟨m, e, rfl, hm, he⟩ := h
  have hhead := head_exponent he hr
  have hexp := scanExponent_complete he hr
  cases hm with
  | whole hs hne =>
    obtain ⟨ht, hd⟩ := takeWhile_digits hs fun c hc => (hhead c hc).1
    have hfrac := scanFraction_of_head fun c hc => (hhead c hc).2
    simp only [scanNumber, List.append_assoc, ht, hd, hfrac, hexp]
    rw [if_neg fun h => hne h.1]
    rfl
  | @point s f hs hf hne =>
    obtain ⟨ht, hd⟩ := takeWhile_digits (r := '.' :: (f ++ (e ++ r))) hs
      (by rintro _ ⟨⟩; decide)
    obtain ⟨htf, hdf⟩ := takeWhile_digits hf fun c hc => (hhead c hc).1
    simp only [scanNumber, List.append_assoc, List.cons_append, ht, hd, scanFraction, htf, hdf,
      hexp]
    rw [if_neg]
    rintro ⟨rfl, hlen⟩
    obtain h | h := hne
    · exact h rfl
    · exact h (List.length_eq_zero_iff.1 (by simpa using hlen))

end FastEcu.Expression
