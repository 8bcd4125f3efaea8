import FastEcu.Bytes.Words
import FastEcu.Data.Rounds
import Mathlib.Tactic.IntervalCases

/-!
# The vendor challenge of the Colt

A ROM with the vendor extension sends a transformed secret as its seed and waits for the secret
(`src/algorithms/protocol/colt/mitsu_colt_can_vendor_ext_protocol.cpp`).  The transform is four rounds of a
bit permutation, an addition and a swap of nibbles; the tester undoes them.

* `permuteBits`, `swapNibbles` : the steps of a round.
* `challengeTransform`, `challengeInverseTransform` : what the ECU and the tester compute.
* `challenge_bijective` : each undoes the other, on every word.
* `challengeInverseTransform_wire` : the key that answers the seed on the wire is the secret.
-/

namespace FastEcu.ColtChallenge

/-! ### The transforms -/

/-- `PermuteBits`. -/
def permuteBits (x : UInt32) : UInt32 :=
  ((x &&& 0x15555555) <<< 3) ||| ((x &&& 0xaaaaaaa8) >>> 3) ||| ((x &&& 0x40000000) >>> 29) |||
    ((x &&& 0x00000002) <<< 29)

/-- `SwapNibbles`. -/
def swapNibbles (x : UInt32) : UInt32 := ((x &&& 0x0f0f0f0f) <<< 4) ||| ((x &&& 0xf0f0f0f0) >>> 4)

/-- `kRoundConstants`. -/
def roundConstants : Vector UInt32 4 := #v[0x45637554, 0x656b2052, 0x4f4d2050, 0x61746368]

/-- The body of the loop of `ChallengeTransform`. -/
def challengeRound (i : Fin 4) (x : UInt32) : UInt32 := swapNibbles (permuteBits x + roundConstants.get i)

/-- The body of the loop of `ChallengeInverseTransform`. -/
def challengeInverseRound (i : Fin 4) (x : UInt32) : UInt32 :=
  permuteBits (swapNibbles x - roundConstants.get i)

/-- `ChallengeTransform`: the rounds `0` to `3`. -/
def challengeTransform (secret : UInt32) : UInt32 := rounds challengeRound [0, 1, 2, 3] secret

/-- `ChallengeInverseTransform`: the inverse rounds `3` to `0`. -/
def challengeInverseTransform (seed : UInt32) : UInt32 := rounds challengeInverseRound [3, 2, 1, 0] seed

/-! ### On the wire -/

/-- `BytesToSeed`, of four bytes. -/
def bytesToSeed (seedBytes : Bytes) : UInt32 := readU32Be seedBytes 0

/-- `KeyBytes`. -/
def keyBytes (key : UInt32) : Bytes := beBytes key

/-- `BuildChallengeSeedRequest`. -/
def buildChallengeSeedRequest : Bytes := [0x23, 0x27, 0x41]

/-- `BuildChallengeKey`. -/
def buildChallengeKey (key : UInt32) : Bytes := [0x23, 0x27, 0x42] ++ beBytes key

/-! ### The steps of a round -/

/-- The bit that `PermuteBits` puts at `i`: the even bits below 30 change with those three above them,
and the two bits that are left, 1 and 30, with each other. -/
def permuteSource (i : ℕ) : ℕ :=
  if i = 1 then 30 else if i = 30 then 1 else if i % 2 = 0 then i + 3 else i - 3

/-- The bit that `SwapNibbles` puts at `i`. -/
def nibbleSource (i : ℕ) : ℕ := if i % 8 < 4 then i + 4 else i - 4

theorem movesBits_permuteBits : MovesBits (fun x => (permuteBits ⟨x⟩).toBitVec) permuteSource := by
  intro x i hi
  simp only [permuteBits]
  interval_cases i <;> simp [permuteSource]

theorem movesBits_swapNibbles : MovesBits (fun x => (swapNibbles ⟨x⟩).toBitVec) nibbleSource := by
  intro x i hi
  simp only [swapNibbles]
  interval_cases i <;> simp [nibbleSource]

/-- A step on words undoes itself as soon as it does so on their bits. -/
theorem involutive_of_movesBits {step : UInt32 → UInt32} {source : ℕ → ℕ}
    (h : MovesBits (fun x => (step ⟨x⟩).toBitVec) source)
    (hsource : ∀ i < 32, source i < 32 ∧ source (source i) = i) : Function.Involutive step := by
  intro x
  apply UInt32.toBitVec_inj.1
  exact h.involutive hsource x.toBitVec

theorem permuteBits_involutive : Function.Involutive permuteBits :=
  involutive_of_movesBits movesBits_permuteBits (by decide)

theorem swapNibbles_involutive : Function.Involutive swapNibbles :=
  involutive_of_movesBits movesBits_swapNibbles (by decide)

/-! ### The rounds -/

/-- The inverse round undoes the round: the addition wraps, and so does the subtraction. -/
theorem leftInverse_challengeRound (i : Fin 4) :
    Function.LeftInverse (challengeInverseRound i) (challengeRound i) := by
  intro x
  rw [challengeRound, challengeInverseRound, swapNibbles_involutive, UInt32.add_sub_cancel,
    permuteBits_involutive]

/-- And the round undoes the inverse round. -/
theorem rightInverse_challengeRound (i : Fin 4) :
    Function.LeftInverse (challengeRound i) (challengeInverseRound i) := by
  intro x
  rw [challengeRound, challengeInverseRound, permuteBits_involutive, UInt32.sub_add_cancel,
    swapNibbles_involutive]

theorem leftInverse_challengeTransform :
    Function.LeftInverse challengeInverseTransform challengeTransform :=
  rounds_reverse leftInverse_challengeRound [0, 1, 2, 3]

theorem rightInverse_challengeTransform :
    Function.RightInverse challengeInverseTransform challengeTransform :=
  rounds_reverse rightInverse_challengeRound [3, 2, 1, 0]

/-- **The challenge transform is a bijection on words**, and the inverse that the tester computes is its
inverse: each undoes the other. -/
theorem challenge_bijective :
    (∀ secret, challengeInverseTransform (challengeTransform secret) = secret) ∧
    (∀ seed, challengeTransform (challengeInverseTransform seed) = seed) ∧
    Function.Bijective challengeTransform :=
  ⟨leftInverse_challengeTransform, rightInverse_challengeTransform,
    leftInverse_challengeTransform.injective, rightInverse_challengeTransform.surjective⟩

example : challengeTransform 0xDEADBEEF = 0xA5654127 := by decide

/-- **The answer to a challenge is the secret**: what the ECU sends is its transformed secret in four
bytes, and the key in the request of the tester is the secret again. -/
theorem challengeInverseTransform_wire (secret : UInt32) :
    buildChallengeKey (challengeInverseTransform (bytesToSeed (keyBytes (challengeTransform secret)))) =
      buildChallengeKey secret := by
  have hseed := readU32Be_beBytes_append (challengeTransform secret) []
  rw [List.append_nil] at hseed
  rw [bytesToSeed, keyBytes, hseed, leftInverse_challengeTransform]

end FastEcu.ColtChallenge
