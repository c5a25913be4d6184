/-
  SensorServer.Uuid.Xorshift128plus — the generator behind the identifiers.

  The seed is two words, which a draw shifts and adds exclusively; the number drawn is the sum
  of the two words it leaves.  As a vector over the two-element field, every seed other than
  zero has the period 2^128 - 1 (`minimalPeriod_advance`): the generator goes through all of
  them before it meets one again, and draws every number equally often.
-/
import SensorServer.Framework.LinearRegister
import Mathlib.Data.BitVec
import Mathlib.Data.FinEnum
import Mathlib.Tactic.NormNum.Prime
import Mathlib.Tactic.ReduceModChar

namespace SensorServer.Uuid

open SensorServer.Framework
open SensorServer.Framework.LinearRegister
open Function

/-! ## §1. The generator. -/

/-- `static uint64_t seed[2]`. -/
@[ext]
structure Seed where
  word0 : BitVec 64
  word1 : BitVec 64
  deriving Repr, DecidableEq

/-- `xorshift128plus(seed)`: the number it returns, and the seed it leaves. -/
def xorshift128plus (seed : Seed) : BitVec 64 × Seed :=
  let s1 := seed.word0
  let s0 := seed.word1
  let s1 := s1 ^^^ (s1 <<< 23)
  let next := s1 ^^^ s0 ^^^ (s1 >>> 18) ^^^ (s0 >>> 5)
  (next + s0, ⟨s0, next⟩)

/-- The number one draw returns. -/
def draw (seed : Seed) : BitVec 64 := (xorshift128plus seed).1

/-- The seed one draw leaves. -/
def advance (seed : Seed) : Seed := (xorshift128plus seed).2

/-! ## §2. Seeds as vectors. -/

instance : Zero Seed := ⟨⟨0, 0⟩⟩

instance : Add Seed := ⟨fun s t => ⟨s.word0 ^^^ t.word0, s.word1 ^^^ t.word1⟩⟩

instance : Neg Seed := ⟨fun s => s⟩

@[simp] theorem zero_word0 : (0 : Seed).word0 = 0 := rfl
@[simp] theorem zero_word1 : (0 : Seed).word1 = 0 := rfl
@[simp] theorem add_word0 (s t : Seed) : (s + t).word0 = s.word0 ^^^ t.word0 := rfl
@[simp] theorem add_word1 (s t : Seed) : (s + t).word1 = s.word1 ^^^ t.word1 := rfl

theorem add_self (s : Seed) : s + s = 0 := by
  apply Seed.ext
  · exact BitVec.xor_self
  · exact BitVec.xor_self

instance : AddCommGroup Seed where
  add_assoc r s t := Seed.ext (BitVec.xor_assoc _ _ _) (BitVec.xor_assoc _ _ _)
  add_comm s t := Seed.ext (BitVec.xor_comm _ _) (BitVec.xor_comm _ _)
  zero_add s := Seed.ext BitVec.zero_xor BitVec.zero_xor
  add_zero s := Seed.ext BitVec.xor_zero BitVec.xor_zero
  neg_add_cancel s := add_self s
  nsmul := nsmulRec
  zsmul := zsmulRec

theorem xor_xor_xor_comm (a b c d : BitVec 64) :
    (a ^^^ b) ^^^ (c ^^^ d) = (a ^^^ c) ^^^ (b ^^^ d) := by
  ac_rfl

theorem advance_add (s t : Seed) : advance (s + t) = advance s + advance t := by
  have hleft : ∀ a b : BitVec 64,
      (a ^^^ b) ^^^ ((a ^^^ b) <<< 23) = (a ^^^ (a <<< 23)) ^^^ (b ^^^ (b <<< 23)) := by
    intro a b
    rw [BitVec.shiftLeft_xor_distrib, xor_xor_xor_comm]
  have hright : ∀ a b c d : BitVec 64,
      (a ^^^ b) ^^^ (c ^^^ d) ^^^ ((a ^^^ b) >>> 18) ^^^ ((c ^^^ d) >>> 5)
        = (a ^^^ c ^^^ (a >>> 18) ^^^ (c >>> 5)) ^^^ (b ^^^ d ^^^ (b >>> 18) ^^^ (d >>> 5)) := by
    intro a b c d
    rw [BitVec.ushiftRight_xor_distrib, BitVec.ushiftRight_xor_distrib, xor_xor_xor_comm a,
      xor_xor_xor_comm (a ^^^ c), xor_xor_xor_comm (a ^^^ c ^^^ _)]
  apply Seed.ext
  · rfl
  · simp only [advance, xorshift128plus, add_word0, add_word1]
    rw [hleft, hright]

/-- The step of the seed, as a linear map. -/
def step : Seed →+ Seed where
  toFun := advance
  map_zero' := by decide
  map_add' := advance_add

/-- The words of a seed. -/
def wordsEquiv : Seed ≃ BitVec 64 × BitVec 64 where
  toFun s := (s.word0, s.word1)
  invFun w := ⟨w.1, w.2⟩
  left_inv _ := rfl
  right_inv _ := rfl

theorem card_word (w : Nat) : Nat.card (BitVec w) = 2 ^ w :=
  (Nat.card_congr BitVec.equivFin.toEquiv).trans (Nat.card_fin _)

instance : Finite Seed := Finite.of_equiv _ wordsEquiv.symm

theorem card_seed : Nat.card Seed = 2 ^ 128 := by
  rw [Nat.card_congr wordsEquiv, Nat.card_prod, card_word]
  rfl

/-! ## §3. The period. -/

/-- What the step sends to zero: the characteristic polynomial of the generator. -/
def characteristic : Modulus where
  degree := 128
  code := 0x12844c5d42caf7db0024f06fae9e61daf
  degree_pos := by decide
  code_lt := by decide
  monic := by decide

/-- The prime factors of 2^128 - 1. -/
def periodPrimes : List Nat :=
  [3, 5, 17, 257, 641, 65537, 274177, 6700417, 67280421310721]

theorem periodPrimes_prod : periodPrimes.prod = 2 ^ 128 - 1 := by decide +kernel

/-- The prime factors of the number before the largest of them. -/
def lucasPrimes : List Nat := [2, 2, 2, 2, 2, 2, 2, 2, 5, 47, 373, 2998279]

theorem prime_67280421310721 : Nat.Prime 67280421310721 := by
  have hprime : ∀ q ∈ lucasPrimes, q.Prime := by
    intro q hq
    fin_cases hq <;> norm_num
  have hprod : lucasPrimes.prod = 67280421310721 - 1 := by decide +kernel
  apply prime_of_lucas (3 : ZMod 67280421310721) hprime hprod
  · reduce_mod_char
  · intro q hq
    fin_cases hq <;> norm_num <;> reduce_mod_char <;> decide

theorem periodPrimes_prime : ∀ q ∈ periodPrimes, q.Prime := by
  simp only [periodPrimes, List.forall_mem_cons, List.not_mem_nil, false_implies, implies_true,
    and_true]
  refine ⟨?_, ?_, ?_, ?_, ?_, ?_, ?_, ?_, prime_67280421310721⟩ <;> norm_num

/-- The seed the certificate is about. -/
def unitSeed : Seed := ⟨1, 0⟩

theorem unitSeed_ne_zero : unitSeed ≠ 0 := by decide

theorem unitSeed_annihilated : Annihilates characteristic step unitSeed := by
  unfold Annihilates
  decide +kernel

theorem unitSeed_returns : characteristic.powX 128 (2 ^ 128 - 1) = 1 := by decide +kernel

theorem unitSeed_earlier : ∀ q ∈ periodPrimes,
    act step 128 (characteristic.powX 128 ((2 ^ 128 - 1) / q)) unitSeed ≠ unitSeed := by
  decide +kernel

/-- The seed `unitSeed` comes back after 2^128 - 1 draws, and not before. -/
def certificate : Certificate step unitSeed where
  modulus := characteristic
  bits := 128
  primes := periodPrimes
  prime := periodPrimes_prime
  fits := by
    rw [periodPrimes_prod]
    decide
  annihilates := unitSeed_annihilated
  returns := by
    rw [periodPrimes_prod]
    exact unitSeed_returns
  earlier := by
    rw [periodPrimes_prod]
    exact unitSeed_earlier

theorem minimalPeriod_unitSeed : minimalPeriod step unitSeed = Nat.card Seed - 1 := by
  rw [certificate.minimalPeriod_eq add_self, card_seed]
  exact periodPrimes_prod

/-- Every seed other than zero has the longest period there is. -/
theorem minimalPeriod_advance {seed : Seed} (hseed : seed ≠ 0) :
    minimalPeriod advance seed = 2 ^ 128 - 1 := by
  have hfull := minimalPeriod_of_full unitSeed_ne_zero minimalPeriod_unitSeed hseed
  rwa [card_seed] at hfull

theorem advance_bijective : Bijective advance :=
  bijective_of_full unitSeed_ne_zero minimalPeriod_unitSeed

/-- Two counts of draws lead to one seed exactly if they differ by whole periods. -/
theorem iterate_advance_eq_iff {seed : Seed} (hseed : seed ≠ 0) (m n : Nat) :
    advance^[m] seed = advance^[n] seed ↔ m % (2 ^ 128 - 1) = n % (2 ^ 128 - 1) := by
  have hperiod := minimalPeriod_advance hseed
  have hpos : 0 < minimalPeriod advance seed := by
    rw [hperiod]
    norm_num
  have hmod := iterate_eq_iff_mod (f := advance) (x := seed) hpos m n
  rwa [hperiod] at hmod

/-- **The period of the generator**: from any seed but zero it goes through every other such
seed, and comes back to one after 2^128 - 1 draws, never earlier. -/
theorem full_period {seed : Seed} (hseed : seed ≠ 0) :
    (∀ m n, advance^[m] seed = advance^[n] seed ↔ m % (2 ^ 128 - 1) = n % (2 ^ 128 - 1))
      ∧ ∀ other, other ≠ 0 → ∃ n < 2 ^ 128 - 1, advance^[n] seed = other := by
  constructor
  · exact iterate_advance_eq_iff hseed
  · intro other hother
    have hfull : minimalPeriod step seed = Nat.card Seed - 1 :=
      minimalPeriod_of_full unitSeed_ne_zero minimalPeriod_unitSeed hseed
    obtain ⟨n, hn, heq⟩ := (bijOn_of_full hseed hfull).surjOn hother
    rw [card_seed] at hn
    exact ⟨n, hn, heq⟩

theorem full_period_unit :
    unitSeed ≠ 0 ∧ (∃ n < 2 ^ 128 - 1, advance^[n] unitSeed = ⟨0, 1⟩)
      ∧ (advance^[2 ^ 128] unitSeed = advance^[1] unitSeed) := by
  have hfull := full_period unitSeed_ne_zero
  refine ⟨unitSeed_ne_zero, hfull.2 ⟨0, 1⟩ (by decide), ?_⟩
  exact (hfull.1 (2 ^ 128) 1).mpr (by norm_num)

/-! ## §4. The numbers drawn. -/

/-- As many seeds yield one number as another. -/
theorem ncard_draw (y : BitVec 64) : {seed | draw seed = y}.ncard = 2 ^ 64 := by
  have hpre : {seed | draw seed = y} = Set.preimage advance {s | s.word1 + s.word0 = y} := rfl
  have hsums : {s : Seed | s.word1 + s.word0 = y} = Set.range fun a => ⟨a, y - a⟩ := by
    ext s
    constructor
    · intro h
      exact ⟨s.word0, Seed.ext rfl (BitVec.eq_sub_iff_add_eq.mpr h).symm⟩
    · rintro ⟨a, rfl⟩
      exact BitVec.sub_add_cancel _ _
  have hinj : Injective fun a : BitVec 64 => (⟨a, y - a⟩ : Seed) :=
    fun a b h => congrArg Seed.word0 h
  rw [hpre, Set.ncard_preimage_of_injective_subset_range advance_bijective.injective
      (fun s _ => advance_bijective.surjective s),
    hsums, ← Set.image_univ, Set.ncard_image_of_injective _ hinj, Set.ncard_univ, card_word]

/-- **The draws are even**: in a whole period every number is drawn equally often, zero once
less. -/
theorem draws_even {seed : Seed} (hseed : seed ≠ 0) (y : BitVec 64) :
    {n | n < 2 ^ 128 - 1 ∧ draw (advance^[n] seed) = y}.ncard
      = if y = 0 then 2 ^ 64 - 1 else 2 ^ 64 := by
  have hfull : minimalPeriod step seed = Nat.card Seed - 1 :=
    minimalPeriod_of_full unitSeed_ne_zero minimalPeriod_unitSeed hseed
  -- the seeds of a period are all seeds but zero
  have hcount := ncard_of_full hseed hfull fun s => draw s = y
  rw [card_seed] at hcount
  have hzero : draw 0 = 0 := by decide
  refine hcount.trans ?_
  by_cases hy : y = 0
  · -- zero is what the zero seed would draw, which is not among them
    have hdiff : {s : Seed | s ≠ 0 ∧ draw s = y} = {s | draw s = y} \ {0} := by
      ext s
      exact and_comm
    have hmem : (0 : Seed) ∈ {s | draw s = y} := hzero.trans hy.symm
    rw [if_pos hy, hdiff, Set.ncard_sdiff_singleton_of_mem hmem, ncard_draw]
  · have hsame : {s : Seed | s ≠ 0 ∧ draw s = y} = {s | draw s = y} := by
      ext s
      constructor
      · exact And.right
      · intro h
        refine ⟨?_, h⟩
        rintro rfl
        exact hy (h.symm.trans hzero)
    rw [if_neg hy, hsame, ncard_draw]

theorem draws_even_unit :
    unitSeed ≠ 0
      ∧ {n | n < 2 ^ 128 - 1 ∧ draw (advance^[n] unitSeed) = 7}.ncard = 2 ^ 64 := by
  refine ⟨unitSeed_ne_zero, ?_⟩
  rw [draws_even unitSeed_ne_zero 7]
  exact if_neg (by decide)

end SensorServer.Uuid
