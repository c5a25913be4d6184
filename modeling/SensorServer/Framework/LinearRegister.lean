/-
  SensorServer.Framework.LinearRegister — the period of a linear register.

  A register over the two-element field is a vector that an additive map steps.  A polynomial,
  coded by the bits of a number, acts on vectors through the map; when one of degree `d` sends a
  vector to zero, the steps of that vector are computed in arithmetic modulo it, and so is the
  claim that a given number of steps is its period (`Certificate.minimalPeriod_eq`).  A register
  whose period is as long as there are vectors other than zero visits each of them once
  (`bijOn_of_full`).
-/
import Mathlib.Data.List.Prime
import Mathlib.Data.Nat.Bitwise
import Mathlib.Data.Nat.Prime.Basic
import Mathlib.Data.Set.Card
import Mathlib.Dynamics.PeriodicPts.Lemmas
import Mathlib.NumberTheory.LucasPrimality

namespace SensorServer.Framework.LinearRegister

open Function

/-! ## §1. Polynomials that act on vectors. -/

section Action

variable {V : Type*} [AddCommGroup V]

/-- The polynomial whose coefficients are the low `n` bits of `a`, at `T`, applied to `v`. -/
def act (T : V →+ V) : Nat → Nat → V → V
  | 0, _, _ => 0
  | n + 1, a, v => (if a.testBit 0 then v else 0) + act T n (a / 2) (T v)

variable {T : V →+ V}

theorem act_step (n a : Nat) (v : V) : T (act T n a v) = act T n a (T v) := by
  induction n generalizing a v with
  | zero => exact map_zero T
  | succ n ih =>
      rw [act, act, map_add, ih]
      split
      · rfl
      · rw [map_zero]

theorem act_iterate (n a k : Nat) (v : V) : T^[k] (act T n a v) = act T n a (T^[k] v) := by
  induction k generalizing v with
  | zero => rfl
  | succ k ih => rw [iterate_succ_apply, iterate_succ_apply, act_step, ih]

theorem act_zero (n : Nat) (v : V) : act T n 0 v = 0 := by
  induction n generalizing v with
  | zero => rfl
  | succ n ih =>
      show (if (0 : Nat).testBit 0 then v else 0) + act T n (0 / 2) (T v) = 0
      rw [Nat.zero_testBit, if_neg Bool.false_ne_true, Nat.zero_div, ih, add_zero]

/-- The polynomial one changes nothing. -/
theorem act_one {n : Nat} (hn : 0 < n) (v : V) : act T n 1 v = v := by
  obtain ⟨n, rfl⟩ : ∃ m, n = m + 1 := ⟨n - 1, by omega⟩
  show (if (1 : Nat).testBit 0 then v else 0) + act T n (1 / 2) (T v) = v
  rw [show (1 : Nat) / 2 = 0 from rfl, act_zero, add_zero]
  rfl

/-- The coefficients above the highest one are not read. -/
theorem act_width {n a : Nat} (ha : a < 2 ^ n) (v : V) : act T (n + 1) a v = act T n a v := by
  induction n generalizing a v with
  | zero =>
      have hzero : a = 0 := by omega
      subst hzero
      rw [act_zero, act_zero]
  | succ n ih =>
      have hhalf : a / 2 < 2 ^ n := by omega
      rw [act, ih hhalf, act]

/-- Doubling the code multiplies by the indeterminate: one step more. -/
theorem act_double (n a : Nat) (v : V) : act T (n + 1) (2 * a) v = T (act T n a v) := by
  have hbit : (2 * a).testBit 0 = false := by simp
  have hhalf : 2 * a / 2 = a := by omega
  rw [act, hbit, if_neg Bool.false_ne_true, zero_add, hhalf, act_step]

/-- Over the two-element field, the polynomials add by exclusive or. -/
theorem act_xor (htwo : ∀ v : V, v + v = 0) (n a b : Nat) (v : V) :
    act T n (a ^^^ b) v = act T n a v + act T n b v := by
  induction n generalizing a b v with
  | zero => exact (add_zero 0).symm
  | succ n ih =>
      have hhalf : (a ^^^ b) / 2 = a / 2 ^^^ b / 2 := Nat.xor_div_two
      have hbit : (if (a ^^^ b).testBit 0 then v else 0)
          = (if a.testBit 0 then v else 0) + (if b.testBit 0 then v else 0) := by
        rw [Nat.testBit_xor]
        cases a.testBit 0 <;> cases b.testBit 0 <;> simp [htwo]
      rw [act, act, act, hhalf, ih, hbit]
      exact add_add_add_comm _ _ _ _

end Action

/-! ## §2. Arithmetic modulo a polynomial. -/

/-- A polynomial of a positive degree, coded with its leading bit. -/
structure Modulus where
  degree : Nat
  code : Nat
  degree_pos : 0 < degree
  code_lt : code < 2 ^ (degree + 1)
  monic : code.testBit degree = true

namespace Modulus

/-- Times the indeterminate, reduced: the bit that leaves says whether the modulus is taken
away. -/
def mulX (m : Modulus) (a : Nat) : Nat := (2 * a) ^^^ (m.code * ((2 * a) >>> m.degree))

/-- `acc + a * b`, reduced, for the low `n` bits of `b`. -/
def mulAdd (m : Modulus) : Nat → Nat → Nat → Nat → Nat
  | 0, acc, _, _ => acc
  | n + 1, acc, a, b => mulAdd m n (acc ^^^ (a * (b % 2))) (m.mulX a) (b / 2)

/-- The square, reduced. -/
def square (m : Modulus) (a : Nat) : Nat := m.mulAdd m.degree 0 a a

/-- The indeterminate to the power `e`, reduced, for an `e` of `n` bits. -/
def powX (m : Modulus) : Nat → Nat → Nat
  | 0, _ => 1
  | n + 1, e =>
      if e % 2 = 1 then m.mulX (m.square (powX m n (e / 2))) else m.square (powX m n (e / 2))

variable {m : Modulus}

/-- The two cases of `mulX`. -/
theorem mulX_cases {a : Nat} (ha : a < 2 ^ m.degree) :
    (2 * a < 2 ^ m.degree ∧ m.mulX a = 2 * a)
      ∨ ((2 * a).testBit m.degree = true ∧ m.mulX a = (2 * a) ^^^ m.code) := by
  have hshift : (2 * a) >>> m.degree = 2 * a / 2 ^ m.degree := Nat.shiftRight_eq_div_pow _ _
  by_cases hlow : 2 * a < 2 ^ m.degree
  · left
    refine ⟨hlow, ?_⟩
    rw [mulX, hshift, Nat.div_eq_of_lt hlow, mul_zero, Nat.xor_zero]
  · right
    have hone : 2 * a / 2 ^ m.degree = 1 := by
      apply Nat.div_eq_of_lt_le <;> omega
    constructor
    · rw [Nat.testBit_eq_decide_div_mod_eq, hone]
      rfl
    · rw [mulX, hshift, hone, mul_one]

theorem mulX_lt {a : Nat} (ha : a < 2 ^ m.degree) : m.mulX a < 2 ^ m.degree := by
  rcases mulX_cases ha with ⟨hlow, heq⟩ | ⟨hbit, heq⟩
  · rw [heq]
    exact hlow
  · rw [heq]
    apply Nat.lt_pow_two_of_testBit
    intro i hi
    rw [Nat.testBit_xor]
    rcases Nat.eq_or_lt_of_le hi with rfl | hlt
    · rw [hbit, m.monic]
      rfl
    · -- above the degree, neither the double nor the modulus has a bit
      have hcode := m.code_lt
      have htwice : 2 * a < 2 ^ (m.degree + 1) := by omega
      have hle : 2 ^ (m.degree + 1) ≤ 2 ^ i := Nat.pow_le_pow_right (by omega) hlt
      rw [Nat.testBit_lt_two_pow (by omega), Nat.testBit_lt_two_pow (by omega)]
      rfl

/-- A number times a bit is below whatever it is below. -/
theorem mul_bit_lt {a k : Nat} (ha : a < k) (b : Nat) : a * (b % 2) < k := by
  rcases Nat.mod_two_eq_zero_or_one b with h | h
  · rw [h]
    omega
  · rw [h]
    omega

theorem mulAdd_lt {n acc a b : Nat} (hacc : acc < 2 ^ m.degree) (ha : a < 2 ^ m.degree) :
    m.mulAdd n acc a b < 2 ^ m.degree := by
  induction n generalizing acc a b with
  | zero => exact hacc
  | succ n ih =>
      have hnext : acc ^^^ (a * (b % 2)) < 2 ^ m.degree :=
        Nat.xor_lt_two_pow hacc (mul_bit_lt ha b)
      exact ih hnext (mulX_lt ha)

theorem square_lt {a : Nat} (ha : a < 2 ^ m.degree) : m.square a < 2 ^ m.degree :=
  mulAdd_lt (Nat.two_pow_pos _) ha

theorem powX_lt (n e : Nat) : m.powX n e < 2 ^ m.degree := by
  induction n generalizing e with
  | zero => exact Nat.one_lt_two_pow (by have := m.degree_pos; omega)
  | succ n ih =>
      unfold powX
      split
      · exact mulX_lt (square_lt (ih _))
      · exact square_lt (ih _)

end Modulus

/-! ## §3. The steps of a vector a polynomial sends to zero. -/

section Annihilated

variable {V : Type*} [AddCommGroup V] {T : V →+ V} {m : Modulus}

/-- The modulus, at `T`, sends `v` to zero. -/
def Annihilates (m : Modulus) (T : V →+ V) (v : V) : Prop :=
  act T (m.degree + 1) m.code v = 0

theorem Annihilates.iterate {v : V} (h : Annihilates m T v) (k : Nat) :
    Annihilates m T (T^[k] v) := by
  unfold Annihilates
  rw [← act_iterate, h]
  exact iterate_map_zero T k

variable (htwo : ∀ v : V, v + v = 0)
include htwo

theorem act_mulX {a : Nat} {v : V} (h : Annihilates m T v) (ha : a < 2 ^ m.degree) :
    act T m.degree (m.mulX a) v = T (act T m.degree a v) := by
  rw [← act_width (Modulus.mulX_lt ha), ← act_double]
  rcases Modulus.mulX_cases ha with ⟨-, heq⟩ | ⟨-, heq⟩
  · rw [heq]
  · rw [heq, act_xor htwo, h, add_zero]

theorem act_mulAdd {n acc a b : Nat} {v : V} (h : Annihilates m T v)
    (ha : a < 2 ^ m.degree) :
    act T m.degree (m.mulAdd n acc a b) v
      = act T m.degree acc v + act T n b (act T m.degree a v) := by
  induction n generalizing acc a b with
  | zero => exact (add_zero _).symm
  | succ n ih =>
      have hbit : act T m.degree (a * (b % 2)) v
          = if b.testBit 0 then act T m.degree a v else 0 := by
        rw [Nat.testBit_zero]
        rcases Nat.mod_two_eq_zero_or_one b with hb | hb
        · rw [hb, mul_zero, act_zero]
          rfl
        · rw [hb, mul_one]
          rfl
      rw [Modulus.mulAdd, ih (Modulus.mulX_lt ha), act_mulX htwo h ha, act_xor htwo, hbit, act,
        add_assoc]

theorem act_square {a : Nat} {v : V} (h : Annihilates m T v) (ha : a < 2 ^ m.degree) :
    act T m.degree (m.square a) v = act T m.degree a (act T m.degree a v) := by
  unfold Modulus.square
  rw [act_mulAdd htwo h ha, act_zero, zero_add]

/-- **The steps are powers of the indeterminate**, reduced. -/
theorem act_powX {n e : Nat} (he : e < 2 ^ n) {v : V} (h : Annihilates m T v) :
    act T m.degree (m.powX n e) v = T^[e] v := by
  induction n generalizing e v with
  | zero =>
      have hzero : e = 0 := by omega
      subst hzero
      exact act_one m.degree_pos v
  | succ n ih =>
      have hhalf : e / 2 < 2 ^ n := by omega
      have hsquare : act T m.degree (m.square (m.powX n (e / 2))) v = T^[e / 2 + e / 2] v := by
        rw [act_square htwo h (Modulus.powX_lt _ _), ih hhalf h, ih hhalf (h.iterate _),
          iterate_add_apply]
      unfold Modulus.powX
      by_cases hodd : e % 2 = 1
      · rw [if_pos hodd, act_mulX htwo h (Modulus.square_lt (Modulus.powX_lt _ _)), hsquare,
          ← iterate_succ_apply' T]
        congr 1
        omega
      · rw [if_neg hodd, hsquare]
        congr 1
        omega

end Annihilated

/-! ## §4. Certificates of a period. -/

/-- A prime that divides a product of primes is one of them. -/
theorem mem_of_prime_dvd_prod {q : Nat} {qs : List Nat} (hprime : ∀ r ∈ qs, r.Prime)
    (hq : q.Prime) (hdvd : q ∣ qs.prod) : q ∈ qs := by
  obtain ⟨r, hr, hqr⟩ := (Prime.dvd_prod_iff hq.prime).mp hdvd
  rwa [(Nat.prime_dvd_prime_iff_eq hq (hprime r hr)).mp hqr]

/-- Lucas's test: the primes that divide `p - 1`, and an element they show to be primitive. -/
theorem prime_of_lucas {p : Nat} (a : ZMod p) {qs : List Nat} (hprime : ∀ q ∈ qs, q.Prime)
    (hprod : qs.prod = p - 1) (hone : a ^ (p - 1) = 1)
    (hearlier : ∀ q ∈ qs, a ^ ((p - 1) / q) ≠ 1) : p.Prime := by
  apply lucas_primality p a hone
  intro q hq hdvd
  rw [← hprod] at hdvd
  exact hearlier q (mem_of_prime_dvd_prod hprime hq hdvd)

/-- A number of steps that returns, and that returns for no prime divided out of it, is the
period. -/
theorem minimalPeriod_eq_prod {α : Type*} {f : α → α} {x : α} {qs : List Nat}
    (hprime : ∀ q ∈ qs, q.Prime) (hreturns : f^[qs.prod] x = x)
    (hearlier : ∀ q ∈ qs, f^[qs.prod / q] x ≠ x) : minimalPeriod f x = qs.prod := by
  have hdvd : minimalPeriod f x ∣ qs.prod := IsPeriodicPt.minimalPeriod_dvd hreturns
  obtain ⟨k, hk⟩ := hdvd
  by_cases hone : k = 1
  · rw [hk, hone, mul_one]
  · obtain ⟨q, hq, hqk⟩ := Nat.exists_prime_and_dvd hone
    have hmem : q ∈ qs := mem_of_prime_dvd_prod hprime hq (hk ▸ Dvd.dvd.mul_left hqk _)
    obtain ⟨j, rfl⟩ := hqk
    have hquot : qs.prod / q = minimalPeriod f x * j := by
      rw [hk, mul_left_comm, Nat.mul_div_cancel_left _ hq.pos]
    have hperiodic : IsPeriodicPt f (qs.prod / q) x := by
      rw [hquot]
      exact (isPeriodicPt_minimalPeriod f x).mul_const j
    exact absurd hperiodic (hearlier q hmem)

/-- What shows that the product of `primes` is the period of `v`. -/
structure Certificate {V : Type*} [AddCommGroup V] (T : V →+ V) (v : V) where
  modulus : Modulus
  bits : Nat
  primes : List Nat
  prime : ∀ q ∈ primes, q.Prime
  fits : primes.prod < 2 ^ bits
  annihilates : Annihilates modulus T v
  returns : modulus.powX bits primes.prod = 1
  earlier : ∀ q ∈ primes, act T modulus.degree (modulus.powX bits (primes.prod / q)) v ≠ v

theorem Certificate.minimalPeriod_eq {V : Type*} [AddCommGroup V] {T : V →+ V} {v : V}
    (htwo : ∀ w : V, w + w = 0) (c : Certificate T v) :
    minimalPeriod T v = c.primes.prod := by
  apply minimalPeriod_eq_prod c.prime
  · rw [← act_powX htwo c.fits c.annihilates, c.returns]
    exact act_one c.modulus.degree_pos v
  · intro q hq
    have hfits : c.primes.prod / q < 2 ^ c.bits :=
      lt_of_le_of_lt (Nat.div_le_self _ _) c.fits
    rw [← act_powX htwo hfits c.annihilates]
    exact c.earlier q hq

/-- Two counts of steps lead to the same place exactly if they differ by whole periods. -/
theorem iterate_eq_iff_mod {α : Type*} {f : α → α} {x : α} (hx : 0 < minimalPeriod f x)
    (m n : Nat) :
    f^[m] x = f^[n] x ↔ m % minimalPeriod f x = n % minimalPeriod f x := by
  rw [← iterate_mod_minimalPeriod_eq (n := m), ← iterate_mod_minimalPeriod_eq (n := n)]
  exact iterate_eq_iterate_iff_of_lt_minimalPeriod (Nat.mod_lt _ hx) (Nat.mod_lt _ hx)

/-! ## §5. Registers whose period is as long as possible. -/

section Full

variable {V : Type*} [AddCommGroup V] {T : V →+ V} {v : V}

/-- A vector that comes back is never stepped to zero. -/
theorem iterate_ne_zero (hv : v ≠ 0) (hback : v ∈ periodicPts T) (n : Nat) : T^[n] v ≠ 0 := by
  intro hzero
  obtain ⟨p, hp, hperiodic⟩ := hback
  have hle : n ≤ p * n := Nat.le_mul_of_pos_left n hp
  have hsplit : p * n = (p * n - n) + n := by omega
  have hgone : T^[p * n] v = 0 := by
    rw [hsplit, iterate_add_apply, hzero]
    exact iterate_map_zero T _
  exact hv ((hperiodic.mul_const n).symm.trans hgone)

variable [Finite V] (hv : v ≠ 0) (hfull : minimalPeriod T v = Nat.card V - 1)
include hv hfull

theorem mem_periodicPts_of_full : v ∈ periodicPts T := by
  have hcard : 1 < Nat.card V := Finite.one_lt_card_iff_nontrivial.mpr ⟨v, 0, hv⟩
  apply minimalPeriod_pos_iff_mem_periodicPts.mp
  omega

/-- **The whole orbit**: the steps of one vector are all vectors other than zero, each once. -/
theorem bijOn_of_full :
    Set.BijOn (fun n => T^[n] v) (Set.Iio (Nat.card V - 1)) {w | w ≠ 0} := by
  have hmaps : Set.MapsTo (fun n => T^[n] v) (Set.Iio (Nat.card V - 1)) {w | w ≠ 0} :=
    fun n _ => iterate_ne_zero hv (mem_periodicPts_of_full hv hfull) n
  have hinj : Set.InjOn (fun n => T^[n] v) (Set.Iio (Nat.card V - 1)) := by
    rw [← hfull]
    exact iterate_injOn_Iio_minimalPeriod
  have hcard : ({w | w ≠ 0} : Set V).ncard = Nat.card V - 1 := by
    have hcompl : ({w | w ≠ 0} : Set V) = {0}ᶜ := rfl
    rw [hcompl, Set.ncard_compl, Set.ncard_singleton]
  have himage : (fun n => T^[n] v) '' Set.Iio (Nat.card V - 1) = {w | w ≠ 0} := by
    apply Set.eq_of_subset_of_ncard_le hmaps.image_subset _ (Set.toFinite _)
    rw [hinj.ncard_image, hcard, Set.ncard_eq_toFinset_card']
    simp
  exact ⟨hmaps, hinj, himage.ge⟩

/-- Every other vector has the same period. -/
theorem minimalPeriod_of_full {w : V} (hw : w ≠ 0) : minimalPeriod T w = Nat.card V - 1 := by
  obtain ⟨n, -, rfl⟩ := (bijOn_of_full hv hfull).surjOn hw
  rw [← hfull]
  exact minimalPeriod_apply_iterate (mem_periodicPts_of_full hv hfull) n

/-- Stepping loses nothing. -/
theorem bijective_of_full : Bijective T := by
  have hcard : 1 < Nat.card V := Finite.one_lt_card_iff_nontrivial.mpr ⟨v, 0, hv⟩
  have hround : ∀ w, T^[Nat.card V - 2] (T w) = w := by
    intro w
    rw [← iterate_succ_apply, show (Nat.card V - 2).succ = Nat.card V - 1 by omega]
    by_cases hw : w = 0
    · subst hw
      exact iterate_map_zero T _
    · rw [← minimalPeriod_of_full hv hfull hw]
      exact iterate_minimalPeriod
  exact Finite.injective_iff_bijective.mp (LeftInverse.injective hround)

/-- In a whole period, a property is met as often as there are vectors that have it. -/
theorem ncard_of_full (P : V → Prop) :
    {n | n < Nat.card V - 1 ∧ P (T^[n] v)}.ncard = {w | w ≠ 0 ∧ P w}.ncard := by
  have hbij := bijOn_of_full hv hfull
  have himage : (fun n => T^[n] v) '' {n | n < Nat.card V - 1 ∧ P (T^[n] v)}
      = {w | w ≠ 0 ∧ P w} := by
    ext w
    constructor
    · rintro ⟨n, ⟨hn, hP⟩, rfl⟩
      exact ⟨hbij.mapsTo hn, hP⟩
    · rintro ⟨hw, hP⟩
      obtain ⟨n, hn, rfl⟩ := hbij.surjOn hw
      exact ⟨n, ⟨hn, hP⟩, rfl⟩
  have hinj : Set.InjOn (fun n => T^[n] v) {n | n < Nat.card V - 1 ∧ P (T^[n] v)} :=
    hbij.injOn.mono fun n hn => hn.1
  rw [← himage, hinj.ncard_image]

end Full

end SensorServer.Framework.LinearRegister
