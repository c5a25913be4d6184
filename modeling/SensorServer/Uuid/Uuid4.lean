/-
  SensorServer.Uuid.Uuid4 — identifiers, from the seed to the text.

  `uuid4_init` reads the seed from `/dev/urandom`; `uuid4_generate` draws two words and writes
  them, nibble by nibble, into a template.  The formatting takes all pairs of words to exactly the
  strings with the layout of a version 4 identifier, and shows 122 of their 128 bits
  (`texts_exact`); which pairs two draws in a row can be is not said.  Whether the seed was read is
  not looked at: without it every identifier is the same (`unseeded_identifiers`).
-/
import SensorServer.Uuid.Xorshift128plus

namespace SensorServer.Uuid

open SensorServer.Framework.LinearRegister
open Function

/-! ## §1. The loop over the template. -/

/-- `static const char *template`. -/
def template : List Char := "xxxxxxxx-xxxx-4xxx-yxxx-xxxxxxxxxxxx".toList

/-- `static const char *chars`. -/
def chars : List Char := "0123456789abcdef".toList

/-- `chars[n]`. -/
def digit (n : Nat) : Char := chars.getD n '\x00'

/-- The loop from a place in the template on, and the terminator.  `n i` is the value that the
variable `n` gets where the index is `i`. -/
def build (n : Nat → Nat) : List Char → Nat → List Char
  | [], _ => ['\x00']
  | p :: ps, i =>
      if p = 'x' then digit (n i) :: build n ps (i + 1)
      else if p = 'y' then digit ((n i &&& 3) + 8) :: build n ps (i + 1)
      else p :: build n ps i

/-- The indices at which the loop writes, and how much of the value there it shows. -/
def shown : List Char → Nat → List (Nat × Nat)
  | [], _ => []
  | p :: ps, i =>
      if p = 'x' then (i, 16) :: shown ps (i + 1)
      else if p = 'y' then (i, 4) :: shown ps (i + 1)
      else shown ps i

/-- What may stand for a character of the template. -/
def Fits (p c : Char) : Prop :=
  if p = 'x' then c ∈ chars else if p = 'y' then c ∈ ['8', '9', 'a', 'b'] else c = p

/-- The layout of a version 4 identifier, as a string. -/
def IsV4 (dst : List Char) : Prop := ∃ text, dst = text ++ ['\x00'] ∧ List.Forall₂ Fits template text

theorem digit_inj : ∀ a < 16, ∀ b < 16, digit a = digit b → a = b := by decide

theorem digit_mem : ∀ a < 16, digit a ∈ chars := by decide

theorem digit_idxOf {c : Char} (hc : c ∈ chars) :
    chars.idxOf c < 16 ∧ digit (chars.idxOf c) = c := by
  have hlt : chars.idxOf c < chars.length := List.idxOf_lt_length_of_mem hc
  exact ⟨hlt, (List.getD_eq_getElem _ _ hlt).trans (List.getElem_idxOf hlt)⟩

theorem variant_idxOf : ∀ c ∈ ['8', '9', 'a', 'b'],
    chars.idxOf c < 16 ∧ digit ((chars.idxOf c &&& 3) + 8) = c := by
  simp only [List.forall_mem_cons, List.not_mem_nil, false_implies, implies_true, and_true]
  decide

theorem variant_mem : ∀ a < 16, digit ((a &&& 3) + 8) ∈ ['8', '9', 'a', 'b'] := by decide

theorem variant_inj :
    ∀ a < 16, ∀ b < 16, digit ((a &&& 3) + 8) = digit ((b &&& 3) + 8) ↔ a % 4 = b % 4 := by
  decide

section Build

variable {n n' : Nat → Nat}

/-- The loop reads the values from its index on. -/
theorem build_congr {ps : List Char} {i : Nat} (h : ∀ k, i ≤ k → n k = n' k) :
    build n ps i = build n' ps i := by
  induction ps generalizing i with
  | nil => rfl
  | cons p ps ih =>
      have hrest : build n ps (i + 1) = build n' ps (i + 1) := ih fun k hk => h k (by omega)
      unfold build
      rw [h i le_rfl, hrest, ih h]

/-- What the loop writes fits its template. -/
theorem build_fits (hn : ∀ k, n k < 16) (ps : List Char) (i : Nat) :
    ∃ text, build n ps i = text ++ ['\x00'] ∧ List.Forall₂ Fits ps text := by
  induction ps generalizing i with
  | nil => exact ⟨[], rfl, .nil⟩
  | cons p ps ih =>
      obtain ⟨next, hnext, hfits⟩ := ih (i + 1)
      obtain ⟨same, hsame, hfits'⟩ := ih i
      by_cases hx : p = 'x'
      · refine ⟨digit (n i) :: next, ?_, .cons ?_ hfits⟩
        · rw [build, if_pos hx, hnext]
          rfl
        · rw [Fits, if_pos hx]
          exact digit_mem _ (hn i)
      · by_cases hy : p = 'y'
        · refine ⟨digit ((n i &&& 3) + 8) :: next, ?_, .cons ?_ hfits⟩
          · rw [build, if_neg hx, if_pos hy, hnext]
            rfl
          · rw [Fits, if_neg hx, if_pos hy]
            exact variant_mem _ (hn i)
        · refine ⟨p :: same, ?_, .cons ?_ hfits'⟩
          · rw [build, if_neg hx, if_neg hy, hsame]
            rfl
          · rw [Fits, if_neg hx, if_neg hy]

/-- Every text that fits is written for some values. -/
theorem exists_build {ps text : List Char} (h : List.Forall₂ Fits ps text) (i : Nat) :
    ∃ n : Nat → Nat, (∀ k, n k < 16) ∧ build n ps i = text ++ ['\x00'] := by
  induction h generalizing i with
  | nil => exact ⟨fun _ => 0, fun _ => Nat.zero_lt_succ 15, rfl⟩
  | @cons p c ps text hc _ ih =>
      -- the value at `i` is free: the rest of the loop reads only later ones
      have hlater : ∀ a, a < 16 → ∃ n : Nat → Nat,
          (∀ k, n k < 16) ∧ n i = a ∧ build n ps (i + 1) = text ++ ['\x00'] := by
        intro a ha
        obtain ⟨n, hn, htext⟩ := ih (i + 1)
        refine ⟨Function.update n i a, ?_, update_self i a n, ?_⟩
        · intro k
          by_cases hk : k = i
          · subst hk
            rw [update_self]
            exact ha
          · rw [update_of_ne hk]
            exact hn k
        · rw [← htext]
          apply build_congr
          intro k hk
          exact update_of_ne (by omega) _ _
      by_cases hx : p = 'x'
      · rw [Fits, if_pos hx] at hc
        obtain ⟨ha, hdigit⟩ := digit_idxOf hc
        obtain ⟨n, hn, hni, htext⟩ := hlater _ ha
        refine ⟨n, hn, ?_⟩
        rw [build, if_pos hx, hni, hdigit, htext]
        rfl
      · by_cases hy : p = 'y'
        · rw [Fits, if_neg hx, if_pos hy] at hc
          obtain ⟨ha, hdigit⟩ := variant_idxOf c hc
          obtain ⟨n, hn, hni, htext⟩ := hlater _ ha
          refine ⟨n, hn, ?_⟩
          rw [build, if_neg hx, if_pos hy, hni, hdigit, htext]
          rfl
        · rw [Fits, if_neg hx, if_neg hy] at hc
          obtain ⟨n, hn, htext⟩ := ih i
          refine ⟨n, hn, ?_⟩
          rw [build, if_neg hx, if_neg hy, htext, hc]
          rfl

/-- Two texts are one exactly if the values agree as far as they are shown. -/
theorem build_eq_iff (hn : ∀ k, n k < 16) (hn' : ∀ k, n' k < 16) (ps : List Char) (i : Nat) :
    build n ps i = build n' ps i ↔ ∀ k ∈ shown ps i, n k.1 % k.2 = n' k.1 % k.2 := by
  induction ps generalizing i with
  | nil => exact ⟨fun _ k hk => absurd hk List.not_mem_nil, fun _ => rfl⟩
  | cons p ps ih =>
      by_cases hx : p = 'x'
      · have hdigit : digit (n i) = digit (n' i) ↔ n i % 16 = n' i % 16 := by
          rw [Nat.mod_eq_of_lt (hn i), Nat.mod_eq_of_lt (hn' i)]
          exact ⟨digit_inj _ (hn i) _ (hn' i), congrArg digit⟩
        rw [build, build, shown, if_pos hx, if_pos hx, if_pos hx, List.cons.injEq, ih,
          List.forall_mem_cons, hdigit]
      · by_cases hy : p = 'y'
        · rw [build, build, shown, if_neg hx, if_neg hx, if_neg hx, if_pos hy, if_pos hy, if_pos hy,
            List.cons.injEq, ih, List.forall_mem_cons, variant_inj _ (hn i) _ (hn' i)]
        · rw [build, build, shown, if_neg hx, if_neg hx, if_neg hx, if_neg hy, if_neg hy, if_neg hy,
            List.cons.injEq, ih]
          exact and_iff_right rfl

end Build

/-! ## §2. The words behind the text. -/

/-- Byte `j` of two words in memory, the lowest byte of a word first. -/
def Seed.b (s : Seed) (j : Nat) : BitVec 8 :=
  ((if j < 8 then s.word0 else s.word1) >>> (8 * (j % 8))).setWidth 8

/-- The value of `n` in the loop, where the union `s` holds two words and the index is `i`. -/
def nibble (s : Seed) (i : Nat) : Nat :=
  let n := (s.b (i >>> 1)).toNat
  if i &&& 1 ≠ 0 then n >>> 4 else n &&& 0xf

/-- `uuid4_generate(dst)`: what it writes to `dst`, and the seed it leaves. -/
def uuid4Generate (seed : Seed) : List Char × Seed :=
  let (word0, seed) := xorshift128plus seed
  let (word1, seed) := xorshift128plus seed
  (build (nibble ⟨word0, word1⟩) template 0, seed)

/-- The text of any two words. -/
def text (s : Seed) : List Char := build (nibble s) template 0

theorem uuid4Generate_eq (seed : Seed) :
    uuid4Generate seed = (text ⟨draw seed, draw (advance seed)⟩, advance^[2] seed) := rfl

section Words

variable {s s' : Seed}

theorem b_low (s : Seed) {j : Nat} (hj : j < 8) :
    (s.b j).toNat = s.word0.toNat / 256 ^ j % 256 := by
  have hpow : 2 ^ (8 * j) = 256 ^ j := Nat.pow_mul 2 8 j
  unfold Seed.b
  rw [if_pos hj, Nat.mod_eq_of_lt hj, BitVec.toNat_setWidth, BitVec.toNat_ushiftRight,
    Nat.shiftRight_eq_div_pow, hpow]

theorem b_high (s : Seed) {j : Nat} (hj : j < 8) :
    (s.b (8 + j)).toNat = s.word1.toNat / 256 ^ j % 256 := by
  have hpow : 2 ^ (8 * j) = 256 ^ j := Nat.pow_mul 2 8 j
  have hmod : (8 + j) % 8 = j := by omega
  unfold Seed.b
  rw [if_neg (by omega), hmod, BitVec.toNat_setWidth, BitVec.toNat_ushiftRight,
    Nat.shiftRight_eq_div_pow, hpow]

/-- A nibble of a byte that is cut from a number is a digit of the number to the base 16. -/
theorem nibble_of_byte {W i : Nat} (byte : Nat) (hbyte : byte = W / 256 ^ (i / 2) % 256) :
    (if i &&& 1 ≠ 0 then byte >>> 4 else byte &&& 0xf) = W / 16 ^ i % 16 := by
  have hparity : i &&& 1 = i % 2 := Nat.and_one_is_mod i
  have hsquare : 256 ^ (i / 2) = 16 ^ (2 * (i / 2)) := (Nat.pow_mul 16 2 (i / 2)).symm
  rw [hparity, hbyte, hsquare]
  by_cases hodd : i % 2 = 0
  · have hi : 2 * (i / 2) = i := by omega
    have hlow : ∀ x : Nat, x &&& 0xf = x % 16 := fun x => Nat.and_two_pow_sub_one_eq_mod x 4
    rw [if_neg (fun h => h hodd), hi, hlow, Nat.mod_mod_of_dvd _ (by decide)]
  · have hi : i = 2 * (i / 2) + 1 := by omega
    have hstep : W / 16 ^ i = W / 16 ^ (2 * (i / 2)) / 16 := by
      rw [Nat.div_div_eq_div_mul, ← Nat.pow_succ]
      exact congrArg (fun k => W / 16 ^ k) hi
    rw [if_pos hodd, Nat.shiftRight_eq_div_pow, hstep]
    omega

theorem nibble_low (s : Seed) {i : Nat} (hi : i < 16) :
    nibble s i = s.word0.toNat / 16 ^ i % 16 := by
  have hhalf : i >>> 1 = i / 2 := Nat.shiftRight_eq_div_pow i 1
  apply nibble_of_byte
  rw [hhalf, b_low s (by omega)]

theorem nibble_high (s : Seed) {i : Nat} (hi : i < 16) :
    nibble s (16 + i) = s.word1.toNat / 16 ^ i % 16 := by
  have hhalf : (16 + i) >>> 1 = 8 + i / 2 := by
    rw [Nat.shiftRight_eq_div_pow]
    omega
  have hparity : (16 + i) &&& 1 = i &&& 1 := by
    rw [Nat.and_one_is_mod, Nat.and_one_is_mod]
    omega
  unfold nibble
  rw [hhalf, hparity]
  exact nibble_of_byte _ (b_high s (by omega))

theorem nibble_lt (s : Seed) (i : Nat) : nibble s i < 16 := by
  have hbyte : (s.b (i >>> 1)).toNat < 256 := (s.b (i >>> 1)).isLt
  have hlow : ∀ x : Nat, x &&& 0xf = x % 16 := fun x => Nat.and_two_pow_sub_one_eq_mod x 4
  unfold nibble
  show (if i &&& 1 ≠ 0 then (s.b (i >>> 1)).toNat >>> 4 else (s.b (i >>> 1)).toNat &&& 0xf) < 16
  rw [hlow, Nat.shiftRight_eq_div_pow]
  split <;> omega

/-- Numbers agree in their low digits to the base 16 exactly if their remainders do. -/
theorem mod_pow_eq_iff (W W' m : Nat) :
    W % 16 ^ m = W' % 16 ^ m ↔ ∀ i < m, W / 16 ^ i % 16 = W' / 16 ^ i % 16 := by
  induction m with
  | zero => simp [Nat.mod_one]
  | succ m ih =>
      have hpos : 0 < 16 ^ m := Nat.pow_pos (by decide)
      have hsplit : ∀ V : Nat, V % 16 ^ (m + 1) = V % 16 ^ m + 16 ^ m * (V / 16 ^ m % 16) :=
        fun V => by rw [Nat.pow_succ, Nat.mod_mul]
      constructor
      · intro h i hi
        have hrem : W % 16 ^ m = W' % 16 ^ m := by
          rw [← Nat.mod_mod_of_dvd W (Nat.pow_dvd_pow 16 (Nat.le_succ m)), h,
            Nat.mod_mod_of_dvd _ (Nat.pow_dvd_pow 16 (Nat.le_succ m))]
        rcases Nat.lt_succ_iff_lt_or_eq.mp hi with hlt | rfl
        · exact ih.mp hrem i hlt
        · rw [hsplit, hsplit, hrem] at h
          exact Nat.eq_of_mul_eq_mul_left hpos (Nat.add_left_cancel h)
      · intro h
        rw [hsplit, hsplit, ih.mpr fun i hi => h i (by omega), h m (by omega)]

/-- Words have any digits. -/
theorem exists_digits (n : Nat → Nat) (hn : ∀ k, n k < 16) (m : Nat) :
    ∃ W < 16 ^ m, ∀ i < m, W / 16 ^ i % 16 = n i := by
  induction m with
  | zero => exact ⟨0, by decide, fun i hi => absurd hi (Nat.not_lt_zero i)⟩
  | succ m ih =>
      obtain ⟨W, hW, hdigits⟩ := ih
      have hpos : 0 < 16 ^ m := Nat.pow_pos (by decide)
      refine ⟨W + 16 ^ m * n m, ?_, ?_⟩
      · have htop : 16 ^ m * (n m + 1) ≤ 16 ^ m * 16 := Nat.mul_le_mul_left _ (hn m)
        rw [Nat.pow_succ]
        rw [Nat.mul_add, Nat.mul_one] at htop
        omega
      · have hrem : (W + 16 ^ m * n m) % 16 ^ m = W % 16 ^ m := Nat.add_mul_mod_self_left _ _ _
        intro i hi
        rcases Nat.lt_succ_iff_lt_or_eq.mp hi with hlt | rfl
        · rw [← hdigits i hlt]
          exact (mod_pow_eq_iff _ _ m).mp hrem i hlt
        · rw [Nat.add_mul_div_left _ _ hpos, Nat.div_eq_of_lt hW, Nat.zero_add,
            Nat.mod_eq_of_lt (hn _)]

/-- A number modulo 2^62: fifteen digits to the base 16 and two bits. -/
theorem mod_62_eq_iff (W W' : Nat) :
    W % 2 ^ 62 = W' % 2 ^ 62 ↔
      W % 16 ^ 15 = W' % 16 ^ 15 ∧ W / 16 ^ 15 % 16 % 4 = W' / 16 ^ 15 % 16 % 4 := by
  omega

/-- The places at which the loop over the whole template writes. -/
theorem shown_template :
    shown template 0 = (List.range 15).map (fun i => (i, 16)) ++
      (15, 4) :: (List.range 15).map (fun i => (16 + i, 16)) := by
  decide

/-- Every place of the text reads one of the 16 bytes of the union. -/
theorem shown_inside : ∀ k ∈ shown template 0, k.1 >>> 1 < 16 := by decide

theorem text_eq_iff :
    text s = text s' ↔ s.word0.toNat % 2 ^ 62 = s'.word0.toNat % 2 ^ 62
      ∧ s.word1.toNat % 2 ^ 60 = s'.word1.toNat % 2 ^ 60 := by
  have hlow : (∀ i < 15, nibble s i % 16 = nibble s' i % 16)
      ↔ s.word0.toNat % 16 ^ 15 = s'.word0.toNat % 16 ^ 15 := by
    rw [mod_pow_eq_iff]
    refine forall₂_congr fun i hi => ?_
    rw [nibble_low s (by omega), nibble_low s' (by omega), Nat.mod_mod, Nat.mod_mod]
  have hhigh : (∀ i < 15, nibble s (16 + i) % 16 = nibble s' (16 + i) % 16)
      ↔ s.word1.toNat % 16 ^ 15 = s'.word1.toNat % 16 ^ 15 := by
    rw [mod_pow_eq_iff]
    refine forall₂_congr fun i hi => ?_
    rw [nibble_high s (by omega), nibble_high s' (by omega), Nat.mod_mod, Nat.mod_mod]
  have hvariant : nibble s 15 % 4 = nibble s' 15 % 4
      ↔ s.word0.toNat / 16 ^ 15 % 16 % 4 = s'.word0.toNat / 16 ^ 15 % 16 % 4 := by
    rw [nibble_low s (by decide), nibble_low s' (by decide)]
  have hsixty : (2 : Nat) ^ 60 = 16 ^ 15 := by decide
  unfold text
  rw [build_eq_iff (nibble_lt s) (nibble_lt s'), shown_template, mod_62_eq_iff, hsixty, ← hlow,
    ← hvariant, ← hhigh]
  simp only [List.mem_append, List.mem_cons, List.mem_map, List.mem_range, or_imp, forall_and,
    forall_exists_index, and_imp, forall_apply_eq_imp_iff₂, forall_eq, and_assoc]

/-- Any values of the loop are those of two words. -/
theorem exists_words (n : Nat → Nat) (hn : ∀ k, n k < 16) :
    ∃ s : Seed, ∀ i < 31, nibble s i = n i := by
  obtain ⟨W0, hW0, hdigits0⟩ := exists_digits n hn 16
  obtain ⟨W1, hW1, hdigits1⟩ := exists_digits (fun i => n (16 + i)) (fun k => hn _) 16
  have hword : ∀ W, W < 16 ^ 16 → (BitVec.ofNat 64 W).toNat = W := by
    intro W hW
    rw [BitVec.toNat_ofNat]
    exact Nat.mod_eq_of_lt (by omega)
  refine ⟨⟨BitVec.ofNat 64 W0, BitVec.ofNat 64 W1⟩, ?_⟩
  intro i hi
  by_cases hlow : i < 16
  · rw [nibble_low _ hlow, hword W0 hW0]
    exact hdigits0 i hlow
  · obtain ⟨j, rfl⟩ : ∃ j, i = 16 + j := ⟨i - 16, by omega⟩
    rw [nibble_high _ (by omega), hword W1 hW1]
    exact hdigits1 j (by omega)

end Words

/-- The bytes of a string with its terminator, `UUID4_LEN`. -/
def UUID4_LEN : Nat := 37

/-- **The texts**: those of any two words are exactly the strings with the layout of a version 4
identifier, 37 bytes with the terminator; two of them are the same exactly if the words agree in
the 62 and the 60 bits that are shown; and `uuid4_generate` writes the text of its two draws. -/
theorem texts_exact :
    (∀ dst, IsV4 dst ↔ ∃ s, text s = dst) ∧ (∀ s, (text s).length = UUID4_LEN)
      ∧ (∀ s s', text s = text s' ↔ s.word0.toNat % 2 ^ 62 = s'.word0.toNat % 2 ^ 62
          ∧ s.word1.toNat % 2 ^ 60 = s'.word1.toNat % 2 ^ 60)
      ∧ ∀ seed, (uuid4Generate seed).1 = text ⟨draw seed, draw (advance seed)⟩ := by
  refine ⟨?_, ?_, fun s s' => text_eq_iff, fun seed => by rw [uuid4Generate_eq]⟩
  · intro dst
    constructor
    · rintro ⟨shape, rfl, hfits⟩
      obtain ⟨n, hn, hbuild⟩ := exists_build hfits 0
      obtain ⟨s, hs⟩ := exists_words n hn
      refine ⟨s, ?_⟩
      rw [← hbuild, text, build_eq_iff (nibble_lt s) hn]
      intro k hk
      have hbefore : ∀ k ∈ shown template 0, k.1 < 31 := by decide
      rw [hs k.1 (hbefore k hk)]
    · rintro ⟨s, rfl⟩
      exact build_fits (nibble_lt s) template 0
  · intro s
    obtain ⟨shape, htext, hfits⟩ := build_fits (nibble_lt s) template 0
    rw [text, htext, List.length_append, ← hfits.length_eq]
    rfl

example : text ⟨0x123456789abcdef0, 0xfedcba9876543210⟩
    = "0fedcba9-8765-4432-9012-3456789abcde\x00".toList := by decide

/-! ## §3. The seed. -/

/-- What `uuid4_init` returns. -/
def UUID4_ESUCCESS : Int := 0
def UUID4_EFAILURE : Int := -1

/-- The number that the first bytes of memory make, the lowest first. -/
def value (m : Nat → BitVec 8) : Nat → Nat
  | 0 => 0
  | k + 1 => value m k + 256 ^ k * (m k).toNat

/-- The two words that hold 16 bytes of memory. -/
def Seed.ofBytes (m : Nat → BitVec 8) : Seed where
  word0 := BitVec.ofNat 64 (value m 8)
  word1 := BitVec.ofNat 64 (value (fun j => m (8 + j)) 8)

/-- `uuid4_init()`: what it returns, and the seed it leaves.  `urandom` is `none` where
`/dev/urandom` cannot be opened, and otherwise what it yields up to its end: `fread` puts the
first 16 bytes of that over the seed. -/
def uuid4Init (urandom : Option (List (BitVec 8))) (seed : Seed) : Int × Seed :=
  match urandom with
  | none => (UUID4_EFAILURE, seed)
  | some bytes =>
      let filled := Seed.ofBytes fun j => bytes.getD j (seed.b j)
      if (bytes.take 16).length ≠ 16 then (UUID4_EFAILURE, filled) else (UUID4_ESUCCESS, filled)

theorem value_lt (m : Nat → BitVec 8) (k : Nat) : value m k < 256 ^ k := by
  induction k with
  | zero => exact Nat.zero_lt_one
  | succ k ih =>
      have htop : 256 ^ k * ((m k).toNat + 1) ≤ 256 ^ k * 256 := Nat.mul_le_mul_left _ (m k).isLt
      rw [Nat.mul_add, Nat.mul_one] at htop
      rw [value, Nat.pow_succ]
      omega

theorem value_digit (m : Nat → BitVec 8) {j k : Nat} (hj : j < k) :
    value m k / 256 ^ j % 256 = (m j).toNat := by
  induction k with
  | zero => omega
  | succ k ih =>
      rcases Nat.lt_succ_iff_lt_or_eq.mp hj with hlt | rfl
      · have hsplit : 256 ^ k = 256 ^ j * (256 * 256 ^ (k - j - 1)) := by
          rw [← Nat.pow_succ', ← Nat.pow_add]
          congr 1
          omega
        rw [value, hsplit, mul_assoc, mul_assoc, Nat.add_mul_div_left _ _ (Nat.pow_pos (by decide)),
          Nat.add_mul_mod_self_left]
        exact ih hlt
      · rw [value, Nat.add_mul_div_left _ _ (Nat.pow_pos (by decide)),
          Nat.div_eq_of_lt (value_lt m j), Nat.zero_add]
        exact Nat.mod_eq_of_lt (m j).isLt

/-- Bytes that are put in memory are read back. -/
theorem b_ofBytes (m : Nat → BitVec 8) {j : Nat} (hj : j < 16) : (Seed.ofBytes m).b j = m j := by
  have hword : ∀ m', (BitVec.ofNat 64 (value m' 8)).toNat = value m' 8 := by
    intro m'
    rw [BitVec.toNat_ofNat]
    exact Nat.mod_eq_of_lt (value_lt m' 8)
  apply BitVec.eq_of_toNat_eq
  by_cases hlow : j < 8
  · rw [b_low _ hlow, Seed.ofBytes, hword]
    exact value_digit m hlow
  · obtain ⟨k, rfl⟩ : ∃ k, j = 8 + k := ⟨j - 8, by omega⟩
    have hk : k < 8 := by omega
    rw [b_high _ hk, Seed.ofBytes, hword]
    exact value_digit (fun j => m (8 + j)) hk

/-- Only bytes that are all zero make the zero seed. -/
theorem ofBytes_eq_zero_iff (m : Nat → BitVec 8) : Seed.ofBytes m = 0 ↔ ∀ j < 16, m j = 0 := by
  constructor
  · intro h j hj
    rw [← b_ofBytes m hj, h]
    unfold Seed.b
    simp
  · intro h
    have hzero : ∀ m' : Nat → BitVec 8, (∀ j < 8, m' j = 0) → value m' 8 = 0 := by
      intro m' hm
      simp [value, hm]
    apply Seed.ext
    · show BitVec.ofNat 64 (value m 8) = 0
      rw [hzero m fun j hj => h j (by omega)]
      rfl
    · show BitVec.ofNat 64 (value (fun j => m (8 + j)) 8) = 0
      rw [hzero _ fun j hj => h (8 + j) (by omega)]
      rfl

/-- `uuid4_init` where `/dev/urandom` can be opened. -/
theorem uuid4Init_some (bytes : List (BitVec 8)) (seed : Seed) :
    uuid4Init (some bytes) seed
      = (if 16 ≤ bytes.length then UUID4_ESUCCESS else UUID4_EFAILURE,
          Seed.ofBytes fun j => bytes.getD j (seed.b j)) := by
  have hlength : (bytes.take 16).length = min 16 bytes.length := List.length_take
  unfold uuid4Init
  dsimp only
  rw [hlength]
  by_cases h : 16 ≤ bytes.length
  · rw [if_neg (by omega), if_pos h]
  · rw [if_pos (by omega), if_neg h]

/-- After `uuid4_init`, the bytes that were read are over the seed and the others are as before. -/
theorem uuid4Init_b (bytes : List (BitVec 8)) (seed : Seed) {j : Nat} (hj : j < 16) :
    (uuid4Init (some bytes) seed).2.b j = bytes.getD j (seed.b j) := by
  rw [uuid4Init_some]
  exact b_ofBytes _ hj

/-! ## §4. Programs that make identifiers. -/

/-- A call of the program. -/
inductive ApiCall where
  | uuid4Init (urandom : Option (List (BitVec 8)))
  | uuid4Generate
  deriving Repr, DecidableEq

/-- The seed a call leaves. -/
def ApiCall.next : ApiCall → Seed → Seed
  | .uuid4Init urandom, seed => (Uuid.uuid4Init urandom seed).2
  | .uuid4Generate, seed => (Uuid.uuid4Generate seed).2

/-- The identifiers a program makes, from a seed on, call after call. -/
def identifiers : List ApiCall → Seed → List (List Char)
  | [], _ => []
  | .uuid4Init urandom :: calls, seed => identifiers calls (ApiCall.next (.uuid4Init urandom) seed)
  | .uuid4Generate :: calls, seed =>
      (uuid4Generate seed).1 :: identifiers calls (ApiCall.next .uuid4Generate seed)

/-- The seed after some calls. -/
def seedAfter (calls : List ApiCall) (seed : Seed) : Seed :=
  calls.foldl (fun seed call => call.next seed) seed

/-- The identifier of two words that are zero. -/
def zeroText : List Char := "00000000-0000-4000-8000-000000000000\x00".toList

/-- No call reads a byte other than zero into the seed. -/
def NeverSeeded (calls : List ApiCall) : Prop :=
  ∀ bytes, .uuid4Init (some bytes) ∈ calls → ∀ b ∈ bytes.take 16, b = 0

theorem uuid4_init_zero {bytes : List (BitVec 8)} (h : ∀ b ∈ bytes.take 16, b = 0) :
    (uuid4Init (some bytes) 0).2 = 0 := by
  have hbytes : ∀ j < 16, bytes.getD j ((0 : Seed).b j) = 0 := by
    intro j hj
    have hzero : (0 : Seed).b j = 0 := by
      unfold Seed.b
      simp
    rw [List.getD_eq_getElem?_getD, hzero]
    cases hget : bytes[j]? with
    | none => rfl
    | some b =>
        have hmem : b ∈ bytes.take 16 := by
          apply List.mem_of_getElem? (i := j)
          rw [List.getElem?_take_of_lt hj, hget]
        exact h b hmem
  rw [uuid4Init_some]
  exact (ofBytes_eq_zero_iff _).mpr hbytes

/-- **Without a seed**: a program whose `uuid4_init` fails, is not called or reads nothing but
zeros gets one and the same identifier every time. -/
theorem unseeded_identifiers {calls : List ApiCall} (h : NeverSeeded calls) :
    ∀ dst ∈ identifiers calls 0, dst = zeroText := by
  induction calls with
  | nil =>
      intro dst hdst
      cases hdst
  | cons call calls ih =>
      have hrest : NeverSeeded calls := fun bytes hbytes => h bytes (List.mem_cons_of_mem _ hbytes)
      cases call with
      | uuid4Init urandom =>
          have hseed : ApiCall.next (.uuid4Init urandom) 0 = 0 := by
            cases urandom with
            | none => rfl
            | some bytes => exact uuid4_init_zero (h bytes List.mem_cons_self)
          intro dst hdst
          rw [identifiers, hseed] at hdst
          exact ih hrest dst hdst
      | uuid4Generate =>
          have hseed : ApiCall.next .uuid4Generate 0 = 0 := by decide
          -- the zero seed stays zero, and writes the same text
          have htext : (uuid4Generate 0).1 = zeroText := by decide
          intro dst hdst
          rw [identifiers, hseed, htext] at hdst
          rcases List.mem_cons.mp hdst with rfl | hdst
          · rfl
          · exact ih hrest dst hdst

theorem unseeded_identifiers_short :
    NeverSeeded [.uuid4Init none, .uuid4Generate, .uuid4Init (some [0]), .uuid4Generate]
      ∧ ∀ dst ∈ identifiers
          [.uuid4Init none, .uuid4Generate, .uuid4Init (some [0]), .uuid4Generate] 0,
        dst = zeroText := by
  have hnever : NeverSeeded
      [.uuid4Init none, .uuid4Generate, .uuid4Init (some [0]), .uuid4Generate] := by
    intro bytes hbytes b hb
    simp only [List.mem_cons, ApiCall.uuid4Init.injEq, reduceCtorEq, Option.some.injEq,
      List.not_mem_nil, or_false, false_or] at hbytes
    subst hbytes
    simpa using hb
  exact ⟨hnever, unseeded_identifiers hnever⟩

theorem seedAfter_generate (n : Nat) (seed : Seed) :
    seedAfter (List.replicate n .uuid4Generate) seed = advance^[2 * n] seed := by
  induction n generalizing seed with
  | zero => rfl
  | succ n ih =>
      have hsplit : 2 * (n + 1) = 2 * n + 2 := by omega
      rw [hsplit, iterate_add_apply, ← ih]
      rfl

/-- What the first identifiers of a seed show: two draws each. -/
theorem identifiers_generate (n : Nat) (seed : Seed) :
    identifiers (List.replicate n .uuid4Generate) seed
      = (List.range n).map fun i =>
          text ⟨draw (advance^[2 * i] seed), draw (advance^[2 * i + 1] seed)⟩ := by
  induction n generalizing seed with
  | zero => rfl
  | succ n ih =>
      -- the second identifier starts two draws further on
      have hnext : ∀ i, advance^[2 * i] (advance^[2] seed) = advance^[2 * (i + 1)] seed := by
        intro i
        rw [← iterate_add_apply]
        rfl
      have hnext' : ∀ i, advance^[2 * i + 1] (advance^[2] seed)
          = advance^[2 * (i + 1) + 1] seed := by
        intro i
        rw [← iterate_add_apply]
        congr 1
      rw [List.range_succ_eq_map, List.map_cons, List.map_map, List.replicate_succ, identifiers,
        uuid4Generate_eq]
      congr 1
      rw [show ApiCall.next .uuid4Generate seed = advance^[2] seed from rfl, ih]
      apply List.map_congr_left
      intro i _
      rw [hnext, hnext']
      rfl

/-- **With a seed**: sixteen bytes that are not all zero are the seed, and then the seeds that
`uuid4_generate` starts from repeat after 2^128 - 1 identifiers, never earlier; each identifier
shows the next two draws. -/
theorem seeded_identifiers {bytes : List (BitVec 8)} (hlength : 16 ≤ bytes.length)
    (hbytes : ∃ j, ∃ h : j < 16, bytes[j] ≠ 0) (seed : Seed) :
    ∃ s, uuid4Init (some bytes) seed = (UUID4_ESUCCESS, s) ∧ s ≠ 0
      ∧ (∀ j, ∀ h : j < 16, s.b j = bytes[j])
      ∧ (∀ m n, seedAfter (List.replicate m .uuid4Generate) s
            = seedAfter (List.replicate n .uuid4Generate) s
          ↔ m % (2 ^ 128 - 1) = n % (2 ^ 128 - 1))
      ∧ ∀ n, identifiers (List.replicate n .uuid4Generate) s
          = (List.range n).map fun i =>
              text ⟨draw (advance^[2 * i] s), draw (advance^[2 * i + 1] s)⟩ := by
  -- the bytes are read to where the seed lies
  have hread : ∀ j, ∀ h : j < 16, (uuid4Init (some bytes) seed).2.b j = bytes[j] := by
    intro j h
    rw [uuid4Init_b bytes seed h]
    exact List.getD_eq_getElem _ _ (by omega)
  have hsuccess : (uuid4Init (some bytes) seed).1 = UUID4_ESUCCESS := by
    rw [uuid4Init_some]
    exact if_pos hlength
  have hne : (uuid4Init (some bytes) seed).2 ≠ 0 := by
    obtain ⟨j, h, hj⟩ := hbytes
    intro hzero
    apply hj
    rw [← hread j h, hzero]
    unfold Seed.b
    simp
  refine ⟨(uuid4Init (some bytes) seed).2, Prod.ext hsuccess rfl, hne, hread, ?_,
    fun n => identifiers_generate n _⟩
  intro m n
  rw [seedAfter_generate, seedAfter_generate, iterate_advance_eq_iff hne]
  constructor
  · intro h
    exact Nat.ModEq.cancel_left_of_coprime (c := 2) (by decide) h
  · intro h
    exact Nat.ModEq.mul_left 2 h

theorem seeded_identifiers_one :
    ∃ s, uuid4Init (some (1 :: List.replicate 15 0)) 0 = (UUID4_ESUCCESS, s) ∧ s ≠ 0
      ∧ seedAfter (List.replicate 1 .uuid4Generate) s
          ≠ seedAfter (List.replicate 2 .uuid4Generate) s := by
  have hlength : 16 ≤ (1 :: List.replicate 15 (0 : BitVec 8)).length := by decide
  have hone : (1 :: List.replicate 15 (0 : BitVec 8))[0] ≠ 0 := by
    show (1 : BitVec 8) ≠ 0
    decide
  obtain ⟨s, hinit, hne, -, hseeds, -⟩ := seeded_identifiers hlength ⟨0, by decide, hone⟩ 0
  exact ⟨s, hinit, hne, fun h => absurd ((hseeds 1 2).mp h) (by norm_num)⟩

end SensorServer.Uuid
