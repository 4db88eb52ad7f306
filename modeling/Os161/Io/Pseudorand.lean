import Os161.Kern.Base

/-!
# The pseudo-random generator, `dev/generic/pseudorand.c`

The product with the seed is taken in two parts, so that it fits the arithmetic of `int32_t`.
-/
namespace Os161.Io

def MULTIPLIER : Int := 16807
def MODULUS : Int := 0x7fffffff
def K1 : Int := 127773
def K2 : Int := 2836

/-- An `int32_t`, unless the value overflows. -/
def int32 (v : Int) : Option Int := if -2 ^ 31 ≤ v ∧ v < 2 ^ 31 then some v else none

/-- The new seed, and what is returned. -/
def pseudorandRandom (seed : Int) : Option (Int × Int) := do
  let hi ← int32 (seed / K1)
  let lo ← int32 (seed % K1)
  let low ← int32 (MULTIPLIER * lo)
  let high ← int32 (K2 * hi)
  let tmp ← int32 (low - high)
  let tmp ← if tmp ≤ 0 then int32 (tmp + MODULUS) else some tmp
  return (tmp, tmp - 1)

def pseudorandRandmax : Int := MODULUS - 2

/-- The seed after `n` calls, from `pseudoattach_pseudorand` on. -/
def seedAfter : Nat → Option Int
  | 0 => some 305824
  | n + 1 => (seedAfter n >>= pseudorandRandom).map Prod.fst

private theorem int32_eq {v : Int} (low : -2 ^ 31 ≤ v) (high : v < 2 ^ 31) : int32 v = some v :=
  if_pos ⟨low, high⟩

/-- A call with this seed computes the product, and what it leaves is a seed again. -/
def Exact (seed : Int) : Prop :=
  ∃ next, pseudorandRandom seed = some (next, next - 1) ∧ next = 16807 * seed % (2 ^ 31 - 1) ∧
    1 ≤ next ∧ next < MODULUS

theorem exact_of_seed {seed : Int} (low : 1 ≤ seed) (high : seed < MODULUS) : Exact seed := by
  simp only [Exact, pseudorandRandom, MULTIPLIER, MODULUS, K1, K2] at *
  simp (disch := omega) only [int32_eq, Option.bind_eq_bind, Option.bind_some]
  -- the product is `MODULUS * hi + tmp`, and `MULTIPLIER` and `K2` have no factor in common
  have nonzero : 16807 * (seed % 127773) ≠ 2836 * (seed / 127773) := by omega
  split <;> exact ⟨_, rfl, by omega, by omega, by omega⟩

/-- One call is exact and cannot overflow, and no sequence of calls leaves the range. -/
theorem park_miller : (∀ seed, 1 ≤ seed → seed < MODULUS → Exact seed) ∧
    ∀ n, ∃ seed, seedAfter n = some seed ∧ seed ≠ 0 ∧ ∃ next value,
      pseudorandRandom seed = some (next, value) ∧ 0 ≤ value ∧ value ≤ pseudorandRandmax := by
  have seeds (n : Nat) : ∃ seed, seedAfter n = some seed ∧ 1 ≤ seed ∧ seed < MODULUS := by
    induction n with
    | zero => exact ⟨_, rfl, by decide, by decide⟩
    | succ n ih =>
      obtain ⟨seed, here, low, high⟩ := ih
      obtain ⟨next, drawn, -, range⟩ := exact_of_seed low high
      exact ⟨next, by simp [seedAfter, here, drawn], range⟩
  refine ⟨fun seed => exact_of_seed, fun n => ?_⟩
  obtain ⟨seed, here, low, high⟩ := seeds n
  obtain ⟨next, drawn, -, least, most⟩ := exact_of_seed low high
  refine ⟨seed, here, by omega, next, _, drawn, by omega, ?_⟩
  rw [pseudorandRandmax]
  omega

/-- The seed after `n` calls, in one formula. -/
theorem seedAfter_eq (n : Nat) : ∃ seed, seedAfter n = some seed ∧ 1 ≤ seed ∧ seed < MODULUS ∧
    seed = 16807 ^ n * 305824 % (2 ^ 31 - 1) := by
  induction n with
  | zero => exact ⟨_, rfl, by decide, by decide, rfl⟩
  | succ n ih =>
    obtain ⟨seed, here, low, high, formula⟩ := ih
    obtain ⟨next, drawn, product, least, most⟩ := exact_of_seed low high
    refine ⟨next, by simp [seedAfter, here, drawn], least, most, ?_⟩
    rw [product, formula, Int.mul_emod, Int.emod_emod, ← Int.mul_emod, pow_succ' _ n, mul_assoc]

end Os161.Io
