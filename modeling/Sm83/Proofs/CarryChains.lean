import Mathlib.Data.Nat.Digits.Defs
import Mathlib.Data.Nat.Digits.Lemmas
import Mathlib.Tactic.LinearCombination
import Sm83.Alu

/-! Numbers of any number of bytes, and passes over them that take one byte at a time and hand on the
carry. What each byte operation does to its byte and the carry is one equation, and so is what a pass
does to the number: on the way up the carry that comes out counts for the byte above the highest one
(`number_passUp`), and on the way down the one that comes in does (`number_passDown`). -/
namespace Sm83

/-! ## Numbers -/

/-- The number that bytes stand for, the lowest byte first. -/
def number (bytes : List Byte) : ℕ :=
  Nat.ofDigits 256 (bytes.map UInt8.toNat)

@[simp] theorem number_nil : number [] = 0 := rfl

theorem number_cons (v : Byte) (bytes : List Byte) :
    number (v :: bytes) = v.toNat + 256 * number bytes := by
  simp only [number, List.map_cons, Nat.ofDigits_cons]

theorem number_concat (bytes : List Byte) (v : Byte) :
    number (bytes ++ [v]) = number bytes + 256 ^ bytes.length * v.toNat := by
  simp only [number, List.map_append, Nat.ofDigits_append, List.length_map, List.map_cons,
    List.map_nil, Nat.ofDigits_singleton]

private theorem forall_mem_map_toNat (bytes : List Byte) :
    ∀ n ∈ bytes.map UInt8.toNat, n < 256 := by
  intro n member
  obtain ⟨v, -, rfl⟩ := List.mem_map.mp member
  exact v.toNat_lt

theorem number_lt (bytes : List Byte) : number bytes < 256 ^ bytes.length := by
  have bound := Nat.ofDigits_lt_base_pow_length (b := 256) (by decide) (forall_mem_map_toNat bytes)
  rw [List.length_map] at bound
  exact bound

/-- A number of so many bytes is written in one way. -/
theorem eq_of_number_eq {xs ys : List Byte} (length : xs.length = ys.length)
    (same : number xs = number ys) : xs = ys := by
  have lengths : (xs.map UInt8.toNat).length = (ys.map UInt8.toNat).length := by simp [length]
  have digits := Nat.ofDigits_inj_of_len_eq (by decide) lengths (forall_mem_map_toNat xs)
    (forall_mem_map_toNat ys) same
  exact List.map_injective_iff.mpr (fun _ _ => UInt8.toNat_inj.mp) digits

/-- What a pass leaves behind: the bytes of a number, and the carry exactly if something holds. -/
structure Yields (out : List Byte × Flags) (length : ℕ) (value : ℤ) (carry : Prop) : Prop where
  length : out.1.length = length
  value : (number out.1 : ℤ) = value
  carry : out.2.carry = true ↔ carry

/-! ## Passes -/

section Passes

variable {α σ τ : Type}

/-- Takes the digits from the lowest up, the first operation on the lowest one and the other on those
above it. -/
def passUp (lowest : α → σ → Byte × σ) (other : α → σ → Byte × σ) : List α → σ → List Byte × σ
  | [], s => ([], s)
  | x :: xs, s =>
    let (v, t) := lowest x s
    let (above, u) := passUp other other xs t
    (v :: above, u)

/-- Takes the digits from the highest down, the first operation on the highest one and the other on
those below it. -/
def passDown (highest : α → σ → Byte × σ) (other : α → σ → Byte × σ) (xs : List α) (s : σ) :
    List Byte × σ :=
  let (vs, t) := passUp highest other xs.reverse s
  (vs.reverse, t)

variable {first other : α → σ → Byte × σ}

@[simp] theorem length_passUp (xs : List α) (s : σ) :
    (passUp first other xs s).1.length = xs.length := by
  induction xs generalizing first s with
  | nil => rfl
  | cons x xs ih => simp only [passUp, List.length_cons, ih]

@[simp] theorem length_passDown (xs : List α) (s : σ) :
    (passDown first other xs s).1.length = xs.length := by
  simp [passDown]

private theorem passUp_cons (x : α) (xs : List α) (s : σ) :
    passUp first other (x :: xs) s =
      ((first x s).1 :: (passUp other other xs (first x s).2).1,
        (passUp other other xs (first x s).2).2) := rfl

private theorem passDown_nil (s : σ) : passDown first other [] s = ([], s) := rfl

/-- A pass down goes on below the highest digit. -/
private theorem passDown_concat (lows : List α) (high : α) (s : σ) :
    passDown first other (lows ++ [high]) s =
      ((passDown other other lows (first high s).2).1 ++ [(first high s).1],
        (passDown other other lows (first high s).2).2) := by
  simp only [passDown, List.reverse_concat, passUp, List.reverse_cons]

/-- A pass over states of which a part decides all that the operations yield is a pass over that
part. -/
theorem passUp_map (part : σ → τ) {first' other' : α → τ → Byte × τ}
    (firsts : ∀ x s, Prod.map id part (first x s) = first' x (part s))
    (others : ∀ x s, Prod.map id part (other x s) = other' x (part s)) (xs : List α) (s : σ) :
    Prod.map id part (passUp first other xs s) = passUp first' other' xs (part s) := by
  induction xs generalizing first first' s with
  | nil => rfl
  | cons x xs ih =>
    have rest := ih others (first x s).2
    have head := firsts x s
    simp only [passUp, ← head, ← rest, Prod.map_fst, Prod.map_snd, id_eq, Prod.map_apply]

end Passes

/-! ## Balances -/

section Balances

variable {α : Type}

/-- The number that digits stand for which count what they weigh. -/
def total (weight : α → ℤ) : List α → ℤ
  | [] => 0
  | x :: xs => weight x + 256 * total weight xs

/-- An operation turns the weight of a digit and what comes in into a byte and a carry that goes up. A
borrow is a carry with the opposite sign. -/
def BalancesUp (sign : ℤ) (weight : α → ℤ) (entry : Flags → ℤ) (op : α → Flags → Byte × Flags) :
    Prop :=
  ∀ x f, ((op x f).1.toNat : ℤ) + 256 * (sign * (op x f).2.carry.toNat) = weight x + entry f

/-- An operation halves a byte, and what comes in from above counts for bit 8. What is left over is the
carry that goes down. -/
def BalancesDown (entry : Byte → Flags → Bool) (op : Byte → Flags → Byte × Flags) : Prop :=
  ∀ v f, 2 * (op v f).1.toNat + (op v f).2.carry.toNat = v.toNat + 256 * (entry v f).toNat

/-- What comes out of a pass up, the last carry included, is the total of the digits and of what came
in. -/
theorem number_passUp {sign : ℤ} {weight : α → ℤ} {entry : Flags → ℤ}
    {lowest other : α → Flags → Byte × Flags} (lowestBalances : BalancesUp sign weight entry lowest)
    (otherBalances : BalancesUp sign weight (fun f => sign * f.carry.toNat) other) {xs : List α}
    (nonempty : xs ≠ []) (f : Flags) :
    (number (passUp lowest other xs f).1 : ℤ) +
        256 ^ xs.length * (sign * (passUp lowest other xs f).2.carry.toNat) =
      total weight xs + entry f := by
  induction xs generalizing lowest entry f with
  | nil => exact absurd rfl nonempty
  | cons x xs ih =>
    have step := lowestBalances x f
    rw [passUp_cons, number_cons, total, List.length_cons]
    push_cast
    by_cases highest : xs = []
    · subst highest
      simp only [passUp, number_nil, total, List.length_nil]
      linear_combination step
    · have rest := ih otherBalances highest (lowest x f).2
      linear_combination step + 256 * rest

/-- What comes out of a pass down, the last carry included, makes up the number and what came in at the
top. -/
theorem number_passDown {entry : Byte → Flags → Bool} {highest other : Byte → Flags → Byte × Flags}
    (highestBalances : BalancesDown entry highest)
    (otherBalances : BalancesDown (fun _ f => f.carry) other) {xs : List Byte} (nonempty : xs ≠ [])
    (f : Flags) :
    2 * number (passDown highest other xs f).1 + (passDown highest other xs f).2.carry.toNat =
      number xs + 256 ^ xs.length * (entry (xs.getLast nonempty) f).toNat := by
  induction xs using List.reverseRecOn generalizing highest entry f with
  | nil => exact absurd rfl nonempty
  | append_singleton lows high ih =>
    have step := highestBalances high f
    rw [passDown_concat, number_concat, number_concat, List.getLast_concat, List.length_append,
      List.length_singleton, length_passDown]
    by_cases lowest : lows = []
    · subst lowest
      rw [passDown_nil]
      simp only [number_nil, List.length_nil]
      linear_combination step
    · have rest := ih otherBalances lowest (highest high f).2
      linear_combination 256 ^ lows.length * step + rest

private theorem number_eq_emod {bytes : List Byte} {v z : ℤ}
    (balance : (number bytes : ℤ) + 256 ^ bytes.length * z = v) :
    (number bytes : ℤ) = v % 256 ^ bytes.length := by
  have bound : (number bytes : ℤ) < 256 ^ bytes.length := by exact_mod_cast number_lt bytes
  rw [← balance, Int.add_mul_emod_self_left, Int.emod_eq_of_lt (Int.natCast_nonneg _) bound]

/-- A carry that goes up says that the bytes have no room for the whole. -/
theorem Yields.of_carry {out : List Byte × Flags} {n : ℕ} {v : ℤ} (length : out.1.length = n)
    (balance : (number out.1 : ℤ) + 256 ^ n * (1 * out.2.carry.toNat) = v) :
    Yields out n (v % 256 ^ n) (256 ^ n ≤ v) := by
  subst length
  have bound : (number out.1 : ℤ) < 256 ^ out.1.length := by exact_mod_cast number_lt out.1
  refine ⟨rfl, number_eq_emod balance, ?_⟩
  cases carry : out.2.carry with
  | false =>
    rw [carry, Bool.toNat_false] at balance
    simp only [Bool.false_eq_true, false_iff]
    omega
  | true =>
    rw [carry, Bool.toNat_true] at balance
    simp only [true_iff]
    omega

/-- A borrow says that the whole is negative. -/
theorem Yields.of_borrow {out : List Byte × Flags} {n : ℕ} {v : ℤ} (length : out.1.length = n)
    (balance : (number out.1 : ℤ) + 256 ^ n * (-1 * out.2.carry.toNat) = v) :
    Yields out n (v % 256 ^ n) (v < 0) := by
  subst length
  have bound : (number out.1 : ℤ) < 256 ^ out.1.length := by exact_mod_cast number_lt out.1
  refine ⟨rfl, number_eq_emod balance, ?_⟩
  cases carry : out.2.carry with
  | false =>
    rw [carry, Bool.toNat_false] at balance
    simp only [Bool.false_eq_true, false_iff]
    omega
  | true =>
    rw [carry, Bool.toNat_true] at balance
    simp only [true_iff]
    omega

end Balances

end Sm83
