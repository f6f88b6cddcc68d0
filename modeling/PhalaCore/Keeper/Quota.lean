import Mathlib.Algebra.BigOperators.Ring.List
import Mathlib.Algebra.Order.BigOperators.Group.List
import Mathlib.Algebra.Order.Ring.Nat

/-!
# Cache quotas of the contracts keeper

`calc_cache_quotas` (`phactory/src/contracts/support/keeper.rs`) splits `TOTAL_MEMORY`
(20 MiB) over the contracts of an `OrdMap` in proportion to their `u32` weights, with `u64`
arithmetic. The model keeps the `u64` wrap of the release build, so that "no overflow" is a
statement and not a property of the model. Proved here, for every map of at most `2^32` entries:

* `calcCacheQuotas_exact`: one pair per key in ascending key order, no wrap in the weight sum
  or in any product, so each quota is exactly `TOTAL_MEMORY * w / max (Σ w) 1`, at most
  `TOTAL_MEMORY`;
* `calcCacheQuotas_sum_bounds`: the quotas sum to at most `TOTAL_MEMORY`, zero weights get `0`,
  and the memory lost to rounding is less than the number of non-zero weights;
* `calcCacheQuotas_scale`: multiplying every weight by the same `k ≥ 1` changes no quota.
-/

namespace PhalaCore.Keeper

/-- `im::OrdMap`: its entries, in strictly ascending key order. -/
structure OrdMap (K : Type) [LT K] (V : Type) where
  entries : List (K × V)
  ascending : entries.Pairwise (fun a b => a.1 < b.1)

/-- The `ToWeight` trait: a contract's share of the cache. -/
class ToWeight (C : Type) where
  toWeight : C → UInt32

/-- The tests weigh a bare `u32` as itself. -/
instance : ToWeight UInt32 := ⟨id⟩

@[simp] theorem toWeight_uint32 (w : UInt32) : ToWeight.toWeight w = w := rfl

/-- `TOTAL_MEMORY`: 20 MiB. -/
def totalMemory : Nat := 1024 * 1024 * 20

/-- `u64` arithmetic of the release build wraps modulo `2^64`. -/
def wrapU64 (n : Nat) : Nat := n % 2 ^ 64

/-- `.sum::<u64>()`: a left fold of wrapping additions. -/
def sumU64 (ws : List Nat) : Nat := ws.foldl (fun acc w => wrapU64 (acc + w)) 0

variable {K C : Type} [LT K] [ToWeight C]

/-- `contract.to_weight() as u64` for every contract, in key order. -/
def weights (m : OrdMap K C) : List Nat := m.entries.map fun e => (ToWeight.toWeight e.2).toNat

/-- `calc_cache_quotas`. The `as usize` cast is the identity on a 64-bit target. -/
def calcCacheQuotas (m : OrdMap K C) : List (K × Nat) :=
  let totalWeight := max (sumU64 (weights m)) 1
  m.entries.map fun (id, contract) =>
    (id, wrapU64 (totalMemory * (ToWeight.toWeight contract).toNat) / totalWeight)

/-- The same keys with every value mapped by `f`. -/
def OrdMap.mapValues {V W : Type} (f : V → W) (m : OrdMap K V) : OrdMap K W :=
  ⟨m.entries.map fun e => (e.1, f e.2), List.pairwise_map.2 m.ascending⟩

/-! ## No `u64` wrap -/

private theorem foldl_wrap (a : Nat) (ws : List Nat) :
    ws.foldl (fun acc w => wrapU64 (acc + w)) (wrapU64 a) = wrapU64 (a + ws.sum) := by
  induction ws generalizing a with
  | nil => rfl
  | cons w ws ih =>
    simp only [List.foldl_cons, List.sum_cons, wrapU64, Nat.mod_add_mod, ← Nat.add_assoc]
    exact ih (a + w)

theorem sumU64_eq (ws : List Nat) : sumU64 ws = ws.sum % 2 ^ 64 := by
  simpa [wrapU64] using foldl_wrap 0 ws

theorem weight_lt (c : C) : (ToWeight.toWeight c).toNat < 2 ^ 32 :=
  UInt32.toNat_lt_size _

theorem weights_length (m : OrdMap K C) : (weights m).length = m.entries.length := by
  simp [weights]

/-- At most `2^32` weights below `2^32` sum to less than `2^64`. -/
theorem weights_sum_lt (m : OrdMap K C) (hlen : m.entries.length ≤ 2 ^ 32) :
    (weights m).sum < 2 ^ 64 := by
  have hle : (weights m).sum ≤ (weights m).length • (2 ^ 32 - 1) :=
    List.sum_le_card_nsmul _ _ fun w hw => by
      obtain ⟨e, -, rfl⟩ := List.mem_map.1 hw
      have := weight_lt e.2
      omega
  rw [weights_length, Nat.nsmul_eq_mul] at hle
  have : m.entries.length * (2 ^ 32 - 1) ≤ 2 ^ 32 * (2 ^ 32 - 1) := Nat.mul_le_mul_right _ hlen
  omega

theorem product_lt (c : C) : totalMemory * (ToWeight.toWeight c).toNat < 2 ^ 64 := by
  have := weight_lt c
  simp only [totalMemory]
  omega

theorem weight_le_sum (m : OrdMap K C) {e : K × C} (he : e ∈ m.entries) :
    (ToWeight.toWeight e.2).toNat ≤ (weights m).sum :=
  List.le_sum_of_mem (List.mem_map_of_mem _ he)

theorem quota_le (w W : Nat) (hw : w ≤ W) : totalMemory * w / max W 1 ≤ totalMemory :=
  Nat.div_le_of_le_mul (by
    rw [Nat.mul_comm]
    exact Nat.mul_le_mul_right _ (le_max_of_le_left hw))

/-- Below `2^32` entries `calc_cache_quotas` computes the exact quotas. -/
theorem calcCacheQuotas_eq (m : OrdMap K C) (hlen : m.entries.length ≤ 2 ^ 32) :
    calcCacheQuotas m = m.entries.map fun e =>
      (e.1, totalMemory * (ToWeight.toWeight e.2).toNat / max (weights m).sum 1) := by
  simp only [calcCacheQuotas, sumU64_eq, Nat.mod_eq_of_lt (weights_sum_lt m hlen), wrapU64,
    Nat.mod_eq_of_lt (product_lt _)]

theorem calcCacheQuotas_exact (m : OrdMap K C) (hlen : m.entries.length ≤ 2 ^ 32) :
    (calcCacheQuotas m).Pairwise (fun a b => a.1 < b.1) ∧
    sumU64 (weights m) = (weights m).sum ∧
    (∀ e ∈ m.entries, wrapU64 (totalMemory * (ToWeight.toWeight e.2).toNat) =
      totalMemory * (ToWeight.toWeight e.2).toNat) ∧
    calcCacheQuotas m = m.entries.map (fun e =>
      (e.1, totalMemory * (ToWeight.toWeight e.2).toNat / max (weights m).sum 1)) ∧
    ∀ p ∈ calcCacheQuotas m, p.2 ≤ totalMemory := by
  refine ⟨?_, ?_, fun e _ => Nat.mod_eq_of_lt (product_lt _), calcCacheQuotas_eq m hlen, ?_⟩
  · simpa [calcCacheQuotas, List.pairwise_map] using m.ascending
  · rw [sumU64_eq, Nat.mod_eq_of_lt (weights_sum_lt m hlen)]
  · rw [calcCacheQuotas_eq m hlen]
    rintro p hp
    obtain ⟨e, he, rfl⟩ := List.mem_map.1 hp
    exact quota_le _ _ (weight_le_sum m he)

/-- The map of the test `it_wont_overflow`, its contracts `bar`, `baz` and `foo` numbered `0`, `1`
and `2` in their order. -/
def itWontOverflow : OrdMap Nat UInt32 :=
  ⟨[(0, 4294967295), (1, 4294967295), (2, 0)], by decide⟩

theorem it_wont_overflow_quotas :
    calcCacheQuotas itWontOverflow =
      [(0, totalMemory / 2), (1, totalMemory / 2), (2, 0)] := by
  rw [(calcCacheQuotas_exact itWontOverflow (by decide)).2.2.2.1]
  decide

/-! ## Rounding -/

/-- Each `T * w` divided by `D`: quotients times `D` plus remainders give back `T * Σ w`. -/
private theorem quotients_add_remainders (T D : Nat) (ws : List Nat) :
    D * (ws.map fun w => T * w / D).sum + (ws.map fun w => T * w % D).sum = T * ws.sum := by
  induction ws with
  | nil => simp
  | cons w ws ih =>
    simp only [List.map_cons, List.sum_cons, Nat.mul_add]
    have := Nat.div_add_mod (T * w) D
    omega

/-- A zero weight leaves no remainder, any other one less than `D`. -/
private theorem remainders_le (T D : Nat) (hD : 0 < D) (ws : List Nat) :
    (ws.map fun w => T * w % D).sum ≤ ws.countP (· ≠ 0) * (D - 1) := by
  induction ws with
  | nil => simp
  | cons w ws ih =>
    by_cases hw : w = 0
    · simpa [hw] using ih
    · have hmod := Nat.mod_lt (T * w) hD
      have hc : (w :: ws).countP (· ≠ 0) = ws.countP (· ≠ 0) + 1 := by simp [hw]
      rw [List.map_cons, List.sum_cons, hc, Nat.add_mul, Nat.one_mul]
      omega

theorem quotas_eq (m : OrdMap K C) (hlen : m.entries.length ≤ 2 ^ 32) :
    (calcCacheQuotas m).map Prod.snd =
      (weights m).map fun w => totalMemory * w / max (weights m).sum 1 := by
  simp [calcCacheQuotas_eq m hlen, weights]

theorem countP_pos_of_sum_ne_zero {ws : List Nat} (h : ws.sum ≠ 0) : 0 < ws.countP (· ≠ 0) := by
  obtain ⟨w, hw, hw0⟩ : ∃ w ∈ ws, w ≠ 0 := by
    by_contra hall
    push_neg at hall
    exact h (List.sum_eq_zero hall)
  exact List.countP_pos_iff.2 ⟨w, hw, by simpa using hw0⟩

theorem calcCacheQuotas_sum_bounds (m : OrdMap K C) (hlen : m.entries.length ≤ 2 ^ 32) :
    ((calcCacheQuotas m).map Prod.snd).sum ≤ totalMemory ∧
    (∀ e ∈ m.entries, (ToWeight.toWeight e.2).toNat = 0 → (e.1, 0) ∈ calcCacheQuotas m) ∧
    ((weights m).sum = 0 → ∀ q ∈ (calcCacheQuotas m).map Prod.snd, q = 0) ∧
    ((weights m).sum ≠ 0 →
      totalMemory - ((calcCacheQuotas m).map Prod.snd).sum ≤ (weights m).countP (· ≠ 0) - 1) := by
  have hD : 0 < max (weights m).sum 1 := lt_max_of_lt_right Nat.one_pos
  have hsplit := quotients_add_remainders totalMemory (max (weights m).sum 1) (weights m)
  have hrem := remainders_le totalMemory _ hD (weights m)
  rw [← quotas_eq m hlen] at hsplit
  set W := (weights m).sum
  set D := max W 1
  set S := ((calcCacheQuotas m).map Prod.snd).sum
  have hS : S ≤ totalMemory := Nat.le_of_mul_le_mul_left (by
    calc D * S ≤ totalMemory * W := by omega
      _ ≤ D * totalMemory := by rw [Nat.mul_comm]; exact Nat.mul_le_mul_right _ (le_max_left W 1))
    hD
  refine ⟨hS, fun e he h0 => ?_, fun hW q hq => ?_, fun hW => ?_⟩
  · rw [calcCacheQuotas_eq m hlen]
    exact List.mem_map.2 ⟨e, he, by simp [h0]⟩
  · rw [quotas_eq m hlen] at hq
    obtain ⟨w, hw, rfl⟩ := List.mem_map.1 hq
    have : w = 0 := Nat.eq_zero_of_le_zero (hW ▸ List.le_sum_of_mem hw)
    simp [this]
  · have hDW : D = W := max_eq_left (Nat.one_le_iff_ne_zero.2 hW)
    have hn := countP_pos_of_sum_ne_zero hW
    rw [hDW] at hsplit hrem
    -- the lost memory times `W` is the remainder sum, which is below `n * W`
    have hlost : (totalMemory - S) * W < (weights m).countP (· ≠ 0) * W := by
      have : (totalMemory - S) * W + W * S = totalMemory * W := by
        rw [Nat.mul_comm W S, ← Nat.add_mul, Nat.sub_add_cancel hS]
      have : (weights m).countP (· ≠ 0) * (W - 1) < (weights m).countP (· ≠ 0) * W :=
        Nat.mul_lt_mul_of_pos_left (by omega) hn
      omega
    have := Nat.lt_of_mul_lt_mul_right hlost
    omega

/-- The map of the test `fraction_works`, its contracts `bar`, `baz` and `foo` numbered `0`, `1` and
`2` in their order. -/
def fractionWorks : OrdMap Nat UInt32 :=
  ⟨[(0, 1), (1, 4294967295), (2, 0)], by decide⟩

theorem fraction_works_loses_one_byte :
    totalMemory - ((calcCacheQuotas fractionWorks).map Prod.snd).sum ≤ 1 := by
  have h := (calcCacheQuotas_sum_bounds fractionWorks (by decide)).2.2.2 (by decide)
  exact h.trans (by decide)

/-! ## Scaling the weights -/

private theorem scaled_quota (T k w W : Nat) (hk : 0 < k) (hw : w ≤ W) :
    T * (k * w) / max (k * W) 1 = T * w / max W 1 := by
  rcases Nat.eq_zero_or_pos W with rfl | hW
  · simp [Nat.eq_zero_of_le_zero hw]
  · rw [max_eq_left (Nat.mul_pos hk hW), max_eq_left hW, Nat.mul_left_comm,
      Nat.mul_div_mul_left _ _ hk]

theorem calcCacheQuotas_scale (m : OrdMap K UInt32) (k : Nat) (hk : 1 ≤ k)
    (hkw : ∀ e ∈ m.entries, k * e.2.toNat ≤ 2 ^ 32 - 1) (hlen : m.entries.length ≤ 2 ^ 32) :
    calcCacheQuotas (m.mapValues fun w => UInt32.ofNat (k * w.toNat)) = calcCacheQuotas m := by
  have hscaled : ∀ e ∈ m.entries, (UInt32.ofNat (k * e.2.toNat)).toNat = k * e.2.toNat :=
    fun e he => UInt32.toNat_ofNat_of_lt (by have := hkw e he; simp only [UInt32.size]; omega)
  have hweights : weights (m.mapValues fun w => UInt32.ofNat (k * w.toNat)) =
      (weights m).map (k * ·) := by
    simp only [weights, OrdMap.mapValues, List.map_map]
    exact List.map_congr_left fun e he => by simpa using hscaled e he
  rw [calcCacheQuotas_eq _ (by simpa [OrdMap.mapValues] using hlen), calcCacheQuotas_eq m hlen,
    hweights, List.sum_map_mul_left]
  simp only [OrdMap.mapValues, List.map_map, List.map_id']
  refine List.map_congr_left fun e he => ?_
  have hle := weight_le_sum m he
  simp only [Function.comp, toWeight_uint32, hscaled e he] at hle ⊢
  rw [scaled_quota _ _ _ _ hk hle]

/-- The map of the test `little_quotas_works`, its contracts `bar` and `foo` numbered `0` and `1`. -/
def littleQuotasWorks : OrdMap Nat UInt32 := ⟨[(0, 1), (1, 0)], by decide⟩

theorem little_quotas_scaled_by_three :
    calcCacheQuotas (littleQuotasWorks.mapValues fun w => UInt32.ofNat (3 * w.toNat)) =
      calcCacheQuotas littleQuotasWorks :=
  calcCacheQuotas_scale littleQuotasWorks 3 (by decide) (by decide) (by decide)

end PhalaCore.Keeper
