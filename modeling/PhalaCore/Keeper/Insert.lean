import PhalaCore.Keeper.Quota


/-!
# Raising one weight of the keeper

`ContractsKeeper::insert` sets the contract under its address with `im::OrdMap::insert`, and
`apply_local_cache_quotas` then splits the cache with `calc_cache_quotas` over the new map. Here
`OrdMap.insert` is that update on the ascending entries, and for every map of fewer than `2^32`
entries (`calcCacheQuotas_insert_monotone`): setting a key to a weight at least its old one, or
adding it, does not lower its quota, and lowers or keeps every other key's quota.

The quota of a key is read from the result of `calc_cache_quotas` with `List.lookup`, `0` when
the key has none.

Within one keeper the quotas follow the weights (`heavier_contract_no_smaller_quota`): for every
map, also one whose `u64` weight sum wraps, each quota is `TOTAL_MEMORY * w` over the same total,
so a heavier contract never gets a smaller quota and the quotas keep the ratio of the weights up
to the rounding.

The keeper as a map (`get_insert`): after `insert` at an address, `get` finds the new contract
there and every other address unchanged, and `len` grows exactly when the address is new. Two
ascending entry lists with the same lookups are equal (`eq_of_lookup_eq`), so insertions at
distinct addresses commute, and inserting contracts with distinct addresses in any order builds
the same keeper and the same quotas (`insertion_order_irrelevant`).
-/

namespace PhalaCore.Keeper

variable {K V : Type} [LinearOrder K]

/-! ## Insertion into the ascending entries -/

/-- `im::OrdMap::insert` on the entries: the pair goes to its place in key order and replaces the
value of an equal key. -/
def insertEntry (k : K) (v : V) : List (K × V) → List (K × V)
  | [] => [(k, v)]
  | (k', v') :: es =>
    if k < k' then (k, v) :: (k', v') :: es
    else if k = k' then (k, v) :: es
    else (k', v') :: insertEntry k v es

theorem mem_insertEntry {k : K} {v : V} {es : List (K × V)} {x : K × V}
    (hx : x ∈ insertEntry k v es) : x = (k, v) ∨ x ∈ es := by
  induction es with
  | nil => simpa [insertEntry] using hx
  | cons e es ih =>
    obtain ⟨k', v'⟩ := e
    simp only [insertEntry] at hx
    split_ifs at hx <;> simp only [List.mem_cons] at hx ⊢
    · exact hx
    · exact hx.imp_right .inr
    · rcases hx with rfl | hx
      exacts [.inr (.inl rfl), (ih hx).imp_right .inr]

theorem insertEntry_ascending (k : K) (v : V) {es : List (K × V)}
    (hes : es.Pairwise (fun a b => a.1 < b.1)) :
    (insertEntry k v es).Pairwise (fun a b => a.1 < b.1) := by
  induction es with
  | nil => simp [insertEntry]
  | cons e es ih =>
    obtain ⟨k', v'⟩ := e
    rw [List.pairwise_cons] at hes
    simp only [insertEntry]
    split_ifs with hlt heq
    · refine List.Pairwise.cons (fun x hx => ?_) (List.pairwise_cons.2 hes)
      rcases List.mem_cons.1 hx with rfl | hx
      exacts [hlt, hlt.trans (hes.1 x hx)]
    · exact List.pairwise_cons.2 ⟨fun x hx => heq ▸ hes.1 x hx, hes.2⟩
    · have hgt : k' < k := lt_of_le_of_ne (not_lt.1 hlt) (Ne.symm heq)
      refine List.pairwise_cons.2 ⟨fun x hx => ?_, ih hes.2⟩
      rcases mem_insertEntry hx with rfl | hx
      exacts [hgt, hes.1 x hx]

theorem insertEntry_length_le (k : K) (v : V) (es : List (K × V)) :
    (insertEntry k v es).length ≤ es.length + 1 := by
  induction es with
  | nil => simp [insertEntry]
  | cons e es ih =>
    simp only [insertEntry]
    split_ifs <;> simp; omega

/-- `OrdMap::insert`: set `k` to `v`. -/
def OrdMap.insert (k : K) (v : V) (m : OrdMap K V) : OrdMap K V :=
  ⟨insertEntry k v m.entries, insertEntry_ascending k v m.ascending⟩

@[simp] theorem OrdMap.insert_entries (k : K) (v : V) (m : OrdMap K V) :
    (m.insert k v).entries = insertEntry k v m.entries := rfl

/-! ## Looking keys up -/

theorem lookup_insertEntry_self (k : K) (v : V) (es : List (K × V)) :
    (insertEntry k v es).lookup k = some v := by
  induction es with
  | nil => simp [insertEntry]
  | cons e es ih =>
    obtain ⟨k', v'⟩ := e
    simp only [insertEntry]
    split_ifs with hlt heq
    · simp
    · simp
    · simp only [List.lookup_cons, beq_false_of_ne heq, ih]

theorem lookup_insertEntry_of_ne {j k : K} (v : V) (es : List (K × V)) (hj : j ≠ k) :
    (insertEntry k v es).lookup j = es.lookup j := by
  induction es with
  | nil => simp [insertEntry, List.lookup_cons, beq_false_of_ne hj]
  | cons e es ih =>
    obtain ⟨k', v'⟩ := e
    simp only [insertEntry]
    split_ifs with hlt heq
    · simp [List.lookup_cons, beq_false_of_ne hj]
    · subst heq
      simp [List.lookup_cons, beq_false_of_ne hj]
    · simp only [List.lookup_cons, ih]

/-- Below the keys of an ascending list, no key is found. -/
theorem lookup_eq_none_of_lt {k : K} {es : List (K × V)} (hlt : ∀ x ∈ es, k < x.1) :
    es.lookup k = none :=
  List.lookup_eq_none_iff.2 fun p hp => bne_iff_ne.2 (hlt p hp).ne

/-- Setting `k` to `v` replaces the old value of `k` in any sum over the values. -/
theorem insertEntry_sum (f : V → Nat) (k : K) (v : V) {es : List (K × V)}
    (hes : es.Pairwise (fun a b => a.1 < b.1)) :
    ((insertEntry k v es).map fun e => f e.2).sum + ((es.lookup k).map f).getD 0 =
      (es.map fun e => f e.2).sum + f v := by
  induction es with
  | nil => simp [insertEntry]
  | cons e es ih =>
    obtain ⟨k', v'⟩ := e
    rw [List.pairwise_cons] at hes
    simp only [insertEntry]
    split_ifs with hlt heq
    · have hnone : ((k', v') :: es).lookup k = none :=
        lookup_eq_none_of_lt fun x hx => by
          rcases List.mem_cons.1 hx with rfl | hx
          exacts [hlt, hlt.trans (hes.1 x hx)]
      simp only [hnone, List.map_cons, List.sum_cons, Option.map_none', Option.getD_none]
      omega
    · subst heq
      simp only [List.lookup_cons_self, List.map_cons, List.sum_cons, Option.map_some',
        Option.getD_some]
      omega
    · simp only [List.lookup_cons, beq_false_of_ne heq, List.map_cons, List.sum_cons]
      have := ih hes.2
      omega

theorem le_sum_of_lookup {f : V → Nat} {k : K} {es : List (K × V)} {v : V}
    (h : es.lookup k = some v) : f v ≤ (es.map fun e => f e.2).sum := by
  obtain ⟨l₁, l₂, rfl, -⟩ := List.lookup_eq_some_iff.1 h
  exact List.le_sum_of_mem (List.mem_map.2 ⟨(k, v), by simp, rfl⟩)

theorem lookup_map_value {W : Type} (g : V → W) (j : K) (es : List (K × V)) :
    (es.map fun e => (e.1, g e.2)).lookup j = (es.lookup j).map g := by
  induction es with
  | nil => rfl
  | cons e es ih =>
    obtain ⟨k', v'⟩ := e
    by_cases hj : j = k'
    · subst hj
      simp
    · simp [List.lookup_cons, beq_false_of_ne hj, ih]

/-! ## Quotas after raising a weight -/

/-- A quota `T * w / max S 1` whose weight grows from `a` to `b` while the total grows by the
same amount does not shrink. -/
private theorem raised_quota_le (T a b S S' : Nat) (hab : a ≤ b) (haS : a ≤ S)
    (hsum : S' + a = S + b) : T * a / max S 1 ≤ T * b / max S' 1 := by
  rcases Nat.eq_zero_or_pos a with rfl | ha
  · simp
  obtain ⟨δ, rfl⟩ := Nat.exists_eq_add_of_le hab
  obtain rfl : S' = S + δ := by omega
  rw [max_eq_left (by omega : 1 ≤ S), max_eq_left (by omega : 1 ≤ S + δ),
    Nat.le_div_iff_mul_le (by omega)]
  refine Nat.le_of_mul_le_mul_right ?_ (by omega : 0 < S)
  -- cross-multiplied: `a * (S + δ) ≤ (a + δ) * S` since `a ≤ S`
  calc T * a / S * (S + δ) * S = T * a / S * S * (S + δ) := Nat.mul_right_comm ..
    _ ≤ T * a * (S + δ) := Nat.mul_le_mul_right _ (Nat.div_mul_le_self _ _)
    _ = T * (a * S + a * δ) := by rw [Nat.mul_assoc, Nat.mul_add]
    _ ≤ T * (a * S + S * δ) := Nat.mul_le_mul_left T (Nat.add_le_add_left
      (Nat.mul_le_mul_right δ haS) _)
    _ = T * (a + δ) * S := by rw [Nat.mul_assoc, Nat.add_mul, Nat.mul_comm S δ]

/-- The quota of `j` in `calc_cache_quotas`, `0` when `j` has none. -/
theorem quota_lookup (m : OrdMap K UInt32) (hlen : m.entries.length ≤ 2 ^ 32) (j : K) :
    (calcCacheQuotas m).lookup j =
      (m.entries.lookup j).map fun w => totalMemory * w.toNat / max (weights m).sum 1 := by
  rw [calcCacheQuotas_eq m hlen]
  exact lookup_map_value (fun w : UInt32 => totalMemory * w.toNat / max (weights m).sum 1) j _

/-- Setting `k` to a weight at least its old one (or adding it) keeps or raises the quota of `k`
and keeps or lowers the quota of every other key. -/
theorem calcCacheQuotas_insert_monotone (m : OrdMap K UInt32) (k : K) (w' : UInt32)
    (hlen : m.entries.length < 2 ^ 32) (hw : ∀ w, m.entries.lookup k = some w → w ≤ w') :
    ((calcCacheQuotas m).lookup k).getD 0 ≤ ((calcCacheQuotas (m.insert k w')).lookup k).getD 0 ∧
    ∀ j, j ≠ k →
      ((calcCacheQuotas (m.insert k w')).lookup j).getD 0 ≤
        ((calcCacheQuotas m).lookup j).getD 0 := by
  have hlen' : (m.insert k w').entries.length ≤ 2 ^ 32 :=
    (insertEntry_length_le k w' m.entries).trans (by omega)
  have hsum : (weights (m.insert k w')).sum + ((m.entries.lookup k).map UInt32.toNat).getD 0 =
      (weights m).sum + w'.toNat :=
    insertEntry_sum UInt32.toNat k w' m.ascending
  have hold : ((m.entries.lookup k).map UInt32.toNat).getD 0 ≤ w'.toNat := by
    cases hk : m.entries.lookup k with
    | none => simp
    | some w => exact hw w hk
  refine ⟨?_, fun j hj => ?_⟩
  · rw [quota_lookup m (by omega), quota_lookup _ hlen', OrdMap.insert_entries,
      lookup_insertEntry_self]
    cases hk : m.entries.lookup k with
    | none => exact Nat.zero_le _
    | some w =>
      rw [hk] at hsum
      exact raised_quota_le _ _ _ _ _ (hw w hk) (le_sum_of_lookup hk) hsum
  · rw [quota_lookup m (by omega), quota_lookup _ hlen', OrdMap.insert_entries,
      lookup_insertEntry_of_ne _ _ hj]
    cases m.entries.lookup j with
    | none => exact le_rfl
    | some w => exact Nat.div_le_div_left (max_le_max (by omega) le_rfl) (by omega)

/-- Raising `foo` from `0` to `1` in the map of `little_quotas_works`. -/
theorem little_quotas_raise_foo :
    ((calcCacheQuotas littleQuotasWorks).lookup 1).getD 0 ≤
      ((calcCacheQuotas (littleQuotasWorks.insert 1 1)).lookup 1).getD 0 ∧
    ∀ j, j ≠ 1 → ((calcCacheQuotas (littleQuotasWorks.insert 1 1)).lookup j).getD 0 ≤
      ((calcCacheQuotas littleQuotasWorks).lookup j).getD 0 :=
  calcCacheQuotas_insert_monotone littleQuotasWorks 1 1 (by decide) fun w hw => by
    cases (show some (0 : UInt32) = some w from hw)
    decide

/-! ## Quotas follow the weights -/

/-- Ascending entries hold each key once. -/
theorem eq_of_mem_of_key_eq {es : List (K × V)} (hes : es.Pairwise (fun a b => a.1 < b.1))
    {a b : K × V} (ha : a ∈ es) (hb : b ∈ es) (hab : a.1 = b.1) : a = b := by
  induction es with
  | nil => cases ha
  | cons e es ih =>
    rw [List.pairwise_cons] at hes
    rcases List.mem_cons.1 ha with rfl | ha' <;> rcases List.mem_cons.1 hb with rfl | hb'
    · rfl
    · exact absurd (hes.1 b hb') (by rw [hab]; exact lt_irrefl _)
    · exact absurd (hes.1 a ha') (by rw [hab]; exact lt_irrefl _)
    · exact ih hes.2 ha' hb'

/-- The quota `calc_cache_quotas` gives the contract `c` at `k`: its weight against the `u64`
total, for every map, also one whose weight sum wraps. -/
theorem quota_of_mem {C : Type} [ToWeight C] (m : OrdMap K C) {k : K} {c : C} {q : Nat}
    (hc : (k, c) ∈ m.entries) (hq : (k, q) ∈ calcCacheQuotas m) :
    q = totalMemory * (ToWeight.toWeight c).toNat / max (sumU64 (weights m)) 1 := by
  obtain ⟨⟨k', c'⟩, he, hkq⟩ := List.mem_map.1 hq
  obtain ⟨rfl, rfl⟩ := Prod.mk.inj hkq
  obtain rfl := (Prod.mk.inj (eq_of_mem_of_key_eq m.ascending he hc rfl)).2
  rw [wrapU64, Nat.mod_eq_of_lt (product_lt c')]

/-- Two floors over one divisor keep the ratio of their numerators up to one unit:
`(T * a / D) * b < (T * b / D + 1) * a`. -/
theorem div_mul_lt_succ_div_mul (T a b D : Nat) (hD : 0 < D) (ha : 0 < a) :
    T * a / D * b < (T * b / D + 1) * a := by
  have hle : T * a / D * D ≤ T * a := Nat.div_mul_le_self _ _
  have hlt : T * b < D * (T * b / D + 1) := Nat.lt_mul_div_succ _ hD
  refine Nat.lt_of_mul_lt_mul_right (a := D) ?_
  calc T * a / D * b * D = T * a / D * D * b := Nat.mul_right_comm ..
    _ ≤ T * a * b := Nat.mul_le_mul_right _ hle
    _ = T * b * a := Nat.mul_right_comm ..
    _ < D * (T * b / D + 1) * a := Nat.mul_lt_mul_of_pos_right hlt ha
    _ = (T * b / D + 1) * a * D := by rw [Nat.mul_comm D, Nat.mul_right_comm]

/-- Whatever the number of contracts, also when the `u64` sum of the weights wraps, every quota is
`TOTAL_MEMORY * w` over one common total. So a heavier contract never gets a smaller quota, equal
weights get equal quotas, and the quotas keep the ratio of the weights up to the rounding: per
unit of weight, no contract gets a unit more than another. -/
theorem heavier_contract_no_smaller_quota {C : Type} [ToWeight C] (m : OrdMap K C) {k₁ k₂ : K}
    {c₁ c₂ : C} (h₁ : (k₁, c₁) ∈ m.entries) (h₂ : (k₂, c₂) ∈ m.entries) (q₁ q₂ : Nat)
    (hq₁ : (k₁, q₁) ∈ calcCacheQuotas m) (hq₂ : (k₂, q₂) ∈ calcCacheQuotas m) :
    let w₁ := (ToWeight.toWeight c₁).toNat
    let w₂ := (ToWeight.toWeight c₂).toNat
    (w₁ ≤ w₂ → q₁ ≤ q₂) ∧ (0 < w₁ → q₁ * w₂ < (q₂ + 1) * w₁) := by
  intro w₁ w₂
  rw [quota_of_mem m h₁ hq₁, quota_of_mem m h₂ hq₂]
  exact ⟨fun hw => Nat.div_le_div_right (Nat.mul_le_mul_left _ hw),
    div_mul_lt_succ_div_mul _ _ _ _ (by omega)⟩

/-- Three contracts of weights `1`, `3` and `3`. -/
def oneThreeThree : OrdMap Nat UInt32 := ⟨[(0, 1), (1, 3), (2, 3)], by decide⟩

/-- Of `20 MiB` over weights `1`, `3` and `3`, the lighter contract gets `2995931` bytes and the
two heavier ones `8987794` each; the ratio is three up to the rounding. -/
theorem one_three_three_quotas :
    ((0 : Nat), 2995931) ∈ calcCacheQuotas oneThreeThree ∧
      ((1 : Nat), 8987794) ∈ calcCacheQuotas oneThreeThree ∧
      ((2 : Nat), 8987794) ∈ calcCacheQuotas oneThreeThree ∧
      ((1 ≤ 3 → 2995931 ≤ 8987794) ∧ (0 < 1 → 2995931 * 3 < (8987794 + 1) * 1)) ∧
      ((3 ≤ 3 → 8987794 ≤ 8987794) ∧ (0 < 3 → 8987794 * 3 < (8987794 + 1) * 3)) :=
  ⟨by decide, by decide, by decide, heavier_contract_no_smaller_quota oneThreeThree
      (show ((0 : Nat), (1 : UInt32)) ∈ oneThreeThree.entries by decide)
      (show ((1 : Nat), (3 : UInt32)) ∈ oneThreeThree.entries by decide) 2995931 8987794
      (by decide) (by decide),
    heavier_contract_no_smaller_quota oneThreeThree
      (show ((1 : Nat), (3 : UInt32)) ∈ oneThreeThree.entries by decide)
      (show ((2 : Nat), (3 : UInt32)) ∈ oneThreeThree.entries by decide) 8987794 8987794
      (by decide) (by decide)⟩

/-! ## Looking contracts up after an insertion -/

/-- `ContractsKeeper::get`. -/
def OrdMap.get (m : OrdMap K V) (k : K) : Option V := m.entries.lookup k

/-- `ContractsKeeper::len`. -/
def OrdMap.len (m : OrdMap K V) : Nat := m.entries.length

theorem insertEntry_length (k : K) (v : V) {es : List (K × V)}
    (hes : es.Pairwise (fun a b => a.1 < b.1)) :
    (insertEntry k v es).length = es.length + if (es.lookup k).isSome then 0 else 1 := by
  induction es with
  | nil => rfl
  | cons e es ih =>
    obtain ⟨k', v'⟩ := e
    rw [List.pairwise_cons] at hes
    rcases lt_trichotomy k k' with hlt | rfl | hgt
    · have hnone : ((k', v') :: es).lookup k = none := lookup_eq_none_of_lt fun x hx => by
        rcases List.mem_cons.1 hx with rfl | hx
        exacts [hlt, hlt.trans (hes.1 x hx)]
      simp [insertEntry, hlt, hnone]
    · simp [insertEntry]
    · have hne : k ≠ k' := ne_of_gt hgt
      simp only [insertEntry, if_neg (not_lt.2 hgt.le), if_neg hne, List.length_cons, ih hes.2,
        List.lookup_cons, beq_false_of_ne hne]
      omega

/-- After `insert` of a contract at `k`, `get k` finds it, `get` of every other address is
unchanged, and `len` grew by one exactly when `k` held no contract before. -/
theorem get_insert (m : OrdMap K V) (k : K) (v : V) :
    (m.insert k v).get k = some v ∧ (∀ j, j ≠ k → (m.insert k v).get j = m.get j) ∧
      (m.insert k v).len = m.len + if (m.get k).isSome then 0 else 1 :=
  ⟨lookup_insertEntry_self k v _, fun _ hj => lookup_insertEntry_of_ne v _ hj,
    insertEntry_length k v m.ascending⟩

/-! ## The order of insertions -/

/-- Two ascending entry lists with the same lookups are equal. -/
theorem eq_of_lookup_eq {es es' : List (K × V)} (h : es.Pairwise (fun a b => a.1 < b.1))
    (h' : es'.Pairwise (fun a b => a.1 < b.1)) (hl : ∀ k, es.lookup k = es'.lookup k) :
    es = es' := by
  induction es generalizing es' with
  | nil =>
    cases es' with
    | nil => rfl
    | cons e' es' => simpa using (hl e'.1).symm
  | cons e es ih =>
    obtain ⟨k, v⟩ := e
    cases es' with
    | nil => simpa using hl k
    | cons e' es' =>
      obtain ⟨k', v'⟩ := e'
      rw [List.pairwise_cons] at h h'
      -- a key below every key of an ascending list is not found in it
      have hbelow : ∀ {a : K} {b : V} {l : List (K × V)}, (∀ x ∈ l, a < x.1) → ∀ j < a,
          ((a, b) :: l).lookup j = none := fun hl j hj => lookup_eq_none_of_lt fun x hx => by
        rcases List.mem_cons.1 hx with rfl | hx
        exacts [hj, hj.trans (hl x hx)]
      obtain rfl : k = k' := by
        rcases lt_trichotomy k k' with hlt | heq | hgt
        · simpa [hbelow h'.1 k hlt] using hl k
        · exact heq
        · simpa [hbelow h.1 k' hgt] using (hl k').symm
      obtain rfl : v = v' := by simpa using hl k
      refine congrArg _ (ih h.2 h'.2 fun j => ?_)
      by_cases hj : j = k
      · subst hj
        rw [lookup_eq_none_of_lt h.1, lookup_eq_none_of_lt h'.1]
      · simpa [List.lookup_cons, beq_false_of_ne hj] using hl j

/-- Two maps with the same lookups are the same map. -/
theorem OrdMap.ext_lookup {m m' : OrdMap K V} (h : ∀ k, m.entries.lookup k = m'.entries.lookup k) :
    m = m' := by
  obtain ⟨es, hes⟩ := m
  obtain ⟨es', hes'⟩ := m'
  obtain rfl := eq_of_lookup_eq hes hes' h
  rfl

/-- Insertions at distinct keys commute. -/
theorem OrdMap.insert_comm (m : OrdMap K V) {k k' : K} (v v' : V) (hk : k ≠ k') :
    (m.insert k v).insert k' v' = (m.insert k' v').insert k v := by
  refine OrdMap.ext_lookup fun j => ?_
  simp only [OrdMap.insert_entries]
  by_cases hj : j = k
  · subst hj
    rw [lookup_insertEntry_of_ne _ _ hk, lookup_insertEntry_self, lookup_insertEntry_self]
  · by_cases hj' : j = k'
    · subst hj'
      rw [lookup_insertEntry_self, lookup_insertEntry_of_ne _ _ hj, lookup_insertEntry_self]
    · simp only [lookup_insertEntry_of_ne _ _ hj, lookup_insertEntry_of_ne _ _ hj']

/-- `ContractsKeeper::insert` for each contract in turn, its address as the key. -/
def OrdMap.insertAll (m : OrdMap K V) (cs : List (K × V)) : OrdMap K V :=
  cs.foldl (fun m c => m.insert c.1 c.2) m

/-- Inserting contracts at distinct addresses in any order builds the same keeper, so
`apply_local_cache_quotas` applies the same quotas. -/
theorem insertion_order_irrelevant [ToWeight V] (m : OrdMap K V) (cs cs' : List (K × V))
    (hp : cs.Perm cs') (hnd : (cs.map Prod.fst).Nodup) :
    m.insertAll cs = m.insertAll cs' ∧
      calcCacheQuotas (m.insertAll cs) = calcCacheQuotas (m.insertAll cs') := by
  have heq : m.insertAll cs = m.insertAll cs' := hp.foldl_eq' (fun x hx y hy z => by
    by_cases hxy : x = y
    · rw [hxy]
    · exact OrdMap.insert_comm z x.2 y.2 fun hk => hxy (List.inj_on_of_nodup_map hnd hx hy hk)) m
  exact ⟨heq, congrArg calcCacheQuotas heq⟩

/-- `foo` and `bar` of `little_quotas_works` inserted in either order into an empty keeper. -/
theorem little_quotas_either_order :
    (⟨[], .nil⟩ : OrdMap Nat UInt32).insertAll [(1, 0), (0, 1)] =
        (⟨[], .nil⟩ : OrdMap Nat UInt32).insertAll [(0, 1), (1, 0)] ∧
      calcCacheQuotas ((⟨[], .nil⟩ : OrdMap Nat UInt32).insertAll [(1, 0), (0, 1)]) =
        calcCacheQuotas ((⟨[], .nil⟩ : OrdMap Nat UInt32).insertAll [(0, 1), (1, 0)]) :=
  insertion_order_irrelevant _ _ _ (by decide) (by decide)

end PhalaCore.Keeper
