import Vss.Runs
/-!
# LostUpdate — optimistic concurrency on one key

A conditional write expecting version `v` (an item with `v`, or `global_version = v` on the reserved key) succeeds
only over a row at `v`, or over no row for `0`.  When it commits it leaves the row above `v`: `1` after an insert,
`v + 1` after an update.  Until an unconditional write (`-1`) or a delete of the key brings it back, every later
operation on the key keeps it above `v` (`WriteOp.apply_above`), so a second writer expecting the same `v` is refused
with `Conflict` and changes nothing (`no_lost_update`).

This fails at `i64::MAX` only: the update saturates, leaves the row at `v`, and a second writer expecting `v`
succeeds as well (`lost_update_at_max`).  That row is reachable, one update at a time (`reachable_version`).
-/
namespace Vss

/-- The operations that can take `k` back below a version: a write with `-1` and a delete. -/
def WriteOp.Resets (k : CompositeKey) : WriteOp → Prop
  | .write k' _ v => k' = k ∧ v.val = -1
  | .delete k' _ => k' = k

/-- The row under `k` is there, at a version above `v`. -/
def Above (k : CompositeKey) (v : I64) (t : VssDb) : Prop := ∃ row, t.get k = some row ∧ v.val < row.version.val

/-- **Every operation but a reset keeps a row above `v`**: writes elsewhere leave it, and a write on it either
fails or raises it. -/
theorem WriteOp.apply_above {op : WriteOp} {k : CompositeKey} {v : I64} {t t' : VssDb} (hr : ¬ op.Resets k)
    (h : op.apply t = some t') (ha : Above k v t) : Above k v t' := by
  obtain ⟨o, ho, rfl⟩ := VssDb.update_eq_some.1 h
  by_cases hk : op.key = k
  · obtain ⟨row, hrow, hlt⟩ := ha
    cases op with
    | write k' value w =>
      simp only [WriteOp.key] at hk ho
      subst hk
      obtain ⟨row', rfl, -, hv⟩ := WriteOp.effect_write ho
      refine ⟨row', VssDb.get_write_self _ _ _, ?_⟩
      rcases hv with ⟨hw | ⟨-, hn⟩, -⟩ | ⟨-, -, hm, hv⟩
      · exact absurd ⟨rfl, hw⟩ hr
      · rw [hrow] at hn
        cases hn
      · rw [hrow, Option.map_some', Option.some.injEq] at hm
        rw [hv, ← hm]
        exact lt_of_lt_of_le hlt (SInt.le_saturatingAdd_one _)
    | delete k' w => exact absurd hk hr
  · obtain ⟨row, hrow, hlt⟩ := ha
    exact ⟨row, by rw [VssDb.get_write_ne _ _ (Ne.symm hk), hrow], hlt⟩

theorem applyAll_above {ops : List WriteOp} {k : CompositeKey} {v : I64} (hr : ∀ op ∈ ops, ¬ op.Resets k)
    {t t' : VssDb} (h : applyAll ops t = some t') (ha : Above k v t) : Above k v t' :=
  applyAll_preserves (fun op _ _ hop h₁ => op.apply_above hop h₁) hr h ha

/-- **A conditional write that commits leaves its row above the version it expected**, unless that is `i64::MAX`. -/
theorem WriteOp.apply_write_above {k : CompositeKey} {value : List UInt8} {v : I64} {t t' : VssDb}
    (hv : v.val ≠ -1) (hmax : v.val ≠ 9223372036854775807) (h : (WriteOp.write k value v).apply t = some t') :
    Above k v t' := by
  obtain ⟨o, ho, rfl⟩ := VssDb.update_eq_some.1 h
  obtain ⟨row', rfl, -, hw⟩ := WriteOp.effect_write ho
  refine ⟨row', VssDb.get_write_self _ _ _, ?_⟩
  rcases hw with ⟨hw | ⟨h0, -⟩, hr⟩ | ⟨-, -, -, hr⟩
  · exact absurd hw hv
  · rw [hr, h0, val_initialRecordVersion]
    decide
  · rw [hr, SInt.val_saturatingAdd_one, if_neg hmax]
    exact Int.lt_succ _

/-- **A write expecting `v` over a row above `v` affects no row.** -/
theorem WriteOp.apply_write_blocked {k : CompositeKey} {value : List UInt8} {v : I64} {t : VssDb}
    (hv : v.val ≠ -1) (ha : Above k v t) : (WriteOp.write k value v).apply t = none := by
  obtain ⟨row, hrow, hlt⟩ := ha
  have hne : row.version ≠ v := fun h => by rw [h] at hlt; exact lt_irrefl _ hlt
  rw [WriteOp.apply, VssDb.update_eq_none]
  simp only [WriteOp.key, hrow, WriteOp.effect, hv, if_false, Option.map_some', Option.some.injEq, hne]
  split_ifs <;> simp_all

/-- **No lost update**: once a put with a write on `k` expecting `v` has committed, and neither the rest of its write
set nor any request after it resets `k`, a put whose write set reaches a write on `k` expecting the same `v`, with no
reset of `k` before it, is refused with `Conflict` and changes nothing; under any failures it changes nothing and does
not answer `Ok`.  This holds for every `v` but the sentinel `-1` and `i64::MAX`. -/
theorem no_lost_update {f₁ : Faults} {t t' : VssDb} {u₁ u₂ : String} {r₁ r₂ : PutObjectRequest}
    {x : PutObjectResponse} {k : CompositeKey} {v : I64} {value₁ value₂ : List UInt8}
    {pre₁ post₁ pre₂ post₂ : List WriteOp} (hv : v.val ≠ -1) (hmax : v.val ≠ 9223372036854775807)
    (h₁ : (put f₁ t u₁ r₁).1 = .ok x) (hs₁ : writeSet u₁ r₁ = pre₁ ++ .write k value₁ v :: post₁)
    (hpost : ∀ op ∈ post₁, ¬ op.Resets k)
    (hrun : Reaches (fun q => ∀ op ∈ q.writes, ¬ op.Resets k) (put f₁ t u₁ r₁).2 t')
    (hs₂ : writeSet u₂ r₂ = pre₂ ++ .write k value₂ v :: post₂) (hpre : ∀ op ∈ pre₂, ¬ op.Resets k)
    (hsize : r₂.transactionItems.length + r₂.deleteItems.length ≤ maxPutRequestItemCount) :
    put noFaults t' u₂ r₂ = (.error putConflictError, t') ∧
      ∀ f, (put f t' u₂ r₂).2 = t' ∧ ∀ y, (put f t' u₂ r₂).1 ≠ .ok y := by
  have ha := put_ok_applyAll h₁
  rw [hs₁, applyAll_append] at ha
  obtain ⟨ta, -, hb⟩ := Option.bind_eq_some.1 ha
  simp only [applyAll, Option.bind_eq_some] at hb
  obtain ⟨tb, hb, hc⟩ := hb
  have above : Above k v t' :=
    hrun.invariant (applyAll_above hpost hc (WriteOp.apply_write_above hv hmax hb))
      fun f q _ hq => q.exec_preserves (fun op _ _ hop h₁ => op.apply_above hop h₁) f hq
  have blocked : applyAll (writeSet u₂ r₂) t' = none := by
    rw [hs₂, applyAll_append]
    cases hp : applyAll pre₂ t' with
    | none => rfl
    | some tc => simp [applyAll, WriteOp.apply_write_blocked hv (applyAll_above hpre hp above)]
  have hseq : putSequential t' u₂ r₂ = (.error putConflictError, t') := by
    simp [putSequential, blocked, not_lt.2 hsize]
  refine ⟨(put_noFaults t' u₂ r₂).trans hseq, fun f => ⟨?_, fun y hy => ?_⟩⟩
  · exact (put_table f t' u₂ r₂).resolve_right (by simp [blocked])
  · rw [put_eq_of_ok hy, hseq] at hy
    cases hy

theorem no_lost_update_insert :
    (0 : I64).val ≠ -1 ∧ (0 : I64).val ≠ 9223372036854775807 ∧
    (put noFaults VssDb.empty "u" ⟨"s", none, [⟨"a", [], 0⟩], []⟩).1 = .ok {} ∧
    writeSet "u" ⟨"s", none, [⟨"a", [], 0⟩], []⟩ = [] ++ .write ⟨"u", "s", "a"⟩ [] 0 :: [] ∧
    put noFaults (put noFaults VssDb.empty "u" ⟨"s", none, [⟨"a", [], 0⟩], []⟩).2 "u"
        ⟨"s", none, [⟨"a", [], 0⟩], []⟩ =
      (.error putConflictError, (put noFaults VssDb.empty "u" ⟨"s", none, [⟨"a", [], 0⟩], []⟩).2) ∧
    ∀ f, (put f (put noFaults VssDb.empty "u" ⟨"s", none, [⟨"a", [], 0⟩], []⟩).2 "u"
        ⟨"s", none, [⟨"a", [], 0⟩], []⟩).2 = (put noFaults VssDb.empty "u" ⟨"s", none, [⟨"a", [], 0⟩], []⟩).2 ∧
      ∀ y, (put f (put noFaults VssDb.empty "u" ⟨"s", none, [⟨"a", [], 0⟩], []⟩).2 "u"
        ⟨"s", none, [⟨"a", [], 0⟩], []⟩).1 ≠ .ok y :=
  have h₁ : (put noFaults VssDb.empty "u" ⟨"s", none, [⟨"a", [], 0⟩], []⟩).1 = .ok {} := rfl
  have hs : writeSet "u" ⟨"s", none, [⟨"a", [], 0⟩], []⟩ = [] ++ .write ⟨"u", "s", "a"⟩ [] 0 :: [] := rfl
  ⟨by decide, by decide, h₁, hs,
    no_lost_update (by decide) (by decide) h₁ hs (fun _ h => nomatch h) .refl hs (fun _ h => nomatch h) (by decide)⟩

/-! ## At `i64::MAX` -/

/-- A table with one row, of an empty value at version `n + 1`. -/
def oneRow (k : CompositeKey) (n : Nat) : VssDb := VssDb.empty.write k (some ⟨[], SInt.saturate 64 (n + 1)⟩)

theorem val_version_oneRow {n : Nat} (hn : n < 9223372036854775807) :
    (SInt.saturate 64 ((n : Int) + 1)).val = n + 1 :=
  SInt.val_saturate_of_mem (by simp only [SInt.two_pow_63]; omega) (by simp only [SInt.two_pow_63]; omega)

/-- **Every version up to `i64::MAX` is reachable**: one item, put at `0` and then at its own version, over and over. -/
theorem reachable_version (userToken storeId key : String) :
    ∀ n : Nat, n < 9223372036854775807 → Reachable (oneRow ⟨userToken, storeId, key⟩ n)
  | 0, _ => by
    have h : (WriteOp.write ⟨userToken, storeId, key⟩ [] 0).apply VssDb.empty = some (oneRow ⟨userToken, storeId, key⟩ 0) := rfl
    have : Reachable ((WriteRequest.put userToken ⟨storeId, none, [⟨key, [], 0⟩], []⟩).exec noFaults
        VssDb.empty).2 := Reaches.step noFaults _ Reaches.refl trivial
    rwa [WriteRequest.exec, Prod.map_snd, id, put_single_item h] at this
  | n + 1, hn => by
    have hv := val_version_oneRow (n := n) (by omega)
    have h : (WriteOp.write ⟨userToken, storeId, key⟩ [] (SInt.saturate 64 (n + 1))).apply
        (oneRow ⟨userToken, storeId, key⟩ n) = some (oneRow ⟨userToken, storeId, key⟩ (n + 1)) := by
      have h₁ : (SInt.saturate 64 ((n : Int) + 1)).val ≠ -1 := by rw [hv]; omega
      have h₀ : (SInt.saturate 64 ((n : Int) + 1)).val ≠ 0 := by rw [hv]; omega
      have hne : (SInt.saturate 64 ((n : Int) + 1)).val ≠ 9223372036854775807 := by rw [hv]; omega
      have hs : (SInt.saturate 64 ((n : Int) + 1)).saturatingAdd 1 = SInt.saturate 64 (((n + 1 : Nat) : Int) + 1) :=
        SInt.ext_val (by
          rw [SInt.val_saturatingAdd_one, if_neg hne, hv, val_version_oneRow (n := n + 1) (by omega)]
          omega)
      simp [WriteOp.apply, VssDb.update, oneRow, WriteOp.key, WriteOp.effect, h₁, h₀, hs, VssDb.write_write]
    have : Reachable ((WriteRequest.put userToken ⟨storeId, none, [⟨key, [], SInt.saturate 64 (n + 1)⟩], []⟩).exec
        noFaults (oneRow ⟨userToken, storeId, key⟩ n)).2 :=
      Reaches.step noFaults _ (reachable_version userToken storeId key n (by omega)) trivial
    rwa [WriteRequest.exec, Prod.map_snd, id, put_single_item h] at this

/-- **At `i64::MAX` an update is lost**: in a reachable table with a row at `i64::MAX`, a put expecting `i64::MAX`
commits and leaves the row as it was, so a second one expecting the same version commits as well. -/
theorem lost_update_at_max :
    Reachable (oneRow ⟨"u", "s", "a"⟩ 9223372036854775806) ∧
    put noFaults (oneRow ⟨"u", "s", "a"⟩ 9223372036854775806) "u" ⟨"s", none, [⟨"a", [], SInt.maxValue 64⟩], []⟩ =
      (.ok {}, oneRow ⟨"u", "s", "a"⟩ 9223372036854775806) ∧
    (put noFaults (put noFaults (oneRow ⟨"u", "s", "a"⟩ 9223372036854775806) "u"
      ⟨"s", none, [⟨"a", [], SInt.maxValue 64⟩], []⟩).2 "u" ⟨"s", none, [⟨"a", [], SInt.maxValue 64⟩], []⟩).1 = .ok {} :=
  have h : put noFaults (oneRow ⟨"u", "s", "a"⟩ 9223372036854775806) "u"
      ⟨"s", none, [⟨"a", [], SInt.maxValue 64⟩], []⟩ = (.ok {}, oneRow ⟨"u", "s", "a"⟩ 9223372036854775806) :=
    put_single_item (by
      simp only [WriteOp.apply, VssDb.update, oneRow, WriteOp.key, VssDb.get_write_self, VssDb.write_write]
      rfl)
  ⟨reachable_version "u" "s" "a" _ (by decide), h, by rw [h]; exact congrArg Prod.fst h⟩

end Vss
