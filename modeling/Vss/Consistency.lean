import Vss.Listing
/-!
# Consistency — what `get` reads after a write

A statement that affects its row leaves there a row that depends on the statement alone: the written value at
`INITIAL_RECORD_VERSION` for an upsert or an insert, one above the expected version for an update, and no row for a
delete (`WriteOp.effect_committedRow`).  So after a put that answers `Ok`, each key holds what the last operation of
the write set on it left, whatever was there before, and `get` reads it back (`put_then_get`).

A delete that answers `Ok`, committed or rolled back, leaves no row at the version it named, and none at all for
`-1` (`delete_ok_no_row`); so the same delete sent again finds nothing to delete, changes nothing and is answered
`Ok` again (`delete_twice`).
-/
namespace Vss

/-- The row an operation that affects its row leaves there: the written value at `INITIAL_RECORD_VERSION` for `-1`
and `0`, one above the expected version (saturating) otherwise; no row for a delete. -/
def WriteOp.committedRow : WriteOp → Option Row
  | .write _ value v => some ⟨value, if v.val = -1 ∨ v.val = 0 then initialRecordVersion else v.saturatingAdd 1⟩
  | .delete _ _ => none

/-- **What an operation that affects its row leaves there depends on the operation alone.** -/
theorem WriteOp.effect_committedRow {op : WriteOp} {row o : Option Row} (h : op.effect row = some o) :
    o = op.committedRow := by
  cases op with
  | write k value v =>
    simp only [WriteOp.effect] at h
    by_cases h₁ : v.val = -1
    · rw [if_pos h₁] at h
      cases h
      simp [WriteOp.committedRow, h₁]
    · rw [if_neg h₁] at h
      by_cases h₂ : v.val = 0
      · rw [if_pos h₂] at h
        split_ifs at h
        cases h
        simp [WriteOp.committedRow, h₂]
      · rw [if_neg h₂] at h
        split_ifs at h
        cases h
        simp [WriteOp.committedRow, h₁, h₂]
  | delete k v => exact (WriteOp.effect_delete h).1

/-- **After a batch that ran to the end, a key holds what the last operation on it left.** -/
theorem applyAll_get_last {pre post : List WriteOp} {op : WriteOp} (hpost : ∀ o ∈ post, o.key ≠ op.key)
    {t t' : VssDb} (h : applyAll (pre ++ op :: post) t = some t') : t'.get op.key = op.committedRow := by
  rw [applyAll_append] at h
  obtain ⟨t₁, -, h₁⟩ := Option.bind_eq_some.1 h
  simp only [applyAll, Option.bind_eq_some] at h₁
  obtain ⟨t₂, h₂, h₃⟩ := h₁
  obtain ⟨o, ho, rfl⟩ := VssDb.update_eq_some.1 h₂
  rw [applyAll_frame hpost h₃, VssDb.get_write_self, WriteOp.effect_committedRow ho]

/-! ## A put, then `get` -/

/-- **Read your writes**: after a put that answers `Ok`, whatever failed on the way, the key of an operation of its
write set that no later operation names holds what that operation left, whatever it held before; `get` reads back
the written value at `INITIAL_RECORD_VERSION` (for `-1` and `0`) or one above the expected version, and after a
delete `NoSuchKey`, or the empty record at version `0` for the reserved key. -/
theorem put_then_get {f : Faults} {t : VssDb} {userToken : String} {request : PutObjectRequest}
    {x : PutObjectResponse} (h : (put f t userToken request).1 = .ok x) {pre post : List WriteOp} {op : WriteOp}
    (hs : writeSet userToken request = pre ++ op :: post) (hpost : ∀ o ∈ post, o.key ≠ op.key) :
    (put f t userToken request).2.get op.key = op.committedRow ∧
      (∀ key value v, op = .write ⟨userToken, request.storeId, key⟩ value v →
        get noFaults (put f t userToken request).2 userToken ⟨request.storeId, key⟩ =
          .ok ⟨some ⟨key, value, if v.val = -1 ∨ v.val = 0 then initialRecordVersion else v.saturatingAdd 1⟩⟩) ∧
      ∀ key v, op = .delete ⟨userToken, request.storeId, key⟩ v →
        get noFaults (put f t userToken request).2 userToken ⟨request.storeId, key⟩ =
          if key = globalVersionKey then .ok ⟨some ⟨globalVersionKey, [], 0⟩⟩
          else .error (.noSuchKeyError "Requested key not found.") := by
  have ha := put_ok_applyAll h
  rw [hs] at ha
  have hrow := applyAll_get_last hpost ha
  refine ⟨hrow, fun key value v hop => ?_, fun key v hop => ?_⟩
  all_goals
    subst hop
    rw [get_noFaults]
    dsimp only [WriteOp.key] at hrow ⊢
    rw [hrow]
    rfl

theorem put_then_get_insert :
    (put noFaults VssDb.empty "u" ⟨"s", none, [⟨"a", [1], 0⟩], []⟩).1 = .ok {} ∧
      writeSet "u" ⟨"s", none, [⟨"a", [1], 0⟩], []⟩ = [] ++ WriteOp.write ⟨"u", "s", "a"⟩ [1] 0 :: [] ∧
      (∀ o ∈ ([] : List WriteOp), o.key ≠ (WriteOp.write ⟨"u", "s", "a"⟩ [1] 0).key) ∧
      ((put noFaults VssDb.empty "u" ⟨"s", none, [⟨"a", [1], 0⟩], []⟩).2.get (WriteOp.write ⟨"u", "s", "a"⟩ [1] 0).key =
          (WriteOp.write ⟨"u", "s", "a"⟩ [1] 0).committedRow ∧
        (∀ key value v, WriteOp.write ⟨"u", "s", "a"⟩ [1] 0 = .write ⟨"u", "s", key⟩ value v →
          get noFaults (put noFaults VssDb.empty "u" ⟨"s", none, [⟨"a", [1], 0⟩], []⟩).2 "u" ⟨"s", key⟩ =
            .ok ⟨some ⟨key, value, if v.val = -1 ∨ v.val = 0 then initialRecordVersion else v.saturatingAdd 1⟩⟩) ∧
        ∀ key v, WriteOp.write ⟨"u", "s", "a"⟩ [1] 0 = .delete ⟨"u", "s", key⟩ v →
          get noFaults (put noFaults VssDb.empty "u" ⟨"s", none, [⟨"a", [1], 0⟩], []⟩).2 "u" ⟨"s", key⟩ =
            if key = globalVersionKey then .ok ⟨some ⟨globalVersionKey, [], 0⟩⟩
            else .error (.noSuchKeyError "Requested key not found.")) :=
  have h : (put noFaults VssDb.empty "u" ⟨"s", none, [⟨"a", [1], 0⟩], []⟩).1 = .ok {} := rfl
  have hs : writeSet "u" ⟨"s", none, [⟨"a", [1], 0⟩], []⟩ = [] ++ WriteOp.write ⟨"u", "s", "a"⟩ [1] 0 :: [] := rfl
  have hpost : ∀ o ∈ ([] : List WriteOp), o.key ≠ (WriteOp.write ⟨"u", "s", "a"⟩ [1] 0).key := fun _ hm => nomatch hm
  ⟨h, hs, hpost, put_then_get h hs hpost⟩

/-! ## A delete, then again -/

/-- A delete that answers `Ok` leaves its key as its statement finds nothing to delete there. -/
theorem delete_ok_effect {f : Faults} {t : VssDb} {userToken storeId : String} {kv : KeyValue}
    {y : DeleteObjectResponse} (h : (delete f t userToken ⟨storeId, some kv⟩).1 = .ok y) :
    (WriteOp.delete ⟨userToken, storeId, kv.key⟩ kv.version).effect
      ((delete f t userToken ⟨storeId, some kv⟩).2.get ⟨userToken, storeId, kv.key⟩) = none := by
  rw [delete_eq_deleteUnder] at h ⊢
  dsimp only [deleteUnder] at h ⊢
  generalize transactionCalls f 1 = c at h ⊢
  cases c with
  | error e => cases h
  | ok _ =>
    dsimp only at h ⊢
    generalize ha : (WriteOp.delete ⟨userToken, storeId, kv.key⟩ kv.version).apply t = a at h ⊢
    cases a with
    | none =>
      rw [rollback_snd]
      exact VssDb.update_eq_none.1 ha
    | some t' =>
      dsimp only at h ⊢
      rw [commit_of_ok h]
      obtain ⟨o, ho, rfl⟩ := VssDb.update_eq_some.1 ha
      simp [(WriteOp.effect_delete ho).1, WriteOp.key, WriteOp.effect]

/-- A delete on a table where it finds nothing to delete leaves it, and answers `Ok` when the backing store does. -/
theorem delete_of_effect_none (f : Faults) {t : VssDb} {userToken storeId : String} {kv : KeyValue}
    (he : (WriteOp.delete ⟨userToken, storeId, kv.key⟩ kv.version).effect (t.get ⟨userToken, storeId, kv.key⟩) = none) :
    (delete f t userToken ⟨storeId, some kv⟩).2 = t ∧ (delete noFaults t userToken ⟨storeId, some kv⟩).1 = .ok {} := by
  have ha : (WriteOp.delete ⟨userToken, storeId, kv.key⟩ kv.version).apply t = none := VssDb.update_eq_none.2 he
  rw [delete_eq_deleteUnder, delete_eq_deleteUnder]
  dsimp only [deleteUnder]
  refine ⟨?_, by rw [ha]; rfl⟩
  cases transactionCalls f 1 with
  | error e => rfl
  | ok _ =>
    dsimp only
    rw [ha, rollback_snd]

/-- **A delete sent again changes nothing**: with a healthy backing store it is answered as the first and leaves the
table the first left; under any failures, once the first was answered `Ok`, the second leaves that table. -/
theorem delete_twice (t : VssDb) (userToken : String) (request : DeleteObjectRequest) :
    delete noFaults (delete noFaults t userToken request).2 userToken request =
        ((delete noFaults t userToken request).1, (delete noFaults t userToken request).2) ∧
      ∀ f₁ f₂ y, (delete f₁ t userToken request).1 = .ok y →
        (delete f₂ (delete f₁ t userToken request).2 userToken request).2 = (delete f₁ t userToken request).2 := by
  obtain ⟨storeId, _ | kv⟩ := request
  · exact ⟨rfl, fun _ _ _ _ => rfl⟩
  have h₁ : (delete noFaults t userToken ⟨storeId, some kv⟩).1 = .ok {} := by
    rw [delete_eq_deleteUnder]
    dsimp only [deleteUnder]
    cases (WriteOp.delete ⟨userToken, storeId, kv.key⟩ kv.version).apply t <;> rfl
  obtain ⟨h₂, h₃⟩ := delete_of_effect_none noFaults (delete_ok_effect h₁)
  refine ⟨?_, fun f₁ f₂ y h => (delete_of_effect_none f₂ (delete_ok_effect h)).1⟩
  exact Prod.ext (h₃.trans h₁.symm) h₂

end Vss
