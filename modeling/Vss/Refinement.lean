import Vss.Sequential
/-!
# Refinement — `PostgresBackendImpl` is the sequential description

The code executes every statement of a batch, whatever the row counts, and only then looks for a zero in
`batch_results`; the specification stops at the first operation that affects no row.  Each statement is the
operation of its record (`executePutObjectQuery_eq`, `executeDeleteObjectQuery_eq`), a loop under a healthy backing
store finds a zero exactly when the operations stop at one (`executeEach_noFaults`), and failures only cut a loop
short at its first failing statement (`executeEach_eq`).  So `put` is `putUnder` and `delete` is `deleteUnder`
under every pattern of failures (`put_eq_putUnder`, `delete_eq_deleteUnder`).
-/
namespace Vss

/-- The operation a put record's statement performs. -/
def WriteOp.ofPut (r : VssDbRecord) : WriteOp := .write r.compositeKey r.value r.version

/-- The operation a delete record's statement performs. -/
def WriteOp.ofDelete (r : VssDbRecord) : WriteOp := .delete r.compositeKey r.version

theorem executePutObjectQuery_eq (r : VssDbRecord) (t : VssDb) :
    executePutObjectQuery r t = statementResult t ((WriteOp.ofPut r).apply t) := by
  unfold executePutObjectQuery executeNonConditionalUpsert executeConditionalInsert executeConditionalUpdate
    VssDb.modify WriteOp.apply VssDb.update
  simp only [WriteOp.ofPut, WriteOp.key, WriteOp.effect]
  cases t.get r.compositeKey <;> split_ifs <;> simp_all

theorem executeDeleteObjectQuery_eq (r : VssDbRecord) (t : VssDb) :
    executeDeleteObjectQuery r t = statementResult t ((WriteOp.ofDelete r).apply t) := by
  unfold executeDeleteObjectQuery executeNonConditionalDelete executeConditionalDelete VssDb.modify WriteOp.apply
    VssDb.update
  simp only [WriteOp.ofDelete, WriteOp.key, WriteOp.effect]
  cases t.get r.compositeKey <;> split_ifs <;> simp_all

theorem writeSet_eq (userToken : String) (request : PutObjectRequest) :
    writeSet userToken request = (vssPutRecords userToken request).map WriteOp.ofPut ++
      (vssDeleteRecords userToken request).map WriteOp.ofDelete := by
  obtain ⟨s, g, ti, di⟩ := request
  cases g <;> simp [writeSet, vssPutRecords, vssDeleteRecords, WriteOp.ofPut, WriteOp.ofDelete, buildVssRecord,
      VssDbRecord.compositeKey, Function.comp_def]

/-! ## The loops -/

section Loop

variable (query : VssDbRecord → VssDb → VssDb × Nat) (toOp : VssDbRecord → WriteOp)

/-- **A loop under a healthy backing store**: it runs to the end, and it has a zero among its row counts exactly
when the operations, applied in order, stop at one; otherwise it ends on their result. -/
theorem executeEach_noFaults (hq : ∀ r t, query r t = statementResult t ((toOp r).apply t)) :
    ∀ (i : Nat) (rs : List VssDbRecord) (t : VssDb), ∃ ns t', executeEach noFaults query i rs t = .ok (ns, t') ∧
      applyAll (rs.map toOp) t = if 0 ∈ ns then none else some t'
  | _, [], t => ⟨[], t, rfl, rfl⟩
  | i, r :: rs, t => by
    cases h : (toOp r).apply t with
    | none =>
      obtain ⟨ns, t', he, -⟩ := executeEach_noFaults hq (i + 1) rs t
      refine ⟨0 :: ns, t', ?_, by simp [applyAll, h]⟩
      simp [executeEach, hq, h, statementResult, he]
    | some t₁ =>
      obtain ⟨ns, t', he, ha⟩ := executeEach_noFaults hq (i + 1) rs t₁
      refine ⟨1 :: ns, t', ?_, by simpa [applyAll, h] using ha⟩
      simp [executeEach, hq, h, statementResult, he]

/-- **Failures only cut a loop short**, at its first failing statement. -/
theorem executeEach_eq (f : Faults) : ∀ (i : Nat) (rs : List VssDbRecord) (t : VssDb),
    executeEach f query i rs t = statementsCall f i rs.length >>= fun _ => executeEach noFaults query i rs t
  | _, [], _ => rfl
  | i, r :: rs, t => by
    simp only [executeEach, List.length_cons, statementsCall, backendCall, noFaults_failure]
    cases f.failure (.statement i) with
    | some e => rfl
    | none =>
      rw [executeEach_eq f (i + 1) rs]
      cases statementsCall f (i + 1) rs.length <;> rfl

end Loop

theorem statementsCall_add (f : Faults) (i m n : Nat) :
    statementsCall f i (m + n) = statementsCall f i m >>= fun _ => statementsCall f (i + m) n := by
  induction m generalizing i with
  | zero => simp only [Nat.zero_add, Nat.add_zero, statementsCall, except_ok_bind]
  | succ m ih =>
    rw [Nat.add_right_comm, statementsCall, statementsCall, ih, Nat.add_assoc, Nat.add_comm 1 m]
    cases backendCall f (.statement i) "Database operation failed. " <;> rfl

theorem putTransaction_noFaults (t : VssDb) (P D : List VssDbRecord) :
    ∃ ns t', putTransaction noFaults t P D = .ok (ns, t') ∧
      applyAll (P.map WriteOp.ofPut ++ D.map WriteOp.ofDelete) t = if 0 ∈ ns then none else some t' := by
  obtain ⟨ns₁, t₁, h₁, a₁⟩ := executeEach_noFaults _ _ executePutObjectQuery_eq 0 P t
  obtain ⟨ns₂, t₂, h₂, a₂⟩ := executeEach_noFaults _ _ executeDeleteObjectQuery_eq P.length D t₁
  refine ⟨ns₁ ++ ns₂, t₂, by simp [putTransaction, h₁, h₂], ?_⟩
  rw [applyAll_append, a₁]
  by_cases z : 0 ∈ ns₁ <;> simp [z, a₂]

theorem putTransaction_eq (f : Faults) (t : VssDb) (P D : List VssDbRecord) :
    putTransaction f t P D =
      transactionCalls f (P.length + D.length) >>= fun _ => putTransaction noFaults t P D := by
  obtain ⟨ns₁, t₁, h₁, -⟩ := executeEach_noFaults _ _ executePutObjectQuery_eq 0 P t
  obtain ⟨ns₂, t₂, h₂, -⟩ := executeEach_noFaults _ _ executeDeleteObjectQuery_eq P.length D t₁
  simp only [putTransaction, transactionCalls, executeEach_eq _ f, statementsCall_add, backendCall_noFaults,
    except_ok_unit_bind, except_ok_bind, Nat.zero_add, h₁]
  cases backendCall f (.connection 0) "Connection error: " <;> simp only [except_ok_unit_bind, except_error_bind]
  cases backendCall f .transactionStart "Transaction start error: " <;>
    simp only [except_ok_unit_bind, except_error_bind]
  cases statementsCall f 0 P.length <;> simp only [except_ok_bind, except_error_bind]
  cases statementsCall f P.length D.length <;> simp only [except_ok_bind, except_error_bind, h₂]

/-! ## `put` -/

/-- **`put` is its sequential description under every pattern of failures.** -/
theorem put_eq_putUnder (f : Faults) (t : VssDb) (userToken : String) (request : PutObjectRequest) :
    put f t userToken request = putUnder f t userToken request := by
  unfold put putUnder
  split_ifs
  · rfl
  obtain ⟨ns, t', h, ha⟩ := putTransaction_noFaults t (vssPutRecords userToken request)
    (vssDeleteRecords userToken request)
  rw [putTransaction_eq, writeSet_eq, List.length_append, List.length_map, List.length_map, h, ha]
  cases transactionCalls f _ with
  | error e => rfl
  | ok _ => by_cases z : 0 ∈ ns <;> simp [z]

theorem put_noFaults (t : VssDb) (userToken : String) (request : PutObjectRequest) :
    put noFaults t userToken request = putSequential t userToken request := by
  rw [put_eq_putUnder, putUnder_noFaults]

/-- A `put` that returns `Ok` met no failure. -/
theorem put_eq_of_ok {f : Faults} {t : VssDb} {userToken : String} {request : PutObjectRequest}
    {x : PutObjectResponse} (h : (put f t userToken request).1 = .ok x) :
    put f t userToken request = putSequential t userToken request := by
  rw [put_eq_putUnder] at h ⊢
  unfold putUnder putSequential at *
  split_ifs at h ⊢
  cases hc : transactionCalls f (writeSet userToken request).length <;> simp only [hc] at h ⊢
  · cases h
  cases ha : applyAll (writeSet userToken request) t <;> simp only [ha] at h ⊢
  · simp [rollback] at h; split at h <;> cases h
  · exact commit_of_ok h

/-- **Nothing is committed on an error.** -/
theorem put_error_table {f : Faults} {t : VssDb} {userToken : String} {request : PutObjectRequest}
    {e : VssError} (h : (put f t userToken request).1 = .error e) : (put f t userToken request).2 = t := by
  rw [put_eq_putUnder] at h ⊢
  unfold putUnder at *
  split_ifs at h ⊢
  · rfl
  generalize transactionCalls f (writeSet userToken request).length = c at h ⊢
  cases c
  · rfl
  generalize applyAll (writeSet userToken request) t = a at h ⊢
  cases a
  · exact rollback_snd _
  · exact commit_of_error h

/-- **A `put` that answers `Ok` committed its whole write set, applied in order.** -/
theorem put_ok_applyAll {f : Faults} {t : VssDb} {userToken : String} {request : PutObjectRequest}
    {x : PutObjectResponse} (h : (put f t userToken request).1 = .ok x) :
    applyAll (writeSet userToken request) t = some (put f t userToken request).2 := by
  have he := put_eq_of_ok h
  rw [he] at h ⊢
  exact (putSequential_ok h).2

/-- **What a `put` does to the table**: nothing, or its write set applied in order. -/
theorem put_table (f : Faults) (t : VssDb) (userToken : String) (request : PutObjectRequest) :
    (put f t userToken request).2 = t ∨ applyAll (writeSet userToken request) t = some (put f t userToken request).2 := by
  cases hr : (put f t userToken request).1 with
  | error e => exact .inl (put_error_table hr)
  | ok x => exact .inr (put_ok_applyAll hr)

/-- **`put` is its write set applied one operation at a time, all or nothing.**  With a healthy backing store it
is `putSequential`; whatever fails, an `Ok` comes from a batch within the limit whose every operation affected its
row, with the sequential result committed, and an error leaves the table as it was. -/
theorem put_agrees_with_sequential (f : Faults) (t : VssDb) (userToken : String) (request : PutObjectRequest) :
    put noFaults t userToken request = putSequential t userToken request ∧
      (∀ x, (put f t userToken request).1 = .ok x →
        request.transactionItems.length + request.deleteItems.length ≤ maxPutRequestItemCount ∧
          applyAll (writeSet userToken request) t = some (put f t userToken request).2) ∧
      ∀ e, (put f t userToken request).1 = .error e → (put f t userToken request).2 = t := by
  refine ⟨put_noFaults t userToken request, fun x hx => ?_, fun _ => put_error_table⟩
  have he := put_eq_of_ok hx
  rw [he] at hx ⊢
  exact putSequential_ok hx

/-! ## `delete` -/

theorem deleteTransaction_eq (f : Faults) (t : VssDb) (r : VssDbRecord) :
    deleteTransaction f t r = transactionCalls f 1 >>= fun _ =>
      .ok ((statementResult t ((WriteOp.ofDelete r).apply t)).2, (statementResult t ((WriteOp.ofDelete r).apply t)).1) := by
  simp only [deleteTransaction, transactionCalls, statementsCall, executeDeleteObjectQuery_eq, Nat.zero_add]
  cases backendCall f (.connection 0) "Connection error: " <;> simp only [except_ok_unit_bind, except_error_bind]
  cases backendCall f .transactionStart "Transaction start error: " <;>
    simp only [except_ok_unit_bind, except_error_bind]
  cases backendCall f (.statement 0) "Database operation failed. " <;> rfl

/-- **`delete` is its sequential description under every pattern of failures.** -/
theorem delete_eq_deleteUnder (f : Faults) (t : VssDb) (userToken : String) (request : DeleteObjectRequest) :
    delete f t userToken request = deleteUnder f t userToken request := by
  unfold delete deleteUnder
  cases request.keyValue with
  | none => rfl
  | some kv =>
    simp only [deleteTransaction_eq]
    cases transactionCalls f 1 with
    | error e => rfl
    | ok _ =>
      simp only [except_ok_bind, WriteOp.ofDelete, buildVssRecord, VssDbRecord.compositeKey]
      cases (WriteOp.delete ⟨userToken, request.storeId, kv.key⟩ kv.version).apply t <;> rfl

/-- **What a `delete` does to the table**: nothing, or its one delete. -/
theorem delete_table (f : Faults) (t : VssDb) (userToken : String) (request : DeleteObjectRequest) :
    (delete f t userToken request).2 = t ∨
      applyAll (deleteWrites userToken request) t = some (delete f t userToken request).2 := by
  rw [delete_eq_deleteUnder]
  obtain ⟨s, _ | kv⟩ := request
  · exact .inl rfl
  dsimp only [deleteUnder]
  split
  · exact .inl rfl
  split
  · next t' h => exact (commit_snd _).imp id fun e => by simp [deleteWrites, applyAll, h, e]
  · exact .inl (rollback_snd _)

/-- A delete that affects its row changes the table. -/
theorem WriteOp.apply_delete_ne {k : CompositeKey} {v : I64} {t t' : VssDb}
    (h : (WriteOp.delete k v).apply t = some t') : t' ≠ t := by
  obtain ⟨o, ho, rfl⟩ := VssDb.update_eq_some.1 h
  obtain ⟨rfl, hs, -⟩ := WriteOp.effect_delete ho
  intro he
  have hk := congrArg (VssDb.get · (WriteOp.delete k v).key) he
  simp only [VssDb.get_write_self] at hk
  rw [← hk] at hs
  cases hs

/-! ## `delete` against a put of one delete item -/

/-- **`delete` is a put of its one item, but for the answer**: with a healthy backing store it answers `Ok`;
whatever fails, it leaves the table that put leaves; and it leaves the table as it was exactly when that put is
refused with `Conflict`.  Both make the same calls and run the same statement; only a delete that affects no row is
answered differently, rolled back with `Ok` by `delete` and with `Conflict` by the put. -/
theorem delete_as_put (t : VssDb) (userToken storeId : String) (kv : KeyValue) :
    (delete noFaults t userToken ⟨storeId, some kv⟩).1 = .ok {} ∧
      (∀ f, (delete f t userToken ⟨storeId, some kv⟩).2 = (put f t userToken ⟨storeId, none, [], [kv]⟩).2) ∧
      ((delete noFaults t userToken ⟨storeId, some kv⟩).2 = t ↔
        (put noFaults t userToken ⟨storeId, none, [], [kv]⟩).1 = .error putConflictError) := by
  have hl : (writeSet userToken ⟨storeId, none, [], [kv]⟩).length = 1 := rfl
  have hw : applyAll (writeSet userToken ⟨storeId, none, [], [kv]⟩) t =
      (WriteOp.delete ⟨userToken, storeId, kv.key⟩ kv.version).apply t := Option.bind_some _
  have hn : transactionCalls noFaults 1 = .ok () := rfl
  simp only [delete_eq_deleteUnder, put_eq_putUnder, deleteUnder, putUnder, hl, hw, hn, List.length_nil,
    List.length_singleton, maxPutRequestItemCount]
  cases h : (WriteOp.delete ⟨userToken, storeId, kv.key⟩ kv.version).apply t with
  | none =>
    refine ⟨rfl, fun f => ?_, by simp⟩
    cases transactionCalls f 1 <;> simp
  | some t' =>
    refine ⟨rfl, fun f => ?_, by simp [WriteOp.apply_delete_ne h]⟩
    cases transactionCalls f 1 with
    | error e => rfl
    | ok _ => exact commit_snd_congr _ _

end Vss
