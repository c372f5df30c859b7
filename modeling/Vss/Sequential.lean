import Vss.Store
/-!
# Sequential — a put as its write set applied one operation at a time

The specification's account of a batch (§4.1), over the write set in the code's order: `transaction_items`, then
the write of the global version on the reserved key, then `delete_items` (§4.1 lists the global-version write last;
`Order` says when that matters).  Each operation is applied to the table its predecessors left, and the first one
that affects no row aborts the batch with `Conflict`.  `WriteOp.effect` states one operation
in the specification's words and `putSequential` the batch.  `putUnder` and `deleteUnder` add the backing store's
failures: a failing call before or at a statement ends the request, and otherwise the write set's outcome decides
between a rollback and a commit, either of which can fail in turn.

Every operation changes only the row under its key and reads only that row (`applyAll_frame`, `applyAll_congr`),
which is what isolation and commutation rest on.
-/
namespace Vss

/-- One operation of a write set: a value written expecting a version, or a delete expecting one. -/
inductive WriteOp where
  | write (k : CompositeKey) (value : List UInt8) (version : I64)
  | delete (k : CompositeKey) (version : I64)

/-- The key an operation addresses. -/
def WriteOp.key : WriteOp → CompositeKey
  | .write k _ _ => k
  | .delete k _ => k

/-- **What one operation makes of the row under its key**, as the specification states it: the row it leaves
there (`none` for a delete), or `none` when it affects no row.  A write with `-1` always writes, with `0` only where
no row is, with any other version only over a row at that version, which it leaves one higher (saturating); a delete
with `-1` removes a row that is there, with any other version only a row at that version.  Inserted rows get
`INITIAL_RECORD_VERSION`. -/
def WriteOp.effect : WriteOp → Option Row → Option (Option Row)
  | .write _ value v, row =>
    if v.val = -1 then some (some ⟨value, initialRecordVersion⟩)
    else if v.val = 0 then (if row = none then some (some ⟨value, initialRecordVersion⟩) else none)
    else if row.map Row.version = some v then some (some ⟨value, v.saturatingAdd 1⟩) else none
  | .delete _ v, row =>
    if v.val = -1 then (if row.isSome then some none else none)
    else if row.map Row.version = some v then some none else none

/-- **What a write that affects its row leaves there**: a row with the written value, at `INITIAL_RECORD_VERSION`
for `-1`, and for `0` over no row; otherwise one above the expected version, over a row at that version. -/
theorem WriteOp.effect_write {k : CompositeKey} {value : List UInt8} {v : I64} {row o : Option Row}
    (h : (WriteOp.write k value v).effect row = some o) :
    ∃ row', o = some row' ∧ row'.value = value ∧
      ((v.val = -1 ∨ v.val = 0 ∧ row = none) ∧ row'.version = initialRecordVersion ∨
        v.val ≠ -1 ∧ v.val ≠ 0 ∧ row.map Row.version = some v ∧ row'.version = v.saturatingAdd 1) := by
  simp only [WriteOp.effect] at h
  by_cases h₁ : v.val = -1
  · rw [if_pos h₁] at h
    cases h
    exact ⟨_, rfl, rfl, .inl ⟨.inl h₁, rfl⟩⟩
  rw [if_neg h₁] at h
  by_cases h₂ : v.val = 0
  · rw [if_pos h₂] at h
    split_ifs at h with h₃
    cases h
    exact ⟨_, rfl, rfl, .inl ⟨.inr ⟨h₂, h₃⟩, rfl⟩⟩
  rw [if_neg h₂] at h
  split_ifs at h with h₃
  cases h
  exact ⟨_, rfl, rfl, .inr ⟨h₁, h₂, h₃, rfl⟩⟩

/-- **A delete that affects its row** removes a row that is there, at the expected version unless that is `-1`. -/
theorem WriteOp.effect_delete {k : CompositeKey} {v : I64} {row o : Option Row}
    (h : (WriteOp.delete k v).effect row = some o) :
    o = none ∧ row.isSome ∧ (v.val = -1 ∨ row.map Row.version = some v) := by
  simp only [WriteOp.effect] at h
  split_ifs at h with h₁ h₂ h₃ <;> cases h
  · exact ⟨rfl, h₂, .inl h₁⟩
  · cases row <;> simp_all

/-- One operation on the table its predecessors left; `none` when it affects no row. -/
def WriteOp.apply (op : WriteOp) (t : VssDb) : Option VssDb := t.update op.key op.effect

/-- The operations one after another, stopping at the first that affects no row. -/
def applyAll : List WriteOp → VssDb → Option VssDb
  | [], t => some t
  | op :: ops, t => (op.apply t).bind (applyAll ops)

/-- **A put's write set**, in the code's order: `transaction_items`, the global-version write, `delete_items`. -/
def writeSet (userToken : String) (request : PutObjectRequest) : List WriteOp :=
  request.transactionItems.map (fun kv => .write ⟨userToken, request.storeId, kv.key⟩ kv.value kv.version) ++
    (request.globalVersion.map fun g => WriteOp.write ⟨userToken, request.storeId, globalVersionKey⟩ [] g).toList ++
    request.deleteItems.map fun kv => .delete ⟨userToken, request.storeId, kv.key⟩ kv.version

/-- **`put` as the specification describes it**: `InvalidRequest` over the item limit; otherwise the write set
applied in order, committed when every operation affects a row and `Conflict` with the table unchanged when one
does not. -/
def putSequential (t : VssDb) (userToken : String) (request : PutObjectRequest) :
    Except VssError PutObjectResponse × VssDb :=
  if maxPutRequestItemCount < request.transactionItems.length + request.deleteItems.length then
    (.error putItemCountError, t)
  else
    match applyAll (writeSet userToken request) t with
    | some t' => (.ok {}, t')
    | none => (.error putConflictError, t)

/-- An `Ok` from `putSequential` is a batch within the limit whose write set ran to the end, committed. -/
theorem putSequential_ok {t : VssDb} {userToken : String} {request : PutObjectRequest} {x : PutObjectResponse}
    (h : (putSequential t userToken request).1 = .ok x) :
    request.transactionItems.length + request.deleteItems.length ≤ maxPutRequestItemCount ∧
      applyAll (writeSet userToken request) t = some (putSequential t userToken request).2 := by
  unfold putSequential at h ⊢
  split_ifs at h ⊢
  cases ha : applyAll (writeSet userToken request) t <;> simp_all

theorem applyAll_append (a b : List WriteOp) (t : VssDb) :
    applyAll (a ++ b) t = (applyAll a t).bind (applyAll b) := by
  induction a generalizing t with
  | nil => rfl
  | cons op a ih => cases h : op.apply t <;> simp [applyAll, h, ih]

/-- The write set of a standalone delete: its one key, under its version. -/
def deleteWrites (userToken : String) (request : DeleteObjectRequest) : List WriteOp :=
  request.keyValue.toList.map fun kv => .delete ⟨userToken, request.storeId, kv.key⟩ kv.version

/-! ## Under failures of the backing store -/

/-- The first of `n` statements numbered from `i` to fail, as the error the request ends with. -/
def statementsCall (f : Faults) : Nat → Nat → Except VssError Unit
  | _, 0 => .ok ()
  | i, n + 1 => backendCall f (.statement i) "Database operation failed. " >>= fun _ => statementsCall f (i + 1) n

/-- The calls of a transaction up to its last statement: a connection, the start, and `n` statements. -/
def transactionCalls (f : Faults) (n : Nat) : Except VssError Unit := do
  backendCall f (.connection 0) "Connection error: "
  backendCall f .transactionStart "Transaction start error: "
  statementsCall f 0 n

/-- **`put` as the specification describes it, under failures**: `InvalidRequest` over the item limit; a failure
up to the last statement; then the write set's outcome, committed, or rolled back with `Conflict`. -/
def putUnder (f : Faults) (t : VssDb) (userToken : String) (request : PutObjectRequest) :
    Except VssError PutObjectResponse × VssDb :=
  if maxPutRequestItemCount < request.transactionItems.length + request.deleteItems.length then
    (.error putItemCountError, t)
  else
    match transactionCalls f (writeSet userToken request).length with
    | .error e => (.error e, t)
    | .ok _ =>
      match applyAll (writeSet userToken request) t with
      | some t' => commit f t t' {}
      | none => rollback f t (.error putConflictError)

/-- **`delete` as the specification describes it, under failures**: `InvalidRequest` without a `key_value`; a
failure up to its statement; then its one delete, committed when it affects a row, rolled back with `Ok` when not. -/
def deleteUnder (f : Faults) (t : VssDb) (userToken : String) (request : DeleteObjectRequest) :
    Except VssError DeleteObjectResponse × VssDb :=
  match request.keyValue with
  | none => (.error (.invalidRequestError "key_value missing in DeleteObjectRequest"), t)
  | some kv =>
    match transactionCalls f 1 with
    | .error e => (.error e, t)
    | .ok _ =>
      match (WriteOp.delete ⟨userToken, request.storeId, kv.key⟩ kv.version).apply t with
      | some t' => commit f t t' {}
      | none => rollback f t (.ok {})

theorem putUnder_noFaults (t : VssDb) (userToken : String) (request : PutObjectRequest) :
    putUnder noFaults t userToken request = putSequential t userToken request := by
  have hs : ∀ i n, statementsCall noFaults i n = .ok () := fun i n => by
    induction n generalizing i <;> simp [statementsCall, *]
  unfold putUnder putSequential
  split_ifs
  · rfl
  simp only [transactionCalls, backendCall_noFaults, except_ok_bind, hs]
  split <;> rfl

/-! ## Locality -/

/-- Two tables agree on the keys `F`. -/
def AgreeOn (F : CompositeKey → Prop) (t t' : VssDb) : Prop := ∀ k, F k → t.get k = t'.get k

theorem AgreeOn.write {F : CompositeKey → Prop} {t t' : VssDb} (h : AgreeOn F t t') (k : CompositeKey)
    (o : Option Row) : AgreeOn F (t.write k o) (t'.write k o) := fun k' hk' => by
  rw [VssDb.get_write, VssDb.get_write]; split_ifs <;> simp [h k' hk']

/-- **An operation reads only its own row**: on tables that agree there, and wherever else it is asked, it has
the same outcome, and the tables it leaves agree again. -/
theorem WriteOp.apply_congr {F : CompositeKey → Prop} (op : WriteOp) (hk : F op.key) {t t' : VssDb}
    (h : AgreeOn F t t') : Option.Rel (AgreeOn F) (op.apply t) (op.apply t') := by
  unfold WriteOp.apply VssDb.update
  rw [h _ hk]
  cases op.effect (t'.get op.key) with
  | none => exact .none
  | some o => exact .some (h.write _ o)

theorem applyAll_congr {F : CompositeKey → Prop} : ∀ (ops : List WriteOp), (∀ op ∈ ops, F op.key) →
    ∀ {t t' : VssDb}, AgreeOn F t t' → Option.Rel (AgreeOn F) (applyAll ops t) (applyAll ops t')
  | [], _, _, _, h => .some h
  | op :: ops, hF, t, t', h => by
    have hr := op.apply_congr (hF op (List.mem_cons_self _ _)) h
    simp only [applyAll]
    generalize op.apply t = a at hr ⊢
    generalize op.apply t' = b at hr ⊢
    cases hr with
    | none => exact .none
    | some h' => exact applyAll_congr ops (fun o ho => hF o (List.mem_cons_of_mem _ ho)) h'

/-- **An operation list changes no row it does not address.** -/
theorem applyAll_frame {k : CompositeKey} : ∀ {ops : List WriteOp}, (∀ op ∈ ops, op.key ≠ k) →
    ∀ {t t' : VssDb}, applyAll ops t = some t' → t'.get k = t.get k
  | [], _, _, _, h => by cases h; rfl
  | op :: ops, hk, t, t', h => by
    simp only [applyAll, Option.bind_eq_some] at h
    obtain ⟨t₁, h₁, h₂⟩ := h
    rw [applyAll_frame (fun o ho => hk o (List.mem_cons_of_mem _ ho)) h₂,
      VssDb.get_update_ne h₁ (Ne.symm (hk op (List.mem_cons_self _ _)))]

end Vss
