import Vss.Statements
/-!
# Store — `PostgresBackendImpl`

The four operations of the `KvStore` implementation, one function each, with every error path of the source.
`get` and `listKeyVersions` read the table; `put` and `delete` return the table the request leaves behind: the
transaction's working copy when it commits, the table they started from otherwise (a `rollback`, or a transaction
dropped by `?`, which PostgreSQL rolls back).  A `Faults` argument says which of the request's calls to the
backing store fail.
-/
namespace Vss

/-- `get`. -/
def get (f : Faults) (t : VssDb) (userToken : String) (request : GetObjectRequest) :
    Except VssError GetObjectResponse := do
  backendCall f (.connection 0) "Connection error: "
  backendCall f (.query 0) "Query error: "
  match selectRow t userToken request.storeId request.key with
  | some keyValue => pure ⟨some keyValue⟩
  | none =>
    if request.key = globalVersionKey then pure ⟨some ⟨globalVersionKey, [], 0⟩⟩
    else throw (.noSuchKeyError "Requested key not found.")

/-- **One loop of `put`**: each record's statement executed in order on the transaction and its row count pushed
onto `batch_results`; a failing statement ends the request.  `i` numbers the statements of the transaction. -/
def executeEach (f : Faults) (query : VssDbRecord → VssDb → VssDb × Nat) :
    Nat → List VssDbRecord → VssDb → Except VssError (List Nat × VssDb)
  | _, [], t => .ok ([], t)
  | i, r :: rs, t =>
    match f.failure (.statement i) with
    | some e => .error (.ofIo ("Database operation failed. " ++ e))
    | none => (fun res => ((query r t).2 :: res.1, res.2)) <$> executeEach f query (i + 1) rs (query r t).1

/-- The records of `transaction_items`, then the global-version record when `global_version` is present. -/
def vssPutRecords (userToken : String) (request : PutObjectRequest) : List VssDbRecord :=
  request.transactionItems.map (buildVssRecord userToken request.storeId) ++
    (request.globalVersion.map fun g => buildVssRecord userToken request.storeId ⟨globalVersionKey, [], g⟩).toList

/-- The records of `delete_items`. -/
def vssDeleteRecords (userToken : String) (request : PutObjectRequest) : List VssDbRecord :=
  request.deleteItems.map (buildVssRecord userToken request.storeId)

/-- `put` from taking a connection to the last statement: `batch_results` and the working copy. -/
def putTransaction (f : Faults) (t : VssDb) (putRecords deleteRecords : List VssDbRecord) :
    Except VssError (List Nat × VssDb) := do
  backendCall f (.connection 0) "Connection error: "
  backendCall f .transactionStart "Transaction start error: "
  let puts ← executeEach f executePutObjectQuery 0 putRecords t
  let deletes ← executeEach f executeDeleteObjectQuery putRecords.length deleteRecords puts.2
  pure (puts.1 ++ deletes.1, deletes.2)

/-- `transaction.rollback()`, then `answer`; a failing rollback answers with its error.  The table is as it was. -/
def rollback {α : Type} (f : Faults) (t : VssDb) (answer : Except VssError α) : Except VssError α × VssDb :=
  match backendCall f .rollback "Transaction rollback error: " with
  | .error e => (.error e, t)
  | .ok _ => (answer, t)

/-- `transaction.commit()`, then `Ok`; the working copy `t'` becomes the table, unless the commit fails.  The
driver's answer is taken as the commit itself: a commit the server applied but whose acknowledgement was lost is not
modelled, as in the usual abstraction of an atomic commit. -/
def commit {α : Type} (f : Faults) (t t' : VssDb) (ok : α) : Except VssError α × VssDb :=
  match backendCall f .commit "Transaction commit error: " with
  | .error e => (.error e, t)
  | .ok _ => (.ok ok, t')

/-- The error of a batch with a statement that affected no row. -/
def putConflictError : VssError :=
  .conflictError "Transaction could not be completed due to a possible conflict"

/-- The error of a batch over `MAX_PUT_REQUEST_ITEM_COUNT` items. -/
def putItemCountError : VssError :=
  .invalidRequestError ("Number of write items per request should be less than equal to " ++
    toString maxPutRequestItemCount)

/-- **`put`**: its result and the table it leaves. -/
def put (f : Faults) (t : VssDb) (userToken : String) (request : PutObjectRequest) :
    Except VssError PutObjectResponse × VssDb :=
  if maxPutRequestItemCount < request.transactionItems.length + request.deleteItems.length then
    (.error putItemCountError, t)
  else
    match putTransaction f t (vssPutRecords userToken request) (vssDeleteRecords userToken request) with
    | .error e => (.error e, t)
    | .ok (batchResults, working) =>
      if batchResults.contains 0 then rollback f t (.error putConflictError) else commit f t working {}

/-- `delete` from taking a connection to its one statement: `num_rows` and the working copy. -/
def deleteTransaction (f : Faults) (t : VssDb) (vssRecord : VssDbRecord) : Except VssError (Nat × VssDb) := do
  backendCall f (.connection 0) "Connection error: "
  backendCall f .transactionStart "Transaction start error: "
  backendCall f (.statement 0) "Database operation failed. "
  pure ((executeDeleteObjectQuery vssRecord t).2, (executeDeleteObjectQuery vssRecord t).1)

/-- **`delete`**: its result and the table it leaves.  No row affected is still `Ok`. -/
def delete (f : Faults) (t : VssDb) (userToken : String) (request : DeleteObjectRequest) :
    Except VssError DeleteObjectResponse × VssDb :=
  match request.keyValue with
  | none => (.error (.invalidRequestError "key_value missing in DeleteObjectRequest"), t)
  | some keyValue =>
    match deleteTransaction f t (buildVssRecord userToken request.storeId keyValue) with
    | .error e => (.error e, t)
    | .ok (numRows, working) => if numRows = 0 then rollback f t (.ok {}) else commit f t working {}

section Transaction

variable {α : Type} {f : Faults} {t t' : VssDb}

@[simp] theorem rollback_snd (answer : Except VssError α) : (rollback f t answer).2 = t := by
  unfold rollback; split <;> rfl

@[simp] theorem rollback_noFaults (answer : Except VssError α) : rollback noFaults t answer = (answer, t) := rfl

@[simp] theorem commit_noFaults (ok : α) : commit noFaults t t' ok = (.ok ok, t') := rfl

theorem commit_of_ok {ok y : α} (h : (commit f t t' ok).1 = .ok y) : commit f t t' ok = (.ok ok, t') := by
  unfold commit at h ⊢
  generalize backendCall f .commit "Transaction commit error: " = c at h ⊢
  cases c <;> simp_all

theorem commit_of_error {ok : α} {e : VssError} (h : (commit f t t' ok).1 = .error e) : (commit f t t' ok).2 = t := by
  unfold commit at h ⊢
  generalize backendCall f .commit "Transaction commit error: " = c at h ⊢
  cases c <;> simp_all

theorem commit_snd (ok : α) : (commit f t t' ok).2 = t ∨ (commit f t t' ok).2 = t' := by
  unfold commit; split <;> simp

/-- The table a commit leaves does not depend on the answer it carries. -/
theorem commit_snd_congr {β : Type} (ok : α) (ok' : β) : (commit f t t' ok).2 = (commit f t t' ok').2 := by
  unfold commit; cases backendCall f .commit "Transaction commit error: " <;> rfl

end Transaction

/-- `min(page_size, LIST_KEY_VERSIONS_MAX_PAGE_SIZE) as i64`, `page_size` defaulting to `i32::MAX`. -/
def listLimit (pageSize : Option I32) : I64 :=
  SInt.toI64 (SInt.min (pageSize.getD (SInt.maxValue 32)) listKeyVersionsMaxPageSize)

/-- **The response a page of rows makes**: the reserved key filtered out, the values left empty, and the last key
returned as `next_page_token`, or `""` when nothing is. -/
def listPage (rows : List (String × I64)) (globalVersion : Option I64) : ListKeyVersionsResponse :=
  let keyVersions := (rows.filter fun e => e.1 != globalVersionKey).map fun e => ⟨e.1, [], e.2⟩
  ⟨keyVersions, if keyVersions.isEmpty then some "" else keyVersions.getLast?.map (·.key), globalVersion⟩

/-- The first read of `list_key_versions`: `global_version`, fetched with `get` for the first page only.  `get`
always answers the reserved key with a value (`get_globalVersionKey`), so the source's `unwrap` is `Option.map`. -/
def listGlobalVersion (f : Faults) (t : VssDb) (userToken : String) (request : ListKeyVersionsRequest) :
    Except VssError (Option I64) :=
  match request.pageToken with
  | none => do
    let response ← get f t userToken ⟨request.storeId, globalVersionKey⟩
    pure (response.value.map (·.version))
  | some _ => pure none

/-- The second read of `list_key_versions`, on a connection of its own: the page after `page_token`.  An error the
server answers to the query is shown as the environment's driver shows it. -/
def listKeyVersionsPage (f : Faults) (t : VssDb) (userToken : String) (request : ListKeyVersionsRequest)
    (globalVersion : Option I64) : Except VssError ListKeyVersionsResponse := do
  backendCall f (.connection 1) "Connection error: "
  backendCall f (.query 1) "Query error: "
  let rows ← (selectKeyVersions t userToken request.storeId (request.pageToken.getD "")
    (request.keyPrefix.getD "" ++ "%") (listLimit request.pageSize)).mapError fun e =>
      .ofIo ("Query error: " ++ f.display e)
  pure (listPage rows globalVersion)

/-- **`list_key_versions`**: its two reads, one after the other. -/
def listKeyVersions (f : Faults) (t : VssDb) (userToken : String) (request : ListKeyVersionsRequest) :
    Except VssError ListKeyVersionsResponse :=
  listGlobalVersion f t userToken request >>= listKeyVersionsPage f t userToken request

end Vss
