import Vss.Api
/-!
# Statements — the SQL `PostgresBackendImpl` sends

Every write statement of `postgres_store.rs` addresses one row by its full primary key and either rewrites it or,
when its `WHERE` or `ON CONFLICT` clause does not hold, leaves the table alone and reports no affected row.  So each
is `VssDb.modify` with its own effect on the row it reads (`VssDb.modify`; the five `execute_*` functions and the two
that choose between them).  The reads are `selectRow`, the `query_opt` of `get`, and `selectKeyVersions`, the
listing query with PostgreSQL's `LIMIT` and `LIKE` semantics.  Timestamps are left out: no statement reads them.
-/
namespace Vss

/-- What `build_vss_record` makes of a `KeyValue`, without `created_at` and `last_updated_at`. -/
structure VssDbRecord where
  userToken : String
  storeId : String
  key : String
  value : List UInt8
  version : I64

/-- The row's primary key. -/
def VssDbRecord.compositeKey (r : VssDbRecord) : CompositeKey := ⟨r.userToken, r.storeId, r.key⟩

/-- `build_vss_record`. -/
def buildVssRecord (userToken storeId : String) (kv : KeyValue) : VssDbRecord :=
  ⟨userToken, storeId, kv.key, kv.value, kv.version⟩

/-! ## Single-row statements -/

/-- A statement's result, the table and `num_rows`, from what it did to its row: one row affected, or none and
the table unchanged. -/
def statementResult (t : VssDb) : Option VssDb → VssDb × Nat
  | some t' => (t', 1)
  | none => (t, 0)

/-- **A statement on one row**: `VssDb.update` with the number of rows it affected. -/
def VssDb.modify (t : VssDb) (k : CompositeKey) (g : Option Row → Option (Option Row)) : VssDb × Nat :=
  statementResult t (t.update k g)

/-- `INSERT ... VALUES (.., INITIAL_RECORD_VERSION, ..) ON CONFLICT (user_token, store_id, key) DO UPDATE SET
value = EXCLUDED.value, version = INITIAL_RECORD_VERSION`. -/
def executeNonConditionalUpsert (r : VssDbRecord) (t : VssDb) : VssDb × Nat :=
  t.modify r.compositeKey fun _ => some (some ⟨r.value, initialRecordVersion⟩)

/-- `INSERT ... VALUES (.., INITIAL_RECORD_VERSION, ..) ON CONFLICT DO NOTHING`. -/
def executeConditionalInsert (r : VssDbRecord) (t : VssDb) : VssDb × Nat :=
  t.modify r.compositeKey fun
    | none => some (some ⟨r.value, initialRecordVersion⟩)
    | some _ => none

/-- `UPDATE vss_db SET value = $1, version = $2 ... WHERE ... AND version = $7`, with `$2` the record's version
`saturating_add(1)` and `$7` the version itself. -/
def executeConditionalUpdate (r : VssDbRecord) (t : VssDb) : VssDb × Nat :=
  t.modify r.compositeKey fun
    | some row => if row.version = r.version then some (some ⟨r.value, r.version.saturatingAdd 1⟩) else none
    | none => none

/-- `execute_put_object_query`: `-1` upserts, `0` inserts, any other version updates. -/
def executePutObjectQuery (r : VssDbRecord) (t : VssDb) : VssDb × Nat :=
  if r.version.val = -1 then executeNonConditionalUpsert r t
  else if r.version.val = 0 then executeConditionalInsert r t
  else executeConditionalUpdate r t

/-- `DELETE FROM vss_db WHERE user_token = $1 AND store_id = $2 AND key = $3`. -/
def executeNonConditionalDelete (r : VssDbRecord) (t : VssDb) : VssDb × Nat :=
  t.modify r.compositeKey fun
    | some _ => some none
    | none => none

/-- `DELETE FROM vss_db WHERE ... AND version = $4`. -/
def executeConditionalDelete (r : VssDbRecord) (t : VssDb) : VssDb × Nat :=
  t.modify r.compositeKey fun
    | some row => if row.version = r.version then some none else none
    | none => none

/-- `execute_delete_object_query`: `-1` deletes whatever is there, any other version only that version. -/
def executeDeleteObjectQuery (r : VssDbRecord) (t : VssDb) : VssDb × Nat :=
  if r.version.val = -1 then executeNonConditionalDelete r t else executeConditionalDelete r t

/-! ## Reads -/

/-- `SELECT key, value, version FROM vss_db WHERE user_token = $1 AND store_id = $2 AND key = $3`. -/
def selectRow (t : VssDb) (userToken storeId key : String) : Option KeyValue :=
  (t.get ⟨userToken, storeId, key⟩).map fun row => ⟨key, row.value, row.version⟩

/-- **The listing query** `SELECT key, version FROM vss_db WHERE user_token = $1 AND store_id = $2 AND key > $3 AND
key LIKE $4 ORDER BY key LIMIT $5`: a negative `LIMIT` and a pattern ending in a lone escape are errors, each with
the message PostgreSQL gives it. -/
def selectKeyVersions (t : VssDb) (userToken storeId pageToken keyLike : String) (limit : I64) :
    Except String (List (String × I64)) :=
  if limit.val < 0 then .error "LIMIT must not be negative"
  else match parseLike keyLike.data with
    | .error e => .error e
    | .ok pattern =>
      .ok ((((t.storeRows userToken storeId).filter fun e => textLt pageToken e.1 && likeMatch pattern e.1.data).map
        fun e => (e.1, e.2.version)).take limit.val.toNat)

end Vss
