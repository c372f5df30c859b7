import Vss.Table
/-!
# Api — messages, errors and the backing store's failures

The request and response messages of the four endpoints, with the fields `PostgresBackendImpl` reads and writes;
`VssError`, whose five kinds the store returns; the two constants the store imports from the `api` crate; and
`Faults`, the environment of one request: which of its calls to the backing store fail, and with what message, and
how the driver shows an error the server answers.
The crate `api` is not part of the sources, so `VssError`, its conversion from `io::Error`, `GLOBAL_VERSION_KEY`
and `INITIAL_RECORD_VERSION` are modelled from the specification.
-/
namespace Vss

/-- `KeyValue`: a key with its value and version, as requests carry them and responses return them. -/
structure KeyValue where
  key : String
  value : List UInt8
  version : I64
deriving DecidableEq

structure GetObjectRequest where
  storeId : String
  key : String

structure GetObjectResponse where
  value : Option KeyValue
deriving DecidableEq

structure PutObjectRequest where
  storeId : String
  globalVersion : Option I64
  transactionItems : List KeyValue
  deleteItems : List KeyValue

structure PutObjectResponse where
deriving DecidableEq

structure DeleteObjectRequest where
  storeId : String
  keyValue : Option KeyValue

structure DeleteObjectResponse where
deriving DecidableEq

structure ListKeyVersionsRequest where
  storeId : String
  keyPrefix : Option String
  pageSize : Option I32
  pageToken : Option String

structure ListKeyVersionsResponse where
  keyVersions : List KeyValue
  nextPageToken : Option String
  globalVersion : Option I64
deriving DecidableEq

/-- Modelled from the spec: `VssError` of the `api` crate, one constructor per error kind of §7, each with its
message. -/
inductive VssError where
  | noSuchKeyError (message : String)
  | invalidRequestError (message : String)
  | conflictError (message : String)
  | authError (message : String)
  | internalServerError (message : String)
deriving DecidableEq

/-- Modelled from the spec: the conversion `?` applies to an `io::Error`; backing-store errors "surface as
`InternalServerError`" (§4.1), carrying the error's text. -/
def VssError.ofIo (message : String) : VssError := .internalServerError message

/-- Modelled from the spec: `GLOBAL_VERSION_KEY`, the reserved key `"vss_global_version"`. -/
def globalVersionKey : String := "vss_global_version"

/-- Modelled from the spec: `INITIAL_RECORD_VERSION`, the version an inserted record gets; a record put with
version 0 reads back at version 1 (§8, scenario 1). -/
def initialRecordVersion : I64 := 1

@[simp] theorem val_initialRecordVersion : initialRecordVersion.val = 1 := rfl

/-- `LIST_KEY_VERSIONS_MAX_PAGE_SIZE`. -/
def listKeyVersionsMaxPageSize : I32 := 100

/-- `MAX_PUT_REQUEST_ITEM_COUNT`. -/
def maxPutRequestItemCount : Nat := 1000

/-! ## The backing store's failures -/

/-- A call to the backing store that can fail. -/
inductive BackendCall where
  /-- The `n`-th `pool.get()` of a request. -/
  | connection (n : Nat)
  | transactionStart
  /-- The `i`-th `execute` of the request's transaction. -/
  | statement (i : Nat)
  | rollback
  | commit
  /-- The `n`-th `query` or `query_opt`. -/
  | query (n : Nat)
deriving DecidableEq

/-- **Which calls of one request fail**, each with the error text the driver reports, and `display m`, the text
tokio_postgres's `Display` gives an error the server answers with message `m`.  Both come from outside the sources:
the second depends on the driver's version and the server's `lc_messages`, so it is the environment's. -/
structure Faults where
  failure : BackendCall → Option String
  display : String → String

/-- A backing store that answers every call.  It stores every text it is given, `NUL` included: PostgreSQL refuses a
`NUL` in a `text` value, and the model counts that refusal as a failing call, which `failure` covers.  What its
driver shows of an error the server answers is left as the empty text; every result about such an error holds for
every `display` (`Faults.Healthy`). -/
def noFaults : Faults := ⟨fun _ => none, fun _ => ""⟩

/-- A backing store that answers every call, whatever its driver shows of an error the server answers. -/
def Faults.Healthy (f : Faults) : Prop := ∀ c, f.failure c = none

theorem noFaults_healthy : noFaults.Healthy := fun _ => rfl

/-- One call: its failure, wrapped by `map_err` with the call's context and converted by `?`, ends the request. -/
def backendCall (f : Faults) (c : BackendCall) (context : String) : Except VssError Unit :=
  match f.failure c with
  | some e => .error (.ofIo (context ++ e))
  | none => .ok ()

@[simp] theorem noFaults_failure (c : BackendCall) : noFaults.failure c = none := rfl

@[simp] theorem backendCall_noFaults (c : BackendCall) (context : String) :
    backendCall noFaults c context = .ok () := rfl

theorem backendCall_of_healthy {f : Faults} (hf : f.Healthy) (c : BackendCall) (context : String) :
    backendCall f c context = .ok () := by
  rw [backendCall, hf c]

/-! ## `Except`, as the store's `?` chains read -/

section Except

variable {ε α β : Type}

@[simp] theorem except_ok_bind (a : α) (g : α → Except ε β) : (Except.ok a >>= g) = g a := rfl

@[simp] theorem except_error_bind (e : ε) (g : α → Except ε β) : (Except.error e >>= g) = .error e := rfl

@[simp] theorem except_map_ok (g : α → β) (a : α) : (g <$> (Except.ok a : Except ε α)) = .ok (g a) := rfl

@[simp] theorem except_map_error (g : α → β) (e : ε) : (g <$> (Except.error e : Except ε α)) = .error e := rfl

@[simp] theorem except_pure (a : α) : (pure a : Except ε α) = .ok a := rfl

/-- `do` blocks bind a `Unit` step by matching on `()`. -/
@[simp] theorem except_ok_unit_bind (u : Unit) (g : Unit → Except ε β) : (Except.ok u >>= g) = g () := rfl

/-- A chain that succeeds went past each call of the backing store. -/
theorem backendCall_bind_ok {f : Faults} {c : BackendCall} {context : String} {g : Unit → Except VssError β} {b : β}
    (h : (backendCall f c context >>= g) = .ok b) : g () = .ok b := by
  unfold backendCall at h
  split at h
  · cases h
  · exact h

/-- A chain of `?` that succeeds went through each step. -/
theorem except_bind_eq_ok {x : Except ε α} {g : α → Except ε β} {b : β} :
    (x >>= g) = .ok b ↔ ∃ a, x = .ok a ∧ g a = .ok b := by
  cases x <;> simp

end Except

end Vss
