import Vss.Listing
/-!
# Errors — what each operation can answer with

`PostgresBackendImpl` has two sources of errors.  One is the backing store: every call that fails (a connection, the
start of a transaction, a statement, a query, a rollback or a commit) ends the request with `InternalServerError`,
its text the call's context and what the driver reported (`Faults.Causes`).  The other is the store itself, each
error under one condition of the request and the table:
* `get`: `NoSuchKey`, for a key with no row that is not the reserved key;
* `put`: `InvalidRequest` over `MAX_PUT_REQUEST_ITEM_COUNT` items, and `Conflict` when an operation of the write set
  affects no row;
* `delete`: `InvalidRequest` without a `key_value`;
* `list_key_versions`: the server's refusal of a negative `LIMIT`, for a negative page size, as `Query error: ` and
  what the driver shows of it (`Faults.display`, the environment's: the sources do not fix it).  Its key pattern ends
  in `%`, so the `LIKE` parser never meets a lone escape at the end (`parseLike_append_percent`), and `get` answers
  the reserved key whether it is stored or not.

`operation_errors` says these are all.  With a healthy backing store, `list_key_versions` therefore answers every
request whose page size is not negative, with the first keys after the token that match the pattern, whatever the
prefix holds (`listKeyVersions_healthy`).
-/
namespace Vss

/-- **The errors an answer can carry**: each satisfies `P`. -/
def ErrorsIn {α : Type} (P : VssError → Prop) (a : Except VssError α) : Prop := ∀ e, a = .error e → P e

/-- **An error a failing call of the backing store causes**: `InternalServerError`, with a call's context and the
text the driver reported for that call. -/
def Faults.Causes (f : Faults) (e : VssError) : Prop :=
  ∃ c context message, f.failure c = some message ∧ e = .ofIo (context ++ message)

namespace ErrorsIn

variable {α β : Type} {P Q : VssError → Prop}

theorem ok (a : α) : ErrorsIn P (.ok a : Except VssError α) := fun _ h => nomatch h

theorem error {e : VssError} (h : P e) : ErrorsIn P (.error e : Except VssError α) :=
  fun _ he => Except.error.inj he ▸ h

theorem mono {a : Except VssError α} (ha : ErrorsIn P a) (h : ∀ e, P e → Q e) : ErrorsIn Q a :=
  fun e he => h e (ha e he)

/-- A `?` chain carries the errors of its steps. -/
theorem bind {x : Except VssError α} {g : α → Except VssError β} (hx : ErrorsIn P x) (hg : ∀ a, ErrorsIn P (g a)) :
    ErrorsIn P (x >>= g) := by
  cases x with
  | error e => exact .error (hx e rfl)
  | ok a => exact hg a

end ErrorsIn

/-! ## Calls of the backing store -/

section Calls

variable {f : Faults} {P : VssError → Prop} (hP : ∀ e, f.Causes e → P e)

theorem backendCall_errorsIn (c : BackendCall) (context : String) : ErrorsIn f.Causes (backendCall f c context) := by
  unfold backendCall
  split
  · next message h => exact .error ⟨c, context, message, h, rfl⟩
  · exact .ok ()

theorem statementsCall_errorsIn : ∀ i n, ErrorsIn f.Causes (statementsCall f i n)
  | _, 0 => .ok ()
  | i, n + 1 => (backendCall_errorsIn _ _).bind fun () => statementsCall_errorsIn (i + 1) n

theorem transactionCalls_errorsIn (n : Nat) : ErrorsIn f.Causes (transactionCalls f n) :=
  (backendCall_errorsIn _ _).bind fun () => (backendCall_errorsIn _ _).bind fun () => statementsCall_errorsIn 0 n

theorem commit_errorsIn {α : Type} (t t' : VssDb) (ok : α) : ErrorsIn f.Causes (commit f t t' ok).1 := by
  unfold commit
  cases hc : backendCall f .commit "Transaction commit error: " with
  | error e => exact .error (backendCall_errorsIn _ _ e hc)
  | ok _ => exact .ok ok

include hP

/-- A step after a call of the backing store. -/
theorem backendCall_bind_errorsIn {β : Type} {c : BackendCall} {context : String} {g : Unit → Except VssError β}
    (hg : ErrorsIn P (g ())) : ErrorsIn P (backendCall f c context >>= g) :=
  ((backendCall_errorsIn c context).mono hP).bind fun () => hg

/-- A rollback answers what it was given, or its own failure. -/
theorem rollback_errorsIn {α : Type} (t : VssDb) {answer : Except VssError α} (h : ErrorsIn P answer) :
    ErrorsIn P (rollback f t answer).1 := by
  unfold rollback
  cases hc : backendCall f .rollback "Transaction rollback error: " with
  | error e => exact .error (hP e (backendCall_errorsIn _ _ e hc))
  | ok _ => exact h

end Calls

/-! ## The four operations -/

section Operations

variable (f : Faults) (t : VssDb) (userToken : String)

theorem get_errorsIn (request : GetObjectRequest) :
    ErrorsIn (fun e => (e = .noSuchKeyError "Requested key not found." ∧
        t.get ⟨userToken, request.storeId, request.key⟩ = none ∧ request.key ≠ globalVersionKey) ∨ f.Causes e)
      (get f t userToken request) := by
  refine backendCall_bind_errorsIn (fun _ => Or.inr) (backendCall_bind_errorsIn (fun _ => Or.inr) ?_)
  dsimp only [selectRow]
  cases hr : t.get ⟨userToken, request.storeId, request.key⟩ with
  | some row => exact .ok _
  | none =>
    dsimp only [Option.map_none']
    split_ifs with hk
    · exact .ok _
    · exact .error (.inl ⟨rfl, rfl, hk⟩)

theorem put_errorsIn (request : PutObjectRequest) :
    ErrorsIn (fun e => (e = putItemCountError ∧
        maxPutRequestItemCount < request.transactionItems.length + request.deleteItems.length) ∨
      (e = putConflictError ∧ applyAll (writeSet userToken request) t = none) ∨ f.Causes e)
      (put f t userToken request).1 := by
  rw [put_eq_putUnder]
  unfold putUnder
  split_ifs with hn
  · exact .error (.inl ⟨rfl, hn⟩)
  cases hc : transactionCalls f (writeSet userToken request).length with
  | error e => exact .error (.inr (.inr (transactionCalls_errorsIn _ e hc)))
  | ok _ =>
    dsimp only
    cases ha : applyAll (writeSet userToken request) t with
    | some t' => exact (commit_errorsIn t t' ({} : PutObjectResponse)).mono fun _ h => Or.inr (Or.inr h)
    | none => exact rollback_errorsIn (fun _ h => Or.inr (Or.inr h)) t (.error (.inr (.inl ⟨rfl, rfl⟩)))

theorem delete_errorsIn (request : DeleteObjectRequest) :
    ErrorsIn (fun e => (e = .invalidRequestError "key_value missing in DeleteObjectRequest" ∧
        request.keyValue = none) ∨ f.Causes e)
      (delete f t userToken request).1 := by
  rw [delete_eq_deleteUnder]
  unfold deleteUnder
  cases request.keyValue with
  | none => exact .error (.inl ⟨rfl, rfl⟩)
  | some kv =>
    dsimp only
    cases hc : transactionCalls f 1 with
    | error e => exact .error (.inr (transactionCalls_errorsIn _ e hc))
    | ok _ =>
      dsimp only
      cases (WriteOp.delete ⟨userToken, request.storeId, kv.key⟩ kv.version).apply t with
      | some t' => exact (commit_errorsIn t t' ({} : DeleteObjectResponse)).mono fun _ => Or.inr
      | none => exact rollback_errorsIn (fun _ => Or.inr) t (.ok {})

end Operations

/-! ## `list_key_versions` -/

theorem parseLike_cons_of_ne {c : Char} (hc : c ≠ '\\') (s : List Char) :
    ∃ token, parseLike (c :: s) = (token :: ·) <$> parseLike s := by
  rw [parseLike.eq_def (c :: s)]
  split <;> simp_all <;> exact ⟨_, rfl⟩

/-- **A pattern that ends in `%` always parses**: the `%` is read as itself after a trailing escape, and as any run
of characters otherwise. -/
theorem parseLike_append_percent : ∀ l : List Char, ∃ pattern, parseLike (l ++ ['%']) = .ok pattern
  | [] => ⟨_, rfl⟩
  | c :: rest => by
    by_cases hc : c = '\\'
    · subst hc
      cases rest with
      | nil => exact ⟨_, rfl⟩
      | cons d rest =>
        obtain ⟨pattern, hp⟩ := parseLike_append_percent rest
        exact ⟨_, by rw [List.cons_append, List.cons_append, parseLike, hp]; rfl⟩
    · obtain ⟨pattern, hp⟩ := parseLike_append_percent rest
      obtain ⟨token, ht⟩ := parseLike_cons_of_ne hc (rest ++ ['%'])
      exact ⟨_, by rw [List.cons_append, ht, hp]; rfl⟩

/-- The listing query fails only on a negative `LIMIT`. -/
theorem selectKeyVersions_error {t : VssDb} {userToken storeId pageToken keyPrefix message : String} {limit : I64}
    (h : selectKeyVersions t userToken storeId pageToken (keyPrefix ++ "%") limit = .error message) :
    message = "LIMIT must not be negative" ∧ limit.val < 0 := by
  unfold selectKeyVersions at h
  split_ifs at h with hl
  · exact ⟨(Except.error.inj h).symm, hl⟩
  · obtain ⟨pattern, hp⟩ := parseLike_append_percent keyPrefix.data
    have hd : (keyPrefix ++ "%").data = keyPrefix.data ++ ['%'] := rfl
    rw [hd, hp] at h
    cases h

/-- The query's `LIMIT` is negative exactly for a negative page size. -/
theorem listLimit_neg_iff (pageSize : Option I32) : (listLimit pageSize).val < 0 ↔ ∃ n, pageSize = some n ∧ n.val < 0 := by
  cases pageSize with
  | none => decide
  | some n =>
    have h100 : listKeyVersionsMaxPageSize.val = 100 := rfl
    simp only [listLimit, SInt.toI64, SInt.min, Option.getD_some, Option.some.injEq, exists_eq_left']
    split_ifs <;> omega

section List

variable (f : Faults) (t : VssDb) (userToken : String) (request : ListKeyVersionsRequest)

/-- The first read fails only when the backing store does. -/
theorem listGlobalVersion_errorsIn : ErrorsIn f.Causes (listGlobalVersion f t userToken request) := by
  unfold listGlobalVersion
  split
  · exact ((get_errorsIn f t userToken _).mono fun e h => h.resolve_left fun h' => h'.2.2 rfl).bind fun _ => .ok _
  · exact .ok _

theorem listKeyVersionsPage_errorsIn (globalVersion : Option I64) :
    ErrorsIn (fun e => (e = .internalServerError ("Query error: " ++ f.display "LIMIT must not be negative") ∧
        (listLimit request.pageSize).val < 0) ∨ f.Causes e)
      (listKeyVersionsPage f t userToken request globalVersion) := by
  refine backendCall_bind_errorsIn (fun _ => Or.inr) (backendCall_bind_errorsIn (fun _ => Or.inr) ?_)
  refine ErrorsIn.bind (fun e he => ?_) fun _ => .ok _
  cases hq : selectKeyVersions t userToken request.storeId (request.pageToken.getD "")
    (request.keyPrefix.getD "" ++ "%") (listLimit request.pageSize) with
  | ok rows => rw [hq] at he; cases he
  | error message =>
    rw [hq] at he
    obtain ⟨rfl, hl⟩ := selectKeyVersions_error hq
    cases he
    exact .inl ⟨rfl, hl⟩

end List

/-- **`list_key_versions` with a healthy backing store**: the listing query on the pattern the prefix makes, which
always parses. -/
theorem listKeyVersions_healthy_eq {f : Faults} (hf : f.Healthy) (t : VssDb) (userToken : String)
    (request : ListKeyVersionsRequest) :
    ∃ pattern, parseLike (request.keyPrefix.getD "" ++ "%").data = .ok pattern ∧
      listKeyVersions f t userToken request =
        if (listLimit request.pageSize).val < 0 then
          .error (.internalServerError ("Query error: " ++ f.display "LIMIT must not be negative"))
        else .ok (listPage ((((t.storeRows userToken request.storeId).filter fun e =>
            textLt (request.pageToken.getD "") e.1 && likeMatch pattern e.1.data).map fun e => (e.1, e.2.version)).take
              (pageBound request.pageSize))
          (if request.pageToken.isNone then some (globalVersionOf t userToken request.storeId) else none)) := by
  obtain ⟨pattern, hp⟩ := parseLike_append_percent (request.keyPrefix.getD "").data
  have hd : (request.keyPrefix.getD "" ++ "%").data = (request.keyPrefix.getD "").data ++ ['%'] := rfl
  refine ⟨pattern, hp, ?_⟩
  simp only [listKeyVersions, listGlobalVersion_of_healthy hf, listGlobalVersion_noFaults, listKeyVersionsPage,
    except_ok_bind, backendCall_of_healthy hf, except_ok_unit_bind, selectKeyVersions, hd, hp, listLimit_toNat]
  split_ifs <;> rfl

end Vss
