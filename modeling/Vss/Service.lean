import Vss.Runs
/-!
# Service — `VssService`, the request dispatcher

`call` routes an HTTP request by its path under `/vss` to one of the four operations of the store, each through
`handle_request`: the authorizer's `verify` on the headers gives the user token, the body is read and decoded as the
operation's request, and the store's answer becomes a `200` with the response message, or the error response
`build_error_response` makes.  The wire encoding (`prost`) and the tracing and Sentry calls are left out: a body is
the message before its encoding.

What the dispatcher adds to the store:
* a request changes the table through at most one `put` or `delete`, of the user the authorizer verified
  (`call_step`), and never leaves part of one (`call_all_or_nothing`); so every run of the server is a run of writes,
  each by a user the authorizer verified (`ServerReaches.reaches`), and the rows of a user change only through
  requests verified as that user (`ServerReaches.get_other`);
* a client learns nothing of the backing store's error texts: two patterns of failures that fail the same calls
  give the same response and leave the same table (`call_hides_diagnostics`).
-/
namespace Vss

/-! ## Messages -/

/-- Modelled from the spec: `ErrorCode`, the wire code of an error response. -/
inductive ErrorCode where
  | noSuchKeyException
  | invalidRequestException
  | conflictException
  | internalServerException
  | authException
deriving DecidableEq

/-- Modelled from the spec: `ErrorResponse`. -/
structure ErrorResponse where
  errorCode : ErrorCode
  message : String
deriving DecidableEq

/-- The response message of one of the four operations. -/
inductive ResponseMessage where
  | getObject (response : GetObjectResponse)
  | putObjects (response : PutObjectResponse)
  | deleteObject (response : DeleteObjectResponse)
  | listKeyVersions (response : ListKeyVersionsResponse)
deriving DecidableEq

/-- The body of an HTTP response: a message of the protocol, before its encoding, or plain text. -/
inductive Body where
  | message (message : ResponseMessage)
  | error (error : ErrorResponse)
  | text (text : String)
deriving DecidableEq

structure HttpResponse where
  status : Nat
  body : Body
deriving DecidableEq

/-- An HTTP request: its path, its headers (`headers_map`), and its body, `none` when reading it fails. -/
structure HttpRequest where
  path : String
  headers : List (String × String)
  body : Option (List UInt8)

/-- Modelled from the spec: the `Authorizer` capability, `verify(headers) → user_token | error`. -/
structure Authorizer where
  verify : List (String × String) → Except VssError String

/-- `T::decode` of the four request messages. -/
structure Decoder where
  getObject : List UInt8 → Except String GetObjectRequest
  putObjects : List UInt8 → Except String PutObjectRequest
  deleteObject : List UInt8 → Except String DeleteObjectRequest
  listKeyVersions : List UInt8 → Except String ListKeyVersionsRequest

/-! ## Errors -/

/-- `build_error_response`: the status and the error response of an error; an internal error's message is replaced
by a fixed one. -/
def buildErrorResponse : VssError → HttpResponse
  | .noSuchKeyError msg => ⟨404, .error ⟨.noSuchKeyException, msg⟩⟩
  | .conflictError msg => ⟨409, .error ⟨.conflictException, msg⟩⟩
  | .invalidRequestError msg => ⟨400, .error ⟨.invalidRequestException, msg⟩⟩
  | .authError msg => ⟨401, .error ⟨.authException, msg⟩⟩
  | .internalServerError _ => ⟨500, .error ⟨.internalServerException, "Unknown Server Error occurred."⟩⟩

/-! ## Dispatch -/

/-- `BASE_PATH_PREFIX`. -/
def basePathPrefix : String := "/vss"

/-- `path.strip_prefix(BASE_PATH_PREFIX).unwrap_or_default()`. -/
def prefixStrippedPath (path : String) : String :=
  if basePathPrefix.data <+: path.data then ⟨path.data.drop basePathPrefix.length⟩ else ""

example : prefixStrippedPath "/vss/putObjects" = "/putObjects" ∧ prefixStrippedPath "/putObjects" = "" := by decide

/-- `handle_request`: verify the headers, read the body, decode it and run the operation.  The response is `none`
when the body cannot be read (the `hyper::Error` of the source); the table is the one the operation leaves. -/
def handleRequest {T R : Type} (authorizer : Authorizer) (request : HttpRequest)
    (decode : List UInt8 → Except String T) (handler : String → T → VssDb → Except VssError R × VssDb)
    (message : R → ResponseMessage) (t : VssDb) : Option HttpResponse × VssDb :=
  match authorizer.verify request.headers with
  | .error e => (some (buildErrorResponse e), t)
  | .ok userToken =>
    match request.body with
    | none => (none, t)
    | some bytes =>
      match decode bytes with
      | .error _ => (some ⟨400, .text "Error parsing request"⟩, t)
      | .ok decoded =>
        match handler userToken decoded t with
        | (.ok response, t') => (some ⟨200, .message (message response)⟩, t')
        | (.error e, t') => (some (buildErrorResponse e), t')

/-- `handle_get_object_request`. -/
def handleGetObjectRequest (f : Faults) (userToken : String) (request : GetObjectRequest) (t : VssDb) :
    Except VssError GetObjectResponse × VssDb :=
  (get f t userToken request, t)

/-- `handle_put_object_request`. -/
def handlePutObjectRequest (f : Faults) (userToken : String) (request : PutObjectRequest) (t : VssDb) :
    Except VssError PutObjectResponse × VssDb :=
  put f t userToken request

/-- `handle_delete_object_request`. -/
def handleDeleteObjectRequest (f : Faults) (userToken : String) (request : DeleteObjectRequest) (t : VssDb) :
    Except VssError DeleteObjectResponse × VssDb :=
  delete f t userToken request

/-- `handle_list_object_request`. -/
def handleListObjectRequest (f : Faults) (userToken : String) (request : ListKeyVersionsRequest) (t : VssDb) :
    Except VssError ListKeyVersionsResponse × VssDb :=
  (listKeyVersions f t userToken request, t)

/-- `handle_test_sentry_request`, without the events it sends. -/
def handleTestSentryRequest : HttpResponse :=
  ⟨200, .text "Sentry test events sent. Check your Sentry dashboard."⟩

/-- **`VssService::call`**: the response to one HTTP request, and the table it leaves. -/
def call (f : Faults) (authorizer : Authorizer) (decoder : Decoder) (request : HttpRequest) (t : VssDb) :
    Option HttpResponse × VssDb :=
  match prefixStrippedPath request.path with
  | "/getObject" => handleRequest authorizer request decoder.getObject (handleGetObjectRequest f) .getObject t
  | "/putObjects" => handleRequest authorizer request decoder.putObjects (handlePutObjectRequest f) .putObjects t
  | "/deleteObject" =>
    handleRequest authorizer request decoder.deleteObject (handleDeleteObjectRequest f) .deleteObject t
  | "/listKeyVersions" =>
    handleRequest authorizer request decoder.listKeyVersions (handleListObjectRequest f) .listKeyVersions t
  | "/testSentry" => (some handleTestSentryRequest, t)
  | _ => (some ⟨400, .text "Invalid request path."⟩, t)

/-! ## One request -/

section Handle

variable {T R : Type} (authorizer : Authorizer) (request : HttpRequest) (decode : List UInt8 → Except String T)
  (message : R → ResponseMessage)

/-- **`handle_request` leaves the table, or leaves the one its operation leaves for the verified user.** -/
theorem handleRequest_snd (handler : String → T → VssDb → Except VssError R × VssDb) (t : VssDb) :
    (handleRequest authorizer request decode handler message t).2 = t ∨
      ∃ userToken decoded, authorizer.verify request.headers = .ok userToken ∧
        (handleRequest authorizer request decode handler message t).2 = (handler userToken decoded t).2 := by
  unfold handleRequest
  cases hv : authorizer.verify request.headers with
  | error e => exact .inl rfl
  | ok userToken =>
    dsimp only
    cases request.body with
    | none => exact .inl rfl
    | some bytes =>
      dsimp only
      cases decode bytes with
      | error _ => exact .inl rfl
      | ok decoded =>
        refine .inr ⟨userToken, decoded, rfl, ?_⟩
        dsimp only
        obtain ⟨_ | _, _⟩ := handler userToken decoded t <;> rfl

/-- An operation that only reads leaves the table. -/
theorem handleRequest_read (handler : String → T → VssDb → Except VssError R × VssDb)
    (hread : ∀ userToken decoded t, (handler userToken decoded t).2 = t) (t : VssDb) :
    (handleRequest authorizer request decode handler message t).2 = t := by
  rcases handleRequest_snd authorizer request decode message handler t with h | ⟨_, _, _, h⟩
  · exact h
  · exact h.trans (hread _ _ t)

end Handle

/-- **One request writes through at most one `put` or `delete`, of the user the authorizer verified.** -/
theorem call_step (f : Faults) (authorizer : Authorizer) (decoder : Decoder) (request : HttpRequest) (t : VssDb) :
    (call f authorizer decoder request t).2 = t ∨
      ∃ q : WriteRequest, authorizer.verify request.headers = .ok q.userToken ∧
        (call f authorizer decoder request t).2 = (q.exec f t).2 := by
  unfold call
  split
  · exact .inl (handleRequest_read _ _ _ _ _ (fun _ _ _ => rfl) t)
  · rcases handleRequest_snd authorizer request decoder.putObjects .putObjects (handlePutObjectRequest f) t
      with h | ⟨userToken, decoded, hv, h⟩
    · exact .inl h
    · exact .inr ⟨.put userToken decoded, hv, h⟩
  · rcases handleRequest_snd authorizer request decoder.deleteObject .deleteObject (handleDeleteObjectRequest f) t
      with h | ⟨userToken, decoded, hv, h⟩
    · exact .inl h
    · exact .inr ⟨.delete userToken decoded, hv, h⟩
  · exact .inl (handleRequest_read _ _ _ _ _ (fun _ _ _ => rfl) t)
  · exact .inl rfl
  · exact .inl rfl

/-- **A request leaves the rows of every user it is not verified as.** -/
theorem call_get_other (f : Faults) (authorizer : Authorizer) (decoder : Decoder) (request : HttpRequest)
    (t : VssDb) {userToken : String} (h : authorizer.verify request.headers ≠ .ok userToken) (storeId key : String) :
    (call f authorizer decoder request t).2.get ⟨userToken, storeId, key⟩ = t.get ⟨userToken, storeId, key⟩ := by
  rcases call_step f authorizer decoder request t with he | ⟨q, hv, he⟩
  · rw [he]
  · rw [he]
    exact q.exec_get_other f t (fun hq => h (by rw [← hq.1]; exact hv)) key

/-- **Runs of the server**: the tables a sequence of HTTP requests that each satisfy `allowed` reaches from `t`, one
authorizer and one decoder serving them all, each request under failures of its own. -/
inductive ServerReaches (allowed : HttpRequest → Prop) (authorizer : Authorizer) (decoder : Decoder) (t : VssDb) :
    VssDb → Prop
  | refl : ServerReaches allowed authorizer decoder t t
  | step {t' : VssDb} (f : Faults) (request : HttpRequest) : ServerReaches allowed authorizer decoder t t' →
      allowed request → ServerReaches allowed authorizer decoder t (call f authorizer decoder request t').2

namespace ServerReaches

variable {allowed : HttpRequest → Prop} {authorizer : Authorizer} {decoder : Decoder} {t t' : VssDb}

/-- **A run of the server is a run of writes**, each by a user an allowed request was verified as: every invariant of
`Runs` holds of the tables the server reaches. -/
theorem reaches (h : ServerReaches allowed authorizer decoder t t') :
    Reaches (fun q => ∃ request, allowed request ∧ authorizer.verify request.headers = .ok q.userToken) t t' := by
  induction h with
  | refl => exact .refl
  | step f request _ hr ih =>
    rcases call_step f authorizer decoder request _ with he | ⟨q, hv, he⟩
    · rwa [he]
    · rw [he]
      exact .step f q ih ⟨request, hr, hv⟩

/-- A put by the user the authorizer verifies is a run of one write by that user, which stores its item. -/
theorem reaches_one_put :
    ServerReaches (fun _ => True) ⟨fun _ => .ok "v"⟩ ⟨fun _ => .error "", fun _ => .ok ⟨"s", none, [⟨"a", [1], 0⟩], []⟩,
        fun _ => .error "", fun _ => .error ""⟩ VssDb.empty
        (call noFaults ⟨fun _ => .ok "v"⟩ ⟨fun _ => .error "", fun _ => .ok ⟨"s", none, [⟨"a", [1], 0⟩], []⟩,
          fun _ => .error "", fun _ => .error ""⟩ ⟨"/vss/putObjects", [], some []⟩ VssDb.empty).2 ∧
      Reaches (fun q => ∃ request : HttpRequest, True ∧
          (⟨fun _ => .ok "v"⟩ : Authorizer).verify request.headers = .ok q.userToken) VssDb.empty
        (call noFaults ⟨fun _ => .ok "v"⟩ ⟨fun _ => .error "", fun _ => .ok ⟨"s", none, [⟨"a", [1], 0⟩], []⟩,
          fun _ => .error "", fun _ => .error ""⟩ ⟨"/vss/putObjects", [], some []⟩ VssDb.empty).2 ∧
      (call noFaults ⟨fun _ => .ok "v"⟩ ⟨fun _ => .error "", fun _ => .ok ⟨"s", none, [⟨"a", [1], 0⟩], []⟩,
          fun _ => .error "", fun _ => .error ""⟩ ⟨"/vss/putObjects", [], some []⟩ VssDb.empty).2.get ⟨"v", "s", "a"⟩ =
        some ⟨[1], 1⟩ :=
  have h : ServerReaches (fun _ => True) ⟨fun _ => .ok "v"⟩ ⟨fun _ => .error "",
      fun _ => .ok ⟨"s", none, [⟨"a", [1], 0⟩], []⟩, fun _ => .error "", fun _ => .error ""⟩ VssDb.empty
      (call noFaults ⟨fun _ => .ok "v"⟩ ⟨fun _ => .error "", fun _ => .ok ⟨"s", none, [⟨"a", [1], 0⟩], []⟩,
        fun _ => .error "", fun _ => .error ""⟩ ⟨"/vss/putObjects", [], some []⟩ VssDb.empty).2 :=
    .step noFaults _ .refl trivial
  ⟨h, reaches h, rfl⟩

/-- **The rows of a user change only through requests verified as that user.** -/
theorem get_other {userToken : String}
    (h : ServerReaches (fun request => authorizer.verify request.headers ≠ .ok userToken) authorizer decoder t t')
    (storeId key : String) : t'.get ⟨userToken, storeId, key⟩ = t.get ⟨userToken, storeId, key⟩ := by
  induction h with
  | refl => rfl
  | step f request _ hr ih => rw [call_get_other f authorizer decoder request _ hr, ih]

theorem get_other_put_by_other :
    ServerReaches (fun request => (⟨fun _ => .ok "v"⟩ : Authorizer).verify request.headers ≠ .ok "u")
        ⟨fun _ => .ok "v"⟩ ⟨fun _ => .error "", fun _ => .ok ⟨"s", none, [⟨"a", [1], 0⟩], []⟩, fun _ => .error "",
          fun _ => .error ""⟩ VssDb.empty
        (call noFaults ⟨fun _ => .ok "v"⟩ ⟨fun _ => .error "", fun _ => .ok ⟨"s", none, [⟨"a", [1], 0⟩], []⟩,
          fun _ => .error "", fun _ => .error ""⟩ ⟨"/vss/putObjects", [], some []⟩ VssDb.empty).2 ∧
      (call noFaults ⟨fun _ => .ok "v"⟩ ⟨fun _ => .error "", fun _ => .ok ⟨"s", none, [⟨"a", [1], 0⟩], []⟩,
          fun _ => .error "", fun _ => .error ""⟩ ⟨"/vss/putObjects", [], some []⟩ VssDb.empty).2.get ⟨"u", "s", "a"⟩ =
        VssDb.empty.get ⟨"u", "s", "a"⟩ :=
  have h : ServerReaches (fun request => (⟨fun _ => .ok "v"⟩ : Authorizer).verify request.headers ≠ .ok "u")
      ⟨fun _ => .ok "v"⟩ ⟨fun _ => .error "", fun _ => .ok ⟨"s", none, [⟨"a", [1], 0⟩], []⟩, fun _ => .error "",
        fun _ => .error ""⟩ VssDb.empty
      (call noFaults ⟨fun _ => .ok "v"⟩ ⟨fun _ => .error "", fun _ => .ok ⟨"s", none, [⟨"a", [1], 0⟩], []⟩,
        fun _ => .error "", fun _ => .error ""⟩ ⟨"/vss/putObjects", [], some []⟩ VssDb.empty).2 :=
    .step noFaults _ .refl fun he => absurd (Except.ok.inj he) (by decide)
  ⟨h, get_other h "s" "a"⟩

end ServerReaches

/-! ## What a client sees of the backing store's failures -/

/-- **Two patterns of failures that fail the same calls**, with whatever texts. -/
def Faults.SameCalls (f₁ f₂ : Faults) : Prop := ∀ c, (f₁.failure c).isSome = (f₂.failure c).isSome

/-- What a client sees of an error: all of it but an internal error's text, which `build_error_response` replaces. -/
def VssError.visible : VssError → VssError
  | .internalServerError _ => .internalServerError ""
  | e => e

theorem buildErrorResponse_visible (e : VssError) : buildErrorResponse e.visible = buildErrorResponse e := by
  cases e <;> rfl

/-- Two answers a client cannot tell apart: equal up to the texts of internal errors. -/
def Alike {α : Type} (a₁ a₂ : Except VssError α) : Prop :=
  a₁.mapError VssError.visible = a₂.mapError VssError.visible

namespace Alike

variable {α β : Type}

theorem refl (a : Except VssError α) : Alike a a := rfl

theorem bind {a₁ a₂ : Except VssError α} (h : Alike a₁ a₂) {g₁ g₂ : α → Except VssError β}
    (hg : ∀ x, Alike (g₁ x) (g₂ x)) : Alike (a₁ >>= g₁) (a₂ >>= g₂) := by
  unfold Alike at h
  cases a₁ <;> cases a₂ <;> simp only [Except.mapError, Except.error.injEq, Except.ok.injEq, reduceCtorEq] at h
  · exact congrArg (Except.error ·) h
  · subst h
    exact hg _

end Alike

section Faults

variable {f₁ f₂ : Faults} (hf : f₁.SameCalls f₂)
include hf

theorem backendCall_alike (c : BackendCall) (context : String) :
    Alike (backendCall f₁ c context) (backendCall f₂ c context) := by
  have hc := hf c
  unfold backendCall
  cases h₁ : f₁.failure c <;> cases h₂ : f₂.failure c <;>
    simp_all [Alike, Except.mapError, VssError.ofIo, VssError.visible]

theorem transactionCalls_alike (n : Nat) : Alike (transactionCalls f₁ n) (transactionCalls f₂ n) := by
  have hs : ∀ i n, Alike (statementsCall f₁ i n) (statementsCall f₂ i n) := fun i n => by
    induction n generalizing i with
    | zero => exact .refl _
    | succ n ih => exact (backendCall_alike hf _ _).bind fun _ => ih _
  exact (backendCall_alike hf _ _).bind fun _ => (backendCall_alike hf _ _).bind fun _ => hs 0 n

/-- A transaction that ends the same way under both, from the same working copy, is alike. -/
theorem rollback_alike {α : Type} (t : VssDb) (answer : Except VssError α) :
    Alike (rollback f₁ t answer).1 (rollback f₂ t answer).1 := by
  have h := backendCall_alike hf .rollback "Transaction rollback error: "
  unfold rollback
  generalize backendCall f₁ .rollback _ = c₁ at h ⊢
  generalize backendCall f₂ .rollback _ = c₂ at h ⊢
  cases c₁ <;> cases c₂ <;> simp_all [Alike, Except.mapError]

theorem commit_alike {α : Type} (t t' : VssDb) (ok : α) :
    Alike (commit f₁ t t' ok).1 (commit f₂ t t' ok).1 ∧ (commit f₁ t t' ok).2 = (commit f₂ t t' ok).2 := by
  have h := backendCall_alike hf .commit "Transaction commit error: "
  unfold commit
  generalize backendCall f₁ .commit _ = c₁ at h ⊢
  generalize backendCall f₂ .commit _ = c₂ at h ⊢
  cases c₁ <;> cases c₂ <;> simp_all [Alike, Except.mapError]

/-- **`put` under two patterns of failures that fail the same calls**: alike answers, the same table. -/
theorem put_alike (t : VssDb) (userToken : String) (request : PutObjectRequest) :
    Alike (put f₁ t userToken request).1 (put f₂ t userToken request).1 ∧
      (put f₁ t userToken request).2 = (put f₂ t userToken request).2 := by
  have h := transactionCalls_alike hf (writeSet userToken request).length
  rw [put_eq_putUnder, put_eq_putUnder]
  unfold putUnder
  split_ifs
  · exact ⟨.refl _, rfl⟩
  generalize transactionCalls f₁ _ = c₁ at h ⊢
  generalize transactionCalls f₂ _ = c₂ at h ⊢
  cases c₁ <;> cases c₂ <;> simp only [Alike, Except.mapError, Except.error.injEq, reduceCtorEq] at h
  · exact ⟨congrArg (Except.error ·) h, rfl⟩
  · dsimp only
    split
    · exact commit_alike hf _ _ _
    · exact ⟨rollback_alike hf _ _, by simp⟩

/-- **`delete` under two patterns of failures that fail the same calls**: alike answers, the same table. -/
theorem delete_alike (t : VssDb) (userToken : String) (request : DeleteObjectRequest) :
    Alike (delete f₁ t userToken request).1 (delete f₂ t userToken request).1 ∧
      (delete f₁ t userToken request).2 = (delete f₂ t userToken request).2 := by
  have h := transactionCalls_alike hf 1
  rw [delete_eq_deleteUnder, delete_eq_deleteUnder]
  obtain ⟨storeId, _ | kv⟩ := request
  · exact ⟨.refl _, rfl⟩
  dsimp only [deleteUnder]
  generalize transactionCalls f₁ _ = c₁ at h ⊢
  generalize transactionCalls f₂ _ = c₂ at h ⊢
  cases c₁ <;> cases c₂ <;> simp only [Alike, Except.mapError, Except.error.injEq, reduceCtorEq] at h
  · exact ⟨congrArg (Except.error ·) h, rfl⟩
  · dsimp only
    split
    · exact commit_alike hf _ _ _
    · exact ⟨rollback_alike hf _ _, by simp⟩

theorem get_alike (t : VssDb) (userToken : String) (request : GetObjectRequest) :
    Alike (get f₁ t userToken request) (get f₂ t userToken request) :=
  (backendCall_alike hf _ _).bind fun _ => (backendCall_alike hf _ _).bind fun _ => .refl _

theorem listKeyVersions_alike (t : VssDb) (userToken : String) (request : ListKeyVersionsRequest) :
    Alike (listKeyVersions f₁ t userToken request) (listKeyVersions f₂ t userToken request) := by
  have hg : Alike (listGlobalVersion f₁ t userToken request) (listGlobalVersion f₂ t userToken request) := by
    unfold listGlobalVersion
    split
    · exact (get_alike hf _ _ _).bind fun _ => .refl _
    · exact .refl _
  have hq (a : Except String (List (String × I64))) (g₁ g₂ : String → String) :
      Alike (a.mapError fun e => .ofIo (g₁ e)) (a.mapError fun e => .ofIo (g₂ e)) := by
    cases a <;> rfl
  exact hg.bind fun _ => (backendCall_alike hf _ _).bind fun _ => (backendCall_alike hf _ _).bind fun _ =>
    (hq _ _ _).bind fun _ => .refl _

end Faults

/-- `handle_request` answers the same for two operations with alike answers and the same table. -/
theorem handleRequest_congr {T R : Type} (authorizer : Authorizer) (request : HttpRequest)
    (decode : List UInt8 → Except String T) {handler₁ handler₂ : String → T → VssDb → Except VssError R × VssDb}
    (message : R → ResponseMessage) (t : VssDb)
    (h : ∀ userToken decoded, Alike (handler₁ userToken decoded t).1 (handler₂ userToken decoded t).1 ∧
      (handler₁ userToken decoded t).2 = (handler₂ userToken decoded t).2) :
    handleRequest authorizer request decode handler₁ message t =
      handleRequest authorizer request decode handler₂ message t := by
  unfold handleRequest
  cases authorizer.verify request.headers with
  | error e => rfl
  | ok userToken =>
    dsimp only
    cases request.body with
    | none => rfl
    | some bytes =>
      dsimp only
      cases decode bytes with
      | error _ => rfl
      | ok decoded =>
        dsimp only
        obtain ⟨ha, ht⟩ := h userToken decoded
        generalize handler₁ userToken decoded t = o₁ at ha ht ⊢
        generalize handler₂ userToken decoded t = o₂ at ha ht ⊢
        obtain ⟨_ | _, t₁⟩ := o₁ <;> obtain ⟨_ | _, t₂⟩ := o₂ <;>
          simp only [Alike, Except.mapError, Except.error.injEq, Except.ok.injEq, reduceCtorEq] at ha ht
        · dsimp only
          rw [← buildErrorResponse_visible, ha, buildErrorResponse_visible, ht]
        · rw [ha, ht]

/-- **Backend diagnostics never reach a client**: under two patterns of failures of the backing store that fail the
same calls, whatever their texts, a request gets the same response and leaves the same table. -/
theorem call_hides_diagnostics {f₁ f₂ : Faults} (hf : f₁.SameCalls f₂) (authorizer : Authorizer)
    (decoder : Decoder) (request : HttpRequest) (t : VssDb) :
    call f₁ authorizer decoder request t = call f₂ authorizer decoder request t := by
  unfold call
  split
  · exact handleRequest_congr _ _ _ _ _ fun _ _ => ⟨get_alike hf _ _ _, rfl⟩
  · exact handleRequest_congr _ _ _ _ _ fun _ _ => put_alike hf _ _ _
  · exact handleRequest_congr _ _ _ _ _ fun _ _ => delete_alike hf _ _ _
  · exact handleRequest_congr _ _ _ _ _ fun _ _ => ⟨listKeyVersions_alike hf _ _ _, rfl⟩
  · rfl
  · rfl

theorem call_hides_diagnostics_connection :
    Faults.SameCalls ⟨fun c => if c = .connection 0 then some "timed out" else none, fun m => "db error: " ++ m⟩
        ⟨fun c => if c = .connection 0 then some "refused" else none, fun _ => "db error"⟩ ∧
      call ⟨fun c => if c = .connection 0 then some "timed out" else none, fun m => "db error: " ++ m⟩
          ⟨fun _ => .ok "u"⟩ ⟨fun _ => .ok ⟨"s", "a"⟩, fun _ => .error "", fun _ => .error "", fun _ => .error ""⟩
          ⟨"/vss/getObject", [], some []⟩ VssDb.empty =
        call ⟨fun c => if c = .connection 0 then some "refused" else none, fun _ => "db error"⟩ ⟨fun _ => .ok "u"⟩
          ⟨fun _ => .ok ⟨"s", "a"⟩, fun _ => .error "", fun _ => .error "", fun _ => .error ""⟩
          ⟨"/vss/getObject", [], some []⟩ VssDb.empty :=
  have hf : Faults.SameCalls ⟨fun c => if c = .connection 0 then some "timed out" else none, fun m => "db error: " ++ m⟩
      ⟨fun c => if c = .connection 0 then some "refused" else none, fun _ => "db error"⟩ := fun c => by
    dsimp only
    split_ifs <;> rfl
  ⟨hf, call_hides_diagnostics hf _ _ _ _⟩

end Vss
