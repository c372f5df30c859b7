import Vss.Refinement
/-!
# Locality — isolation of users and stores, and commutation of disjoint writes

Every statement `PostgresBackendImpl` sends names a row by its full primary key, or (the listing query) filters on
`user_token` and `store_id`.  So each request is confined to a set of keys: it changes no row outside them, and on
two tables that agree on them it answers the same and leaves two tables that agree on them again (`Touches`).
`get` is confined to its one key, `put` and `delete` to the keys of their write sets, `list_key_versions` to its
store; all four to the store of the request (`requests_isolated`).  Two requests confined to disjoint keys commute
(`Touches.comm`), which gives the commutation of writes with disjoint footprints (`disjoint_requests_commute`).
-/
namespace Vss

/-- The keys of the store `storeId` of the user `userToken`. -/
def InStore (userToken storeId : String) (k : CompositeKey) : Prop := k.userToken = userToken ∧ k.storeId = storeId

/-- **A request confined to the keys `F`**: it leaves every other row as it was, and what it answers and leaves
under `F` depends only on the rows under `F`. -/
structure Touches {α : Type} (run : VssDb → α × VssDb) (F : CompositeKey → Prop) : Prop where
  frame : ∀ t k, ¬ F k → (run t).2.get k = t.get k
  congr : ∀ {t t'}, AgreeOn F t t' → (run t).1 = (run t').1 ∧ AgreeOn F (run t).2 (run t').2

namespace Touches

variable {α β : Type} {run : VssDb → α × VssDb} {F G : CompositeKey → Prop}

/-- A request confined to `F` is confined to every larger set of keys. -/
theorem mono (h : Touches run F) (hFG : ∀ k, F k → G k) : Touches run G where
  frame t k hk := h.frame t k fun hf => hk (hFG k hf)
  congr {t t'} ht := by
    have hF := h.congr fun k hk => ht k (hFG k hk)
    refine ⟨hF.1, fun k hk => ?_⟩
    by_cases hf : F k
    · exact hF.2 k hf
    · rw [h.frame t k hf, h.frame t' k hf, ht k hk]

theorem map (h : Touches run F) (g : α → β) : Touches (fun t => Prod.map g id (run t)) F where
  frame := h.frame
  congr ht := ⟨congrArg g (h.congr ht).1, (h.congr ht).2⟩

/-- A read is confined to the keys its answer depends on. -/
theorem of_read {read : VssDb → α} (h : ∀ {t t'}, AgreeOn F t t' → read t = read t') :
    Touches (fun t => (read t, t)) F where
  frame _ _ _ := rfl
  congr ht := ⟨h ht, ht⟩

/-- **Requests confined to disjoint keys commute**: each answers in either order as it does first, and the two
orders leave the same table. -/
theorem comm {run₁ : VssDb → α × VssDb} {run₂ : VssDb → β × VssDb} (h₁ : Touches run₁ F) (h₂ : Touches run₂ G)
    (hd : ∀ k, F k → ¬ G k) (t : VssDb) :
    (run₁ (run₂ t).2).1 = (run₁ t).1 ∧ (run₂ (run₁ t).2).1 = (run₂ t).1 ∧
      (run₁ (run₂ t).2).2 = (run₂ (run₁ t).2).2 := by
  have a₁ : AgreeOn F (run₂ t).2 t := fun k hk => h₂.frame t k (hd k hk)
  have a₂ : AgreeOn G (run₁ t).2 t := fun k hk => h₁.frame t k fun hf => hd k hf hk
  refine ⟨(h₁.congr a₁).1, (h₂.congr a₂).1, VssDb.ext fun k => ?_⟩
  by_cases hf : F k
  · rw [(h₁.congr a₁).2 k hf, h₂.frame _ k (hd k hf)]
  by_cases hg : G k
  · rw [h₁.frame _ k hf, (h₂.congr a₂).2 k hg]
  · rw [h₁.frame (run₂ t).2 k hf, h₂.frame t k hg, h₂.frame (run₁ t).2 k hg, h₁.frame t k hf]

end Touches

/-! ## The four requests -/

section Requests

variable {γ : Type} {F : CompositeKey → Prop} (f : Faults)

theorem rollback_congr {t t' : VssDb} (answer : Except VssError γ) (h : AgreeOn F t t') :
    (rollback f t answer).1 = (rollback f t' answer).1 ∧ AgreeOn F (rollback f t answer).2 (rollback f t' answer).2 := by
  unfold rollback
  cases backendCall f .rollback "Transaction rollback error: " <;> exact ⟨rfl, h⟩

theorem commit_congr {t₁ t₂ t₁' t₂' : VssDb} (ok : γ) (h : AgreeOn F t₁ t₂) (h' : AgreeOn F t₁' t₂') :
    (commit f t₁ t₁' ok).1 = (commit f t₂ t₂' ok).1 ∧ AgreeOn F (commit f t₁ t₁' ok).2 (commit f t₂ t₂' ok).2 := by
  unfold commit
  cases backendCall f .commit "Transaction commit error: "
  · exact ⟨rfl, h⟩
  · exact ⟨rfl, h'⟩

/-- **`put` is confined to the keys of its write set.** -/
theorem put_touches (userToken : String) (request : PutObjectRequest) :
    Touches (put f · userToken request) (fun k => ∃ op ∈ writeSet userToken request, op.key = k) where
  frame t k hk := by
    rcases put_table f t userToken request with h | h
    · rw [h]
    · exact applyAll_frame (fun op hop he => hk ⟨op, hop, he⟩) h
  congr {t t'} h := by
    simp only [put_eq_putUnder]
    unfold putUnder
    split_ifs
    · exact ⟨rfl, h⟩
    cases transactionCalls f (writeSet userToken request).length with
    | error e => exact ⟨rfl, h⟩
    | ok _ =>
      have hr := applyAll_congr (writeSet userToken request) (fun op hop => ⟨op, hop, rfl⟩) h
      dsimp only
      generalize applyAll (writeSet userToken request) t = a at hr ⊢
      generalize applyAll (writeSet userToken request) t' = b at hr ⊢
      cases hr with
      | none => exact rollback_congr f _ h
      | some h' => exact commit_congr f _ h h'

/-- **`delete` is confined to its one key.** -/
theorem delete_touches (userToken : String) (request : DeleteObjectRequest) :
    Touches (delete f · userToken request) (fun k => ∃ op ∈ deleteWrites userToken request, op.key = k) where
  frame t k hk := by
    rcases delete_table f t userToken request with h | h
    · rw [h]
    · exact applyAll_frame (fun op hop he => hk ⟨op, hop, he⟩) h
  congr {t t'} h := by
    simp only [delete_eq_deleteUnder]
    obtain ⟨s, _ | kv⟩ := request
    · exact ⟨rfl, h⟩
    dsimp only [deleteUnder]
    cases transactionCalls f 1 with
    | error e => exact ⟨rfl, h⟩
    | ok _ =>
      have hr := WriteOp.apply_congr _ ⟨_, List.mem_singleton_self _, rfl⟩ h
      dsimp only
      generalize WriteOp.apply _ t = a at hr ⊢
      generalize WriteOp.apply _ t' = b at hr ⊢
      cases hr with
      | none => exact rollback_congr f _ h
      | some h' => exact commit_congr f _ h h'

theorem get_congr {t t' : VssDb} {userToken : String} (request : GetObjectRequest)
    (h : t.get ⟨userToken, request.storeId, request.key⟩ = t'.get ⟨userToken, request.storeId, request.key⟩) :
    get f t userToken request = get f t' userToken request := by
  unfold get selectRow
  rw [h]

/-- **`get` is confined to its one key.** -/
theorem get_touches (userToken : String) (request : GetObjectRequest) :
    Touches (fun t => (get f t userToken request, t)) (· = ⟨userToken, request.storeId, request.key⟩) :=
  Touches.of_read fun h => get_congr f request (h _ rfl)

/-- **`list_key_versions` is confined to its store.** -/
theorem listKeyVersions_touches (userToken : String) (request : ListKeyVersionsRequest) :
    Touches (fun t => (listKeyVersions f t userToken request, t)) (InStore userToken request.storeId) :=
  Touches.of_read fun {t t'} h => by
    have hg := get_congr f ⟨request.storeId, globalVersionKey⟩ (h _ ⟨rfl, rfl⟩)
    have hs : t.storeRows userToken request.storeId = t'.storeRows userToken request.storeId :=
      VssDb.storeRows_congr fun _ => h _ ⟨rfl, rfl⟩
    unfold listKeyVersions listGlobalVersion listKeyVersionsPage selectKeyVersions
    rw [hg, hs]

end Requests

theorem writeSet_inStore {userToken : String} {request : PutObjectRequest} (k : CompositeKey) :
    (∃ op ∈ writeSet userToken request, op.key = k) → InStore userToken request.storeId k := by
  rintro ⟨op, hop, rfl⟩
  simp only [writeSet, List.mem_append, List.mem_map, Option.mem_toList, Option.mem_def, Option.map_eq_some'] at hop
  rcases hop with (⟨kv, -, rfl⟩ | ⟨g, -, rfl⟩) | ⟨kv, -, rfl⟩ <;> exact ⟨rfl, rfl⟩

theorem deleteWrites_inStore {userToken : String} {request : DeleteObjectRequest} (k : CompositeKey) :
    (∃ op ∈ deleteWrites userToken request, op.key = k) → InStore userToken request.storeId k := by
  rintro ⟨op, hop, rfl⟩
  obtain ⟨s, _ | kv⟩ := request
  · cases hop
  · rw [List.mem_singleton.1 hop]
    exact ⟨rfl, rfl⟩

/-- **Isolation of users and stores**: each of the four requests of user `userToken` on store `s` changes no row of
another user or store, and answers the same, leaving tables that agree on `s` again, on any two tables that agree
on the rows of `s`. -/
theorem requests_isolated (f : Faults) (userToken : String) :
    (∀ request : GetObjectRequest,
      Touches (fun t => (get f t userToken request, t)) (InStore userToken request.storeId)) ∧
    (∀ request : PutObjectRequest, Touches (put f · userToken request) (InStore userToken request.storeId)) ∧
    (∀ request : DeleteObjectRequest, Touches (delete f · userToken request) (InStore userToken request.storeId)) ∧
    ∀ request : ListKeyVersionsRequest,
      Touches (fun t => (listKeyVersions f t userToken request, t)) (InStore userToken request.storeId) := by
  refine ⟨fun request => (get_touches f userToken request).mono ?_,
    fun request => (put_touches f userToken request).mono writeSet_inStore,
    fun request => (delete_touches f userToken request).mono deleteWrites_inStore, listKeyVersions_touches f userToken⟩
  rintro _ rfl
  exact ⟨rfl, rfl⟩

/-! ## Write requests -/

/-- A request that can change the table: a `put` or a `delete`, with the user token it came with. -/
inductive WriteRequest where
  | put (userToken : String) (request : PutObjectRequest)
  | delete (userToken : String) (request : DeleteObjectRequest)

/-- The answer to a write request. -/
inductive WriteAnswer where
  | put (answer : Except VssError PutObjectResponse)
  | delete (answer : Except VssError DeleteObjectResponse)

namespace WriteRequest

/-- A write request served by `PostgresBackendImpl`, the backing store failing as `f` says. -/
def exec (f : Faults) : WriteRequest → VssDb → WriteAnswer × VssDb
  | .put userToken request, t => Prod.map .put id (Vss.put f t userToken request)
  | .delete userToken request, t => Prod.map .delete id (Vss.delete f t userToken request)

/-- The operations a write request performs when it commits. -/
def writes : WriteRequest → List WriteOp
  | .put userToken request => writeSet userToken request
  | .delete userToken request => deleteWrites userToken request

/-- The keys a write request names: those of its items and of the reserved key when a `put` carries
`global_version`, and the one key of a `delete`. -/
def footprint : WriteRequest → List CompositeKey
  | .put u r => r.transactionItems.map (fun kv => ⟨u, r.storeId, kv.key⟩) ++
      r.deleteItems.map (fun kv => ⟨u, r.storeId, kv.key⟩) ++
      (r.globalVersion.map fun _ => ⟨u, r.storeId, globalVersionKey⟩).toList
  | .delete u r => r.keyValue.toList.map fun kv => ⟨u, r.storeId, kv.key⟩

/-- The user a write request comes from. -/
def userToken : WriteRequest → String
  | .put u _ => u
  | .delete u _ => u

/-- The store a write request addresses. -/
def storeId : WriteRequest → String
  | .put _ r => r.storeId
  | .delete _ r => r.storeId

theorem writes_inStore : ∀ (q : WriteRequest) (k : CompositeKey), (∃ op ∈ q.writes, op.key = k) →
    InStore q.userToken q.storeId k
  | .put _ _ => writeSet_inStore
  | .delete _ _ => deleteWrites_inStore

theorem exec_touches (f : Faults) : ∀ q : WriteRequest, Touches (q.exec f) (fun k => ∃ op ∈ q.writes, op.key = k)
  | .put userToken request => (put_touches f userToken request).map _
  | .delete userToken request => (delete_touches f userToken request).map _

/-- A write request leaves the rows of every other store. -/
theorem exec_get_other (f : Faults) (q : WriteRequest) (t : VssDb) {u s : String}
    (h : ¬ (q.userToken = u ∧ q.storeId = s)) (k : String) : (q.exec f t).2.get ⟨u, s, k⟩ = t.get ⟨u, s, k⟩ :=
  (q.exec_touches f).frame t _ fun hk => h (by obtain ⟨h₁, h₂⟩ := q.writes_inStore _ hk; exact ⟨h₁.symm, h₂.symm⟩)

theorem key_mem_footprint : ∀ {q : WriteRequest} {k : CompositeKey}, (∃ op ∈ q.writes, op.key = k) → k ∈ q.footprint
  | .put u r, _, ⟨op, hop, rfl⟩ => by
    simp only [writes, writeSet, List.mem_append, List.mem_map, Option.mem_toList, Option.mem_def,
      Option.map_eq_some'] at hop
    rcases hop with (⟨kv, hkv, rfl⟩ | ⟨g, hg, rfl⟩) | ⟨kv, hkv, rfl⟩
    · exact List.mem_append_left _ (List.mem_append_left _ (List.mem_map_of_mem _ hkv))
    · exact List.mem_append_right _ (by simp [hg, WriteOp.key])
    · exact List.mem_append_left _ (List.mem_append_right _ (List.mem_map_of_mem _ hkv))
  | .delete u r, _, ⟨op, hop, rfl⟩ => by
    simp only [writes, deleteWrites, List.mem_map] at hop
    obtain ⟨kv, hkv, rfl⟩ := hop
    exact List.mem_map.2 ⟨kv, hkv, rfl⟩

end WriteRequest

/-- **Writes with disjoint footprints commute**: in either order each answers as it does alone on the table, and
both orders leave the same table. -/
theorem disjoint_requests_commute (f₁ f₂ : Faults) (q₁ q₂ : WriteRequest) (t : VssDb)
    (hd : ∀ k ∈ q₁.footprint, k ∉ q₂.footprint) :
    (q₁.exec f₁ (q₂.exec f₂ t).2).1 = (q₁.exec f₁ t).1 ∧ (q₂.exec f₂ (q₁.exec f₁ t).2).1 = (q₂.exec f₂ t).1 ∧
      (q₁.exec f₁ (q₂.exec f₂ t).2).2 = (q₂.exec f₂ (q₁.exec f₁ t).2).2 :=
  ((q₁.exec_touches f₁).mono fun _ => WriteRequest.key_mem_footprint).comm
    ((q₂.exec_touches f₂).mono fun _ => WriteRequest.key_mem_footprint) hd t

theorem disjoint_requests_commute_put_delete :
    (∀ k ∈ (WriteRequest.put "u" ⟨"s", none, [⟨"a", [], 0⟩], []⟩).footprint,
      k ∉ (WriteRequest.delete "u" ⟨"s", some ⟨"b", [], 1⟩⟩).footprint) ∧
    ((WriteRequest.put "u" ⟨"s", none, [⟨"a", [], 0⟩], []⟩).exec noFaults
        ((WriteRequest.delete "u" ⟨"s", some ⟨"b", [], 1⟩⟩).exec noFaults VssDb.empty).2).1 =
      ((WriteRequest.put "u" ⟨"s", none, [⟨"a", [], 0⟩], []⟩).exec noFaults VssDb.empty).1 ∧
    ((WriteRequest.delete "u" ⟨"s", some ⟨"b", [], 1⟩⟩).exec noFaults
        ((WriteRequest.put "u" ⟨"s", none, [⟨"a", [], 0⟩], []⟩).exec noFaults VssDb.empty).2).1 =
      ((WriteRequest.delete "u" ⟨"s", some ⟨"b", [], 1⟩⟩).exec noFaults VssDb.empty).1 ∧
    ((WriteRequest.put "u" ⟨"s", none, [⟨"a", [], 0⟩], []⟩).exec noFaults
        ((WriteRequest.delete "u" ⟨"s", some ⟨"b", [], 1⟩⟩).exec noFaults VssDb.empty).2).2 =
      ((WriteRequest.delete "u" ⟨"s", some ⟨"b", [], 1⟩⟩).exec noFaults
        ((WriteRequest.put "u" ⟨"s", none, [⟨"a", [], 0⟩], []⟩).exec noFaults VssDb.empty).2).2 :=
  have hd : ∀ k ∈ (WriteRequest.put "u" ⟨"s", none, [⟨"a", [], 0⟩], []⟩).footprint,
      k ∉ (WriteRequest.delete "u" ⟨"s", some ⟨"b", [], 1⟩⟩).footprint := by decide
  ⟨hd, disjoint_requests_commute noFaults noFaults _ _ VssDb.empty hd⟩

end Vss
