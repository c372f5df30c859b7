import Vss.Refinement
/-!
# Order — the write set in the order the specification gives

§4.1 lists a batch's operations as `transaction_items`, then `delete_items`, then the global-version write, and lets
an implementation reorder them "so long as atomicity, conflict detection, and the final committed state are
equivalent".  `put` pushes the global-version record onto `vss_put_records`, so it runs before every delete
(`writeSet`).  `putInSpecOrder` is `putUnder` with the specification's order (`specWriteSet`), and nothing else
changed.

Operations on different keys commute (`WriteOp.apply_comm`), so moving the global-version write past deletes of other
keys changes nothing: where no global version is sent or no delete item names the reserved key, `put` is
`putInSpecOrder` under every pattern of failures (`put_eq_putInSpecOrder`).  A batch that does both is not equivalent
(`put_order_diverges`).
-/
namespace Vss

/-- The write set in the specification's order: `transaction_items`, then `delete_items`, then the global-version
write. -/
def specWriteSet (userToken : String) (request : PutObjectRequest) : List WriteOp :=
  request.transactionItems.map (fun kv => .write ⟨userToken, request.storeId, kv.key⟩ kv.value kv.version) ++
    request.deleteItems.map (fun kv => .delete ⟨userToken, request.storeId, kv.key⟩ kv.version) ++
    (request.globalVersion.map fun g => WriteOp.write ⟨userToken, request.storeId, globalVersionKey⟩ [] g).toList

/-- **`put` in the specification's order**: `putUnder` with the write set of §4.1, under the same item limit, the
same calls to the backing store, and the same rule that an operation affecting no row rolls the batch back with
`Conflict`. -/
def putInSpecOrder (f : Faults) (t : VssDb) (userToken : String) (request : PutObjectRequest) :
    Except VssError PutObjectResponse × VssDb :=
  if maxPutRequestItemCount < request.transactionItems.length + request.deleteItems.length then
    (.error putItemCountError, t)
  else
    match transactionCalls f (specWriteSet userToken request).length with
    | .error e => (.error e, t)
    | .ok _ =>
      match applyAll (specWriteSet userToken request) t with
      | some t' => commit f t t' {}
      | none => rollback f t (.error putConflictError)

/-! ## Moving the global-version write -/

/-- **Operations on different keys commute.** -/
theorem WriteOp.apply_comm {a b : WriteOp} (h : a.key ≠ b.key) (t : VssDb) :
    (a.apply t).bind b.apply = (b.apply t).bind a.apply := by
  simp only [WriteOp.apply, VssDb.update]
  cases ha : a.effect (t.get a.key) <;> cases hb : b.effect (t.get b.key) <;>
    simp [VssDb.get_write_ne _ _ h, VssDb.get_write_ne _ _ (Ne.symm h), ha, hb, VssDb.write_comm _ h]

/-- An operation moves past operations on other keys. -/
theorem applyAll_cons_eq_append {a : WriteOp} : ∀ {ops : List WriteOp}, (∀ op ∈ ops, op.key ≠ a.key) →
    ∀ t, applyAll (a :: ops) t = applyAll (ops ++ [a]) t
  | [], _, _ => rfl
  | op :: ops, hk, t => by
    have ih : applyAll (a :: ops) = applyAll (ops ++ [a]) :=
      funext (applyAll_cons_eq_append fun o ho => hk o (List.mem_cons_of_mem _ ho))
    calc applyAll (a :: op :: ops) t = ((a.apply t).bind op.apply).bind (applyAll ops) := by
          rw [Option.bind_assoc]; rfl
      _ = ((op.apply t).bind a.apply).bind (applyAll ops) := by
          rw [WriteOp.apply_comm (Ne.symm (hk op (List.mem_cons_self _ _)))]
      _ = (op.apply t).bind (applyAll (a :: ops)) := by rw [Option.bind_assoc]; rfl
      _ = applyAll (op :: ops ++ [a]) t := by rw [ih]; rfl

theorem length_specWriteSet (userToken : String) (request : PutObjectRequest) :
    (specWriteSet userToken request).length = (writeSet userToken request).length := by
  simp only [specWriteSet, writeSet, List.length_append]
  omega

/-- **The two orders run alike** when no global version is sent or no delete item names the reserved key. -/
theorem applyAll_specWriteSet {userToken : String} {request : PutObjectRequest}
    (h : ∀ g ∈ request.globalVersion, ∀ kv ∈ request.deleteItems, kv.key ≠ globalVersionKey) (t : VssDb) :
    applyAll (specWriteSet userToken request) t = applyAll (writeSet userToken request) t := by
  obtain ⟨storeId, _ | g, items, deletes⟩ := request
  · simp [specWriteSet, writeSet]
  · have hk : ∀ op ∈ deletes.map (fun kv => WriteOp.delete ⟨userToken, storeId, kv.key⟩ kv.version),
        op.key ≠ ⟨userToken, storeId, globalVersionKey⟩ := by
      simp only [List.mem_map]
      rintro op ⟨kv, hkv, rfl⟩ he
      exact h g rfl kv hkv (congrArg CompositeKey.key he)
    simp only [specWriteSet, writeSet, Option.map_some', Option.toList_some, List.append_assoc, List.singleton_append]
    rw [applyAll_append, applyAll_append, funext (applyAll_cons_eq_append hk)]

/-- **Where no delete item names the reserved key, the code's order is the specification's**: `put` answers and
commits as `putInSpecOrder` under every pattern of failures. -/
theorem put_eq_putInSpecOrder (f : Faults) (t : VssDb) (userToken : String) (request : PutObjectRequest)
    (h : ∀ g ∈ request.globalVersion, ∀ kv ∈ request.deleteItems, kv.key ≠ globalVersionKey) :
    put f t userToken request = putInSpecOrder f t userToken request := by
  unfold putInSpecOrder
  rw [length_specWriteSet, applyAll_specWriteSet h, put_eq_putUnder]
  rfl

theorem put_eq_putInSpecOrder_write_delete :
    (∀ g ∈ some (0 : I64), ∀ kv ∈ [(⟨"a", [], SInt.saturate 64 (-1)⟩ : KeyValue)], kv.key ≠ globalVersionKey) ∧
      put noFaults VssDb.empty "u" ⟨"s", some 0, [⟨"a", [1], 0⟩], [⟨"a", [], SInt.saturate 64 (-1)⟩]⟩ =
        putInSpecOrder noFaults VssDb.empty "u" ⟨"s", some 0, [⟨"a", [1], 0⟩], [⟨"a", [], SInt.saturate 64 (-1)⟩]⟩ :=
  have h : ∀ g ∈ some (0 : I64), ∀ kv ∈ [(⟨"a", [], SInt.saturate 64 (-1)⟩ : KeyValue)], kv.key ≠ globalVersionKey :=
    fun _ _ kv hkv => by rw [List.mem_singleton.1 hkv]; decide
  ⟨h, put_eq_putInSpecOrder _ _ _ _ h⟩

/-! ## A global version with a delete of the reserved key -/

/-- **A batch that sends a global version and deletes the reserved key is not the specification's batch.**  On the
empty table the code writes the reserved row, deletes it and commits, while in the specification's order the delete
finds no row and the batch is refused with `Conflict`.  From a table that holds the reserved row both orders commit,
and the code leaves the reserved key deleted where the specification's order leaves it rewritten. -/
theorem put_order_diverges :
    put noFaults VssDb.empty "u" ⟨"s", some 0, [], [⟨globalVersionKey, [], SInt.saturate 64 (-1)⟩]⟩ =
        (.ok {}, VssDb.empty) ∧
      putInSpecOrder noFaults VssDb.empty "u" ⟨"s", some 0, [], [⟨globalVersionKey, [], SInt.saturate 64 (-1)⟩]⟩ =
        (.error putConflictError, VssDb.empty) ∧
      (put noFaults (put noFaults VssDb.empty "u" ⟨"s", some 0, [], []⟩).2 "u"
          ⟨"s", some (SInt.saturate 64 (-1)), [], [⟨globalVersionKey, [], SInt.saturate 64 (-1)⟩]⟩).1 = .ok {} ∧
      (putInSpecOrder noFaults (put noFaults VssDb.empty "u" ⟨"s", some 0, [], []⟩).2 "u"
          ⟨"s", some (SInt.saturate 64 (-1)), [], [⟨globalVersionKey, [], SInt.saturate 64 (-1)⟩]⟩).1 = .ok {} ∧
      (put noFaults (put noFaults VssDb.empty "u" ⟨"s", some 0, [], []⟩).2 "u"
          ⟨"s", some (SInt.saturate 64 (-1)), [], [⟨globalVersionKey, [], SInt.saturate 64 (-1)⟩]⟩).2.get
          ⟨"u", "s", globalVersionKey⟩ = none ∧
      (putInSpecOrder noFaults (put noFaults VssDb.empty "u" ⟨"s", some 0, [], []⟩).2 "u"
          ⟨"s", some (SInt.saturate 64 (-1)), [], [⟨globalVersionKey, [], SInt.saturate 64 (-1)⟩]⟩).2.get
          ⟨"u", "s", globalVersionKey⟩ = some ⟨[], initialRecordVersion⟩ :=
  ⟨rfl, rfl, rfl, rfl, rfl, rfl⟩

end Vss
