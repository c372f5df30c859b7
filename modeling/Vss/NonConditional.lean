import Vss.Refinement
/-!
# NonConditional — a batch that expects no version, run twice

A write with version `-1` is `execute_non_conditional_upsert` and a delete with `-1` is
`execute_non_conditional_delete`: neither reads the row's version, so what such an operation leaves under its key
does not depend on what was there (`WriteOp.effect_nonConditional`).  After a batch of them has run to the end, each
key holds what the last operation on it left, or what it held before when none addresses it (`applyAll_get_settle`);
reading a key through the batch twice is reading it once (`settle_settle`).  So running the batch again changes
nothing, whether the second run commits or not (`applyAll_nonConditional_twice`), and neither does running the request
again (`put_twice_nonConditional`).
-/
namespace Vss

/-- The version an operation expects. -/
def WriteOp.version : WriteOp → I64
  | .write _ _ v => v
  | .delete _ v => v

/-- An operation that expects no version: its version is `-1`. -/
def WriteOp.NonConditional (op : WriteOp) : Prop := op.version.val = -1

instance : DecidablePred WriteOp.NonConditional := fun op => inferInstanceAs (Decidable (op.version.val = -1))

/-- The row a non-conditional operation leaves under its key: the written value at `INITIAL_RECORD_VERSION`, or no
row. -/
def WriteOp.nonConditionalRow : WriteOp → Option Row
  | .write _ value _ => some ⟨value, initialRecordVersion⟩
  | .delete _ _ => none

/-- **A non-conditional operation that affects its row leaves its own row there**, whatever was there. -/
theorem WriteOp.effect_nonConditional {op : WriteOp} (h : op.NonConditional) {row o : Option Row}
    (he : op.effect row = some o) : o = op.nonConditionalRow := by
  cases op with
  | write k value v =>
    simp only [WriteOp.effect, if_pos (show v.val = -1 from h), Option.some.injEq] at he
    exact he.symm
  | delete k v => exact (WriteOp.effect_delete he).1

/-! ## What a batch leaves under one key -/

/-- What `k` holds after the operations, each affecting its row and none expecting a version, from `row`: what the
last operation on `k` leaves, or `row` when none addresses `k`. -/
def settle (k : CompositeKey) : List WriteOp → Option Row → Option Row
  | [], row => row
  | op :: ops, row => settle k ops (if k = op.key then op.nonConditionalRow else row)

section Settle

variable {k : CompositeKey}

theorem settle_of_forall_ne : ∀ {ops : List WriteOp}, (∀ op ∈ ops, op.key ≠ k) → ∀ row, settle k ops row = row
  | [], _, _ => rfl
  | op :: ops, hk, row => by
    rw [settle, if_neg (Ne.symm (hk op (List.mem_cons_self _ _))),
      settle_of_forall_ne (fun o ho => hk o (List.mem_cons_of_mem _ ho))]

/-- A batch that addresses `k` forgets what `k` held. -/
theorem settle_congr_of_mem : ∀ {ops : List WriteOp}, (∃ op ∈ ops, op.key = k) →
    ∀ row row', settle k ops row = settle k ops row'
  | [], ⟨_, hm, _⟩, _, _ => absurd hm (List.not_mem_nil _)
  | op :: ops, ⟨o, ho, hok⟩, row, row' => by
    simp only [settle]
    by_cases h : k = op.key
    · rw [if_pos h, if_pos h]
    · rw [if_neg h, if_neg h]
      obtain rfl | ho := List.mem_cons.1 ho
      · exact absurd hok.symm h
      · exact settle_congr_of_mem ⟨o, ho, hok⟩ _ _

/-- **Reading a key through a batch twice is reading it once.** -/
theorem settle_settle (ops : List WriteOp) (row : Option Row) : settle k ops (settle k ops row) = settle k ops row := by
  by_cases h : ∃ op ∈ ops, op.key = k
  · exact settle_congr_of_mem h _ _
  · push_neg at h
    rw [settle_of_forall_ne h, settle_of_forall_ne h]

end Settle

/-- **What a batch of non-conditional operations that ran to the end leaves under each key.** -/
theorem applyAll_get_settle {k : CompositeKey} : ∀ {ops : List WriteOp}, (∀ op ∈ ops, op.NonConditional) →
    ∀ {t t' : VssDb}, applyAll ops t = some t' → t'.get k = settle k ops (t.get k)
  | [], _, _, _, h => by cases h; rfl
  | op :: ops, hn, t, t', h => by
    simp only [applyAll, Option.bind_eq_some] at h
    obtain ⟨t₁, h₁, h₂⟩ := h
    obtain ⟨o, ho, rfl⟩ := VssDb.update_eq_some.1 h₁
    rw [applyAll_get_settle (fun o ho => hn o (List.mem_cons_of_mem _ ho)) h₂, settle, VssDb.get_write,
      WriteOp.effect_nonConditional (hn op (List.mem_cons_self _ _)) ho]

/-- **A batch of non-conditional operations run again on the table it left leaves it as it is.** -/
theorem applyAll_nonConditional_twice {ops : List WriteOp} (hn : ∀ op ∈ ops, op.NonConditional) {t t₁ t₂ : VssDb}
    (h₁ : applyAll ops t = some t₁) (h₂ : applyAll ops t₁ = some t₂) : t₂ = t₁ :=
  VssDb.ext fun k => by rw [applyAll_get_settle hn h₂, applyAll_get_settle hn h₁, settle_settle]

/-- A request whose items and global version all carry `-1` writes only non-conditional operations. -/
theorem writeSet_nonConditional {userToken : String} {request : PutObjectRequest}
    (ht : ∀ kv ∈ request.transactionItems, kv.version.val = -1) (hd : ∀ kv ∈ request.deleteItems, kv.version.val = -1)
    (hg : ∀ g ∈ request.globalVersion, g.val = -1) : ∀ op ∈ writeSet userToken request, op.NonConditional := by
  simp only [writeSet, List.mem_append, List.mem_map, Option.mem_toList, Option.mem_def, Option.map_eq_some']
  rintro op ((⟨kv, hkv, rfl⟩ | ⟨g, hgv, rfl⟩) | ⟨kv, hkv, rfl⟩)
  · exact ht kv hkv
  · exact hg g hgv
  · exact hd kv hkv

/-! ## The request run twice -/

/-- **A put of non-conditional items, run again, leaves the table it left**: with a healthy backing store whatever
the first run answered, and under any failures once the first run answered `Ok`. -/
theorem put_twice_nonConditional (t : VssDb) (userToken : String) (request : PutObjectRequest)
    (ht : ∀ kv ∈ request.transactionItems, kv.version.val = -1) (hd : ∀ kv ∈ request.deleteItems, kv.version.val = -1)
    (hg : ∀ g ∈ request.globalVersion, g.val = -1) :
    (put noFaults (put noFaults t userToken request).2 userToken request).2 = (put noFaults t userToken request).2 ∧
      ∀ f₁ f₂ x, (put f₁ t userToken request).1 = .ok x →
        (put f₂ (put f₁ t userToken request).2 userToken request).2 = (put f₁ t userToken request).2 := by
  have hn : ∀ op ∈ writeSet userToken request, op.NonConditional := writeSet_nonConditional ht hd hg
  have again : ∀ f t₁, applyAll (writeSet userToken request) t = some t₁ →
      (put f t₁ userToken request).2 = t₁ := fun f t₁ h₁ =>
    (put_table f t₁ userToken request).elim id fun h₂ => applyAll_nonConditional_twice hn h₁ h₂
  refine ⟨?_, fun f₁ f₂ x h => again f₂ _ (put_ok_applyAll h)⟩
  rcases put_table noFaults t userToken request with h | h
  · rw [h, h]
  · exact again noFaults _ h

theorem put_twice_nonConditional_write_delete :
    (∀ kv ∈ [(⟨"a", [1], SInt.saturate 64 (-1)⟩ : KeyValue)], kv.version.val = -1) ∧
      (∀ kv ∈ [(⟨"a", [], SInt.saturate 64 (-1)⟩ : KeyValue)], kv.version.val = -1) ∧
      (∀ g ∈ some (SInt.saturate 64 (-1)), g.val = -1) ∧
      (put noFaults (put noFaults VssDb.empty "u" ⟨"s", some (SInt.saturate 64 (-1)),
          [⟨"a", [1], SInt.saturate 64 (-1)⟩], [⟨"a", [], SInt.saturate 64 (-1)⟩]⟩).2 "u"
          ⟨"s", some (SInt.saturate 64 (-1)), [⟨"a", [1], SInt.saturate 64 (-1)⟩], [⟨"a", [], SInt.saturate 64 (-1)⟩]⟩).2 =
        (put noFaults VssDb.empty "u" ⟨"s", some (SInt.saturate 64 (-1)),
          [⟨"a", [1], SInt.saturate 64 (-1)⟩], [⟨"a", [], SInt.saturate 64 (-1)⟩]⟩).2 ∧
      ∀ f₁ f₂ x, (put f₁ VssDb.empty "u" ⟨"s", some (SInt.saturate 64 (-1)),
          [⟨"a", [1], SInt.saturate 64 (-1)⟩], [⟨"a", [], SInt.saturate 64 (-1)⟩]⟩).1 = .ok x →
        (put f₂ (put f₁ VssDb.empty "u" ⟨"s", some (SInt.saturate 64 (-1)),
            [⟨"a", [1], SInt.saturate 64 (-1)⟩], [⟨"a", [], SInt.saturate 64 (-1)⟩]⟩).2 "u"
            ⟨"s", some (SInt.saturate 64 (-1)), [⟨"a", [1], SInt.saturate 64 (-1)⟩],
              [⟨"a", [], SInt.saturate 64 (-1)⟩]⟩).2 =
          (put f₁ VssDb.empty "u" ⟨"s", some (SInt.saturate 64 (-1)),
            [⟨"a", [1], SInt.saturate 64 (-1)⟩], [⟨"a", [], SInt.saturate 64 (-1)⟩]⟩).2 :=
  ⟨by decide, by decide, by decide, put_twice_nonConditional _ _ _ (by decide) (by decide) (by decide)⟩

end Vss
