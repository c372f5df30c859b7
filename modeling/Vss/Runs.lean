import Vss.Listing
/-!
# Runs — what every sequence of writes keeps

A run is a sequence of `put` and `delete` requests, each under failures of its own (`Reaches`).  A request either
leaves the table as it was or applies its write set (`WriteRequest.exec_table`), so a property of tables that every
operation of the allowed requests keeps holds all along a run (`Reaches.invariant`, `WriteRequest.exec_preserves`).

The first such property: every stored version lies in `1 ..= i64::MAX` (`reachable_versions`).  Upserts and inserts
write `INITIAL_RECORD_VERSION`, and an update succeeds only over a stored version, which it raises; so the version
`get` returns is never the sentinel `-1`, and writing it back takes the insert or the update path and succeeds.
-/
namespace Vss

/-- **Runs**: the tables reached from `t` by write requests that each satisfy `allowed`, each under failures of its
own. -/
inductive Reaches (allowed : WriteRequest → Prop) (t : VssDb) : VssDb → Prop
  | refl : Reaches allowed t t
  | step {t' : VssDb} (f : Faults) (q : WriteRequest) : Reaches allowed t t' → allowed q →
      Reaches allowed t (q.exec f t').2

/-- The tables some run of writes reaches from the empty table. -/
def Reachable (t : VssDb) : Prop := Reaches (fun _ => True) VssDb.empty t

namespace Reaches

variable {allowed : WriteRequest → Prop} {t₀ t₁ t₂ : VssDb}

/-- **An invariant of every run**: a property of the start that every allowed request keeps. -/
theorem invariant {I : VssDb → Prop} (h : Reaches allowed t₀ t₁) (h₀ : I t₀)
    (step : ∀ f q t, allowed q → I t → I (q.exec f t).2) : I t₁ := by
  induction h with
  | refl => exact h₀
  | step f q _ hq ih => exact step f q _ hq ih

theorem trans (h₁ : Reaches allowed t₀ t₁) (h₂ : Reaches allowed t₁ t₂) : Reaches allowed t₀ t₂ := by
  induction h₂ with
  | refl => exact h₁
  | step f q _ hq ih => exact .step f q ih hq

end Reaches

/-! ## One request of a run -/

/-- **A request leaves the table, or applies its write set.** -/
theorem WriteRequest.exec_table (f : Faults) :
    ∀ (q : WriteRequest) (t : VssDb), (q.exec f t).2 = t ∨ applyAll q.writes t = some (q.exec f t).2
  | .put userToken request, t => put_table f t userToken request
  | .delete userToken request, t => delete_table f t userToken request

section Preserve

variable {ok : WriteOp → Prop} {I : VssDb → Prop} (hI : ∀ op t t', ok op → op.apply t = some t' → I t → I t')
include hI

/-- A property every operation in `ok` keeps is kept by a list of them. -/
theorem applyAll_preserves : ∀ {ops : List WriteOp} {t t' : VssDb}, (∀ op ∈ ops, ok op) →
    applyAll ops t = some t' → I t → I t'
  | [], _, _, _, h, ht => by cases h; exact ht
  | op :: ops, t, _, hok, h, ht => by
    simp only [applyAll, Option.bind_eq_some] at h
    obtain ⟨t₁, h₁, h₂⟩ := h
    exact applyAll_preserves (fun o ho => hok o (List.mem_cons_of_mem _ ho)) h₂
      (hI op t t₁ (hok op (List.mem_cons_self _ _)) h₁ ht)

/-- **A property every operation of a request keeps is kept by the request**, whatever fails. -/
theorem WriteRequest.exec_preserves (f : Faults) (q : WriteRequest) (hq : ∀ op ∈ q.writes, ok op) {t : VssDb}
    (ht : I t) : I (q.exec f t).2 := by
  rcases q.exec_table f t with h | h
  · rw [h]
    exact ht
  · exact applyAll_preserves hI hq h ht

end Preserve

/-! ## Versions -/

/-- **Every stored version is at least `INITIAL_RECORD_VERSION`.** -/
def VersionsValid (t : VssDb) : Prop := ∀ k row, t.get k = some row → 1 ≤ row.version.val

theorem versionsValid_empty : VersionsValid VssDb.empty := fun _ _ h => by simp at h

/-- An operation keeps every stored version at `1` or above. -/
theorem WriteOp.apply_versionsValid {op : WriteOp} {t t' : VssDb} (h : op.apply t = some t') (ht : VersionsValid t) :
    VersionsValid t' := by
  obtain ⟨o, ho, rfl⟩ := VssDb.update_eq_some.1 h
  intro k row hk
  rw [VssDb.get_write] at hk
  split_ifs at hk
  · subst hk
    cases op with
    | write k' value v =>
      obtain ⟨row', he, -, hv⟩ := WriteOp.effect_write ho
      cases he
      rcases hv with ⟨-, hv⟩ | ⟨-, -, hr, hv⟩
      · rw [hv]
        decide
      · obtain ⟨r, hr, rfl⟩ := Option.map_eq_some'.1 hr
        rw [hv]
        exact (ht _ r hr).trans (SInt.le_saturatingAdd_one _)
    | delete k' v => cases (WriteOp.effect_delete ho).1
  · exact ht k row hk

theorem Reachable.versionsValid {t : VssDb} (h : Reachable t) : VersionsValid t :=
  h.invariant versionsValid_empty fun f q _ _ =>
    q.exec_preserves (fun op _ _ (_ : True) h => op.apply_versionsValid h) f (fun _ _ => trivial)

theorem globalVersionOf_nonneg {t : VssDb} (ht : VersionsValid t) (userToken storeId : String) :
    0 ≤ (globalVersionOf t userToken storeId).val := by
  unfold globalVersionOf
  cases h : t.get ⟨userToken, storeId, globalVersionKey⟩ with
  | none => decide
  | some row => exact le_trans (by decide) (ht _ row h)

/-- **Writing back the version `get` returns succeeds**: it is the stored version, or `0` where no row is. -/
theorem WriteOp.apply_current {t : VssDb} (ht : VersionsValid t) (k : CompositeKey) (value : List UInt8) :
    ((WriteOp.write k value (((t.get k).map Row.version).getD 0)).apply t).isSome := by
  unfold WriteOp.apply VssDb.update
  cases hk : t.get k with
  | none => simp [WriteOp.key, hk, WriteOp.effect]
  | some row =>
    have h₁ : row.version.val ≠ -1 := by have := ht k row hk; omega
    have h₀ : row.version.val ≠ 0 := by have := ht k row hk; omega
    simp [WriteOp.key, hk, WriteOp.effect, h₁, h₀]

/-- A put of one item commits that item's write. -/
theorem put_single_item {t t' : VssDb} {userToken storeId key : String} {value : List UInt8} {v : I64}
    (h : (WriteOp.write ⟨userToken, storeId, key⟩ value v).apply t = some t') :
    put noFaults t userToken ⟨storeId, none, [⟨key, value, v⟩], []⟩ = (.ok {}, t') := by
  rw [put_noFaults]
  simp [putSequential, writeSet, applyAll, h, maxPutRequestItemCount]

theorem put_single_item_ok {t : VssDb} {userToken storeId key : String} {value : List UInt8} {v : I64}
    (h : ((WriteOp.write ⟨userToken, storeId, key⟩ value v).apply t).isSome) :
    (put noFaults t userToken ⟨storeId, none, [⟨key, value, v⟩], []⟩).1 = .ok {} := by
  obtain ⟨t', ht'⟩ := Option.isSome_iff_exists.1 h
  rw [put_single_item ht']

theorem put_globalVersion_ok {t : VssDb} {userToken storeId : String} {g : I64}
    (h : ((WriteOp.write ⟨userToken, storeId, globalVersionKey⟩ [] g).apply t).isSome) :
    (put noFaults t userToken ⟨storeId, some g, [], []⟩).1 = .ok {} := by
  obtain ⟨t', ht'⟩ := Option.isSome_iff_exists.1 h
  rw [put_noFaults]
  simp [putSequential, writeSet, applyAll, ht', maxPutRequestItemCount]

/-- **Versions in every reachable table**: every stored version, the reserved record's included, lies in
`1 ..= i64::MAX`.  So `get` and `list_key_versions` never answer a negative version, and a put whose one write
carries the version `get` returned (as an item, or as `global_version` for the reserved key) takes the insert or
the update path and succeeds. -/
theorem reachable_versions {t : VssDb} (ht : Reachable t) :
    (∀ k row, t.get k = some row → 1 ≤ row.version.val ∧ row.version.val ≤ (SInt.maxValue 64).val) ∧
    (∀ f userToken request kv, get f t userToken request = .ok ⟨some kv⟩ →
      0 ≤ kv.version.val ∧ kv.version.val ≠ -1 ∧
      (∀ value, (put noFaults t userToken ⟨request.storeId, none, [⟨request.key, value, kv.version⟩], []⟩).1 =
        .ok {}) ∧
      (request.key = globalVersionKey →
        (put noFaults t userToken ⟨request.storeId, some kv.version, [], []⟩).1 = .ok {})) ∧
    (∀ f userToken request response, listKeyVersions f t userToken request = .ok response →
      (∀ kv ∈ response.keyVersions, 1 ≤ kv.version.val) ∧ ∀ g, response.globalVersion = some g → 0 ≤ g.val) := by
  have hv := ht.versionsValid
  refine ⟨fun k row hk => ⟨hv k row hk, SInt.le_maxValue _⟩, fun f userToken request kv h => ?_,
    fun f userToken request response h => ?_⟩
  · obtain ⟨-, hver, -⟩ := get_version h
    have h0 : 0 ≤ kv.version.val := by
      rw [hver]
      cases hk : t.get ⟨userToken, request.storeId, request.key⟩ with
      | none => decide
      | some row => exact le_trans (by decide) (hv _ row hk)
    have h1 : kv.version.val ≠ -1 := by omega
    refine ⟨h0, h1, fun value => ?_, fun hk => ?_⟩
    · rw [hver]
      exact put_single_item_ok (WriteOp.apply_current hv _ value)
    · rw [hver, hk]
      exact put_globalVersion_ok (WriteOp.apply_current hv _ [])
  · obtain ⟨hkv, hg⟩ := listKeyVersions_sound h
    refine ⟨fun kv hk => ?_, fun g hgv => ?_⟩
    · obtain ⟨row, hr, he⟩ := Option.map_eq_some'.1 (hkv kv hk).2.2
      rw [← he]
      exact hv _ row hr
    · rw [hg] at hgv
      split_ifs at hgv
      cases hgv
      exact globalVersionOf_nonneg hv userToken request.storeId

/-- After a put of `a` with the global version, both stored rows are at version `1`: `get` answers each, and writing
either back at that version commits. -/
theorem reachable_versions_after_put :
    Reachable (put noFaults VssDb.empty "u" ⟨"s", some 0, [⟨"a", [1], 0⟩], []⟩).2 ∧
    (∀ k row, (put noFaults VssDb.empty "u" ⟨"s", some 0, [⟨"a", [1], 0⟩], []⟩).2.get k = some row →
      1 ≤ row.version.val ∧ row.version.val ≤ (SInt.maxValue 64).val) ∧
    get noFaults (put noFaults VssDb.empty "u" ⟨"s", some 0, [⟨"a", [1], 0⟩], []⟩).2 "u" ⟨"s", "a"⟩ =
      .ok ⟨some ⟨"a", [1], 1⟩⟩ ∧
    (∀ value, (put noFaults (put noFaults VssDb.empty "u" ⟨"s", some 0, [⟨"a", [1], 0⟩], []⟩).2 "u"
      ⟨"s", none, [⟨"a", value, 1⟩], []⟩).1 = .ok {}) ∧
    get noFaults (put noFaults VssDb.empty "u" ⟨"s", some 0, [⟨"a", [1], 0⟩], []⟩).2 "u" ⟨"s", globalVersionKey⟩ =
      .ok ⟨some ⟨globalVersionKey, [], 1⟩⟩ ∧
    (put noFaults (put noFaults VssDb.empty "u" ⟨"s", some 0, [⟨"a", [1], 0⟩], []⟩).2 "u"
      ⟨"s", some 1, [], []⟩).1 = .ok {} :=
  have h : Reachable (put noFaults VssDb.empty "u" ⟨"s", some 0, [⟨"a", [1], 0⟩], []⟩).2 :=
    .step noFaults (.put "u" ⟨"s", some 0, [⟨"a", [1], 0⟩], []⟩) .refl trivial
  have ha : get noFaults (put noFaults VssDb.empty "u" ⟨"s", some 0, [⟨"a", [1], 0⟩], []⟩).2 "u" ⟨"s", "a"⟩ =
      .ok ⟨some ⟨"a", [1], 1⟩⟩ := rfl
  have hg : get noFaults (put noFaults VssDb.empty "u" ⟨"s", some 0, [⟨"a", [1], 0⟩], []⟩).2 "u"
      ⟨"s", globalVersionKey⟩ = .ok ⟨some ⟨globalVersionKey, [], 1⟩⟩ := rfl
  ⟨h, (reachable_versions h).1, ha, ((reachable_versions h).2.1 _ _ _ _ ha).2.2.1, hg,
    ((reachable_versions h).2.1 _ _ _ _ hg).2.2.2 rfl⟩

end Vss
