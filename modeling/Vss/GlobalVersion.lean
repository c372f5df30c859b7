import Vss.Runs
/-!
# GlobalVersion — the reserved record as a per-store counter

Each store keeps its global version in the record under `GLOBAL_VERSION_KEY`; its effective value is that record's
version, `0` without one (`globalVersionOf`).  A put carrying `global_version = g` writes the reserved key expecting
`g`, so when it commits the counter moves from `g` to `g + 1` (`put_globalVersionOf`).  The store lets other
requests move it too: a put with `global_version = -1` upserts the record back to `1`, and an item or a delete that
names the reserved key rewrites or removes it (`globalVersion_departures`).  Without those, the counter never
decreases and moves only as above (`globalVersion_monotone`).

Under the client convention (every put on the store carries a `global_version`, names no key twice and leaves the
reserved key to it), every record of the store stays at or below the counter (`convention_keeps_versions_below`),
and the counter never decreases along such a run.  A listing whose two reads are separated by such puts can answer
versions above the counter it read (`listing_across_put_exceeds`), but never above the counter at its second read
(`listing_across_convention_puts`).
-/
namespace Vss

/-! ## The write of the counter -/

/-- **A list of operations with one on `k`**: what it leaves under `k` is what that operation makes of the row it
found, the others leaving `k` alone. -/
theorem applyAll_get_single {k : CompositeKey} {pre post : List WriteOp} {op : WriteOp} (hk : op.key = k)
    (hpre : ∀ o ∈ pre, o.key ≠ k) (hpost : ∀ o ∈ post, o.key ≠ k) {t t' : VssDb}
    (h : applyAll (pre ++ op :: post) t = some t') : ∃ o, op.effect (t.get k) = some o ∧ t'.get k = o := by
  rw [applyAll_append] at h
  obtain ⟨t₁, h₁, h₂⟩ := Option.bind_eq_some.1 h
  simp only [applyAll, Option.bind_eq_some] at h₂
  obtain ⟨t₂, h₂, h₃⟩ := h₂
  obtain ⟨o, ho, rfl⟩ := VssDb.update_eq_some.1 h₂
  subst hk
  exact ⟨o, by rw [← applyAll_frame hpre h₁]; exact ho, by rw [applyAll_frame hpost h₃, VssDb.get_write_self]⟩

/-- The write of `global_version = g` expects the counter at `g` and leaves it at `g + 1`. -/
theorem globalVersion_effect {k : CompositeKey} {g : I64} {row o : Option Row} (hg : g.val ≠ -1)
    (h : (WriteOp.write k [] g).effect row = some o) :
    (row.map Row.version).getD 0 = g ∧ (o.map Row.version).getD 0 = g.saturatingAdd 1 := by
  obtain ⟨row', rfl, -, ⟨hv | ⟨hv, rfl⟩, hr⟩ | ⟨-, -, hr, hr'⟩⟩ := WriteOp.effect_write h
  · exact absurd hv hg
  · obtain rfl : g = 0 := SInt.ext_val (by simpa using hv)
    exact ⟨rfl, hr.trans (by decide)⟩
  · exact ⟨by rw [hr]; rfl, hr'⟩

/-- The items and deletes of a put that names the reserved key in neither leave it alone. -/
theorem writeSet_items_key_ne (userToken : String) {request : PutObjectRequest}
    (hk : ∀ kv ∈ request.transactionItems ++ request.deleteItems, kv.key ≠ globalVersionKey) :
    (∀ o ∈ request.transactionItems.map
      (fun kv => WriteOp.write ⟨userToken, request.storeId, kv.key⟩ kv.value kv.version),
        o.key ≠ ⟨userToken, request.storeId, globalVersionKey⟩) ∧
    ∀ o ∈ request.deleteItems.map (fun kv => WriteOp.delete ⟨userToken, request.storeId, kv.key⟩ kv.version),
      o.key ≠ ⟨userToken, request.storeId, globalVersionKey⟩ := by
  constructor <;>
  · rintro _ hm he
    obtain ⟨kv, hkv, rfl⟩ := List.mem_map.1 hm
    exact hk kv (by simp [hkv]) (congrArg CompositeKey.key he)

/-- A put's write set as its items, the write of the counter, and its deletes. -/
theorem writeSet_some {userToken : String} {request : PutObjectRequest} {g : I64}
    (hg : request.globalVersion = some g) :
    writeSet userToken request =
      request.transactionItems.map (fun kv => .write ⟨userToken, request.storeId, kv.key⟩ kv.value kv.version) ++
        .write ⟨userToken, request.storeId, globalVersionKey⟩ [] g ::
          request.deleteItems.map fun kv => .delete ⟨userToken, request.storeId, kv.key⟩ kv.version := by
  simp [writeSet, hg]

/-- **A put that commits moves the counter from `g` to `g + 1` when it carries `global_version = g`**, and leaves it
when it carries none, provided its items and deletes leave the reserved key alone. -/
theorem put_globalVersionOf {f : Faults} {t : VssDb} {userToken : String} {request : PutObjectRequest}
    {x : PutObjectResponse} (hg : ∀ g, request.globalVersion = some g → g.val ≠ -1)
    (hk : ∀ kv ∈ request.transactionItems ++ request.deleteItems, kv.key ≠ globalVersionKey)
    (h : (put f t userToken request).1 = .ok x) :
    globalVersionOf (put f t userToken request).2 userToken request.storeId =
      (request.globalVersion.map (·.saturatingAdd 1)).getD (globalVersionOf t userToken request.storeId) ∧
    ∀ g, request.globalVersion = some g → globalVersionOf t userToken request.storeId = g := by
  have ha := put_ok_applyAll h
  obtain ⟨hi, hd⟩ := writeSet_items_key_ne userToken hk
  unfold globalVersionOf
  cases hgv : request.globalVersion with
  | none =>
    simp only [writeSet, hgv, Option.map_none', Option.toList_none, List.append_nil] at ha
    rw [applyAll_frame (fun o ho => (List.mem_append.1 ho).elim (hi o) (hd o)) ha]
    exact ⟨rfl, fun _ h => nomatch h⟩
  | some g =>
    rw [writeSet_some hgv] at ha
    obtain ⟨o, ho, hget⟩ := applyAll_get_single (k := ⟨userToken, request.storeId, globalVersionKey⟩) (by rfl) hi hd ha
    obtain ⟨h₁, h₂⟩ := globalVersion_effect (hg g hgv) ho
    rw [hget]
    exact ⟨h₂, fun _ hg' => Option.some.inj hg' ▸ h₁⟩

/-- A delete of another key leaves the counter. -/
theorem delete_globalVersionOf {f : Faults} {t : VssDb} {userToken : String} {request : DeleteObjectRequest}
    (hk : ∀ kv, request.keyValue = some kv → kv.key ≠ globalVersionKey) :
    globalVersionOf (delete f t userToken request).2 userToken request.storeId =
      globalVersionOf t userToken request.storeId := by
  unfold globalVersionOf
  rw [(delete_touches f userToken request).frame t _]
  rintro ⟨op, hop, he⟩
  simp only [deleteWrites, List.mem_map, Option.mem_toList, Option.mem_def] at hop
  obtain ⟨kv, hkv, rfl⟩ := hop
  exact hk kv hkv (congrArg CompositeKey.key he)

/-- **The counter never decreases, and moves only from `g` to `g + 1`**, when requests leave the reserved key to the
write of `global_version` and never carry `-1` there: a put that commits with `global_version = g` found the counter
at `g` and leaves it at `g + 1` (saturating); any change of the counter is such a put; a delete leaves it. -/
theorem globalVersion_monotone (f : Faults) (t : VssDb) (userToken : String) :
    (∀ request : PutObjectRequest, (∀ g, request.globalVersion = some g → g.val ≠ -1) →
      (∀ kv ∈ request.transactionItems ++ request.deleteItems, kv.key ≠ globalVersionKey) →
      (globalVersionOf t userToken request.storeId).val ≤
        (globalVersionOf (put f t userToken request).2 userToken request.storeId).val ∧
      (∀ x g, (put f t userToken request).1 = .ok x → request.globalVersion = some g →
        globalVersionOf t userToken request.storeId = g ∧
          globalVersionOf (put f t userToken request).2 userToken request.storeId = g.saturatingAdd 1) ∧
      (globalVersionOf (put f t userToken request).2 userToken request.storeId ≠
          globalVersionOf t userToken request.storeId →
        (put f t userToken request).1 = .ok {} ∧ ∃ g, request.globalVersion = some g ∧
          globalVersionOf t userToken request.storeId = g ∧
          (globalVersionOf (put f t userToken request).2 userToken request.storeId).val = g.val + 1)) ∧
    (∀ request : DeleteObjectRequest, (∀ kv, request.keyValue = some kv → kv.key ≠ globalVersionKey) →
      globalVersionOf (delete f t userToken request).2 userToken request.storeId =
        globalVersionOf t userToken request.storeId) := by
  refine ⟨fun request hg hk => ?_, fun request hk => delete_globalVersionOf hk⟩
  cases hr : (put f t userToken request).1 with
  | error e =>
    rw [put_error_table hr]
    exact ⟨le_rfl, fun _ _ hx => (nomatch hx), fun hne => absurd rfl hne⟩
  | ok x =>
    obtain ⟨ha, hb⟩ := put_globalVersionOf hg hk hr
    cases hgv : request.globalVersion with
    | none =>
      rw [hgv] at ha
      exact ⟨le_of_eq (congrArg SInt.val ha.symm), fun _ _ _ h => (nomatch h), fun hne => absurd ha hne⟩
    | some g =>
      rw [hgv] at ha
      rw [ha, hb g hgv]
      exact ⟨SInt.le_saturatingAdd_one g, fun _ _ _ h => by cases h; exact ⟨rfl, rfl⟩,
        fun hne => ⟨rfl, g, rfl, rfl, SInt.val_saturatingAdd_one_of_ne hne⟩⟩

/-- **Where the counter departs from "never decreases, and moves only with a put carrying it"**: a delete of the
reserved record, which the store accepts, takes it from `1` to `0`; a put carrying `global_version = -1` upserts the
record back to `1` from `2`; and a put with an item on the reserved key moves it from `1` to `2` carrying no
`global_version`. -/
theorem globalVersion_departures :
    Reachable (put noFaults VssDb.empty "u" ⟨"s", some 0, [], []⟩).2 ∧ globalVersionOf (put noFaults VssDb.empty "u" ⟨"s", some 0, [], []⟩).2 "u" "s" = 1 ∧
    (delete noFaults (put noFaults VssDb.empty "u" ⟨"s", some 0, [], []⟩).2 "u" ⟨"s", some ⟨globalVersionKey, [], 1⟩⟩).1 = .ok {} ∧
    globalVersionOf (delete noFaults (put noFaults VssDb.empty "u" ⟨"s", some 0, [], []⟩).2 "u" ⟨"s", some ⟨globalVersionKey, [], 1⟩⟩).2 "u" "s" = 0 ∧
    Reachable (put noFaults (put noFaults VssDb.empty "u" ⟨"s", some 0, [], []⟩).2 "u" ⟨"s", some 1, [], []⟩).2 ∧ globalVersionOf (put noFaults (put noFaults VssDb.empty "u" ⟨"s", some 0, [], []⟩).2 "u" ⟨"s", some 1, [], []⟩).2 "u" "s" = 2 ∧
    (put noFaults (put noFaults (put noFaults VssDb.empty "u" ⟨"s", some 0, [], []⟩).2 "u" ⟨"s", some 1, [], []⟩).2 "u" ⟨"s", some (SInt.saturate 64 (-1)), [], []⟩).1 = .ok {} ∧
    globalVersionOf (put noFaults (put noFaults (put noFaults VssDb.empty "u" ⟨"s", some 0, [], []⟩).2 "u" ⟨"s", some 1, [], []⟩).2 "u" ⟨"s", some (SInt.saturate 64 (-1)), [], []⟩).2 "u" "s" = 1 ∧
    (put noFaults (put noFaults VssDb.empty "u" ⟨"s", some 0, [], []⟩).2 "u" ⟨"s", none, [⟨globalVersionKey, [], 1⟩], []⟩).1 = .ok {} ∧
    globalVersionOf (put noFaults (put noFaults VssDb.empty "u" ⟨"s", some 0, [], []⟩).2 "u" ⟨"s", none, [⟨globalVersionKey, [], 1⟩], []⟩).2 "u" "s" = 2 :=
  have h₁ : Reachable (put noFaults VssDb.empty "u" ⟨"s", some 0, [], []⟩).2 := .step noFaults (.put "u" ⟨"s", some 0, [], []⟩) .refl trivial
  ⟨h₁, by decide, rfl, by decide, .step noFaults (.put "u" ⟨"s", some 1, [], []⟩) h₁ trivial, by decide, rfl,
    by decide, rfl, by decide⟩

/-! ## The client convention -/

/-- **The client convention on one store**: every put on it carries a `global_version` other than `-1`, names no key
twice among its items and leaves the reserved key to that write; no delete names the reserved key. -/
def FollowsConvention (userToken storeId : String) : WriteRequest → Prop
  | .put u r => u = userToken → r.storeId = storeId →
    (∃ g, r.globalVersion = some g ∧ g.val ≠ -1) ∧ (r.transactionItems.map (·.key)).Nodup ∧
      ∀ kv ∈ r.transactionItems ++ r.deleteItems, kv.key ≠ globalVersionKey
  | .delete u r => u = userToken → r.storeId = storeId → ∀ kv, r.keyValue = some kv → kv.key ≠ globalVersionKey

/-- **Every record of the store is at or below its effective global version.** -/
def BelowGlobalVersion (userToken storeId : String) (t : VssDb) : Prop :=
  ∀ k row, t.get ⟨userToken, storeId, k⟩ = some row →
    row.version.val ≤ (globalVersionOf t userToken storeId).val

theorem globalVersionOf_of_get {t : VssDb} {userToken storeId : String} {row : Row}
    (h : t.get ⟨userToken, storeId, globalVersionKey⟩ = some row) : globalVersionOf t userToken storeId = row.version := by
  simp [globalVersionOf, h]

theorem BelowGlobalVersion.congr {userToken storeId : String} {t t' : VssDb}
    (h : ∀ k, t'.get ⟨userToken, storeId, k⟩ = t.get ⟨userToken, storeId, k⟩)
    (hb : BelowGlobalVersion userToken storeId t) : BelowGlobalVersion userToken storeId t' := fun k row hk => by
  unfold globalVersionOf
  rw [h] at hk ⊢
  exact hb k row hk

/-- A delete only removes rows. -/
theorem WriteOp.apply_delete_get {k : CompositeKey} {v : I64} {t t' : VssDb}
    (h : (WriteOp.delete k v).apply t = some t') {k' : CompositeKey} {row : Row} (hr : t'.get k' = some row) :
    t.get k' = some row := by
  obtain ⟨o, ho, rfl⟩ := VssDb.update_eq_some.1 h
  rw [(WriteOp.effect_delete ho).1, VssDb.get_write] at hr
  split_ifs at hr
  exact hr

theorem applyAll_deletes_get {ops : List WriteOp} (hd : ∀ op ∈ ops, ∃ k v, op = .delete k v) {t t' : VssDb}
    (h : applyAll ops t = some t') {k : CompositeKey} {row : Row} (hr : t'.get k = some row) : t.get k = some row :=
  applyAll_preserves (I := fun t₁ => ∀ row, t₁.get k = some row → t.get k = some row)
    (fun op _ _ hop h₁ ih row hr => by
      obtain ⟨_, _, rfl⟩ := hop
      exact ih row (WriteOp.apply_delete_get h₁ hr))
    hd h (fun _ => id) row hr

/-- **Items with distinct keys other than the reserved one keep the store at or below `g + 1`**, over records that
are at or below `g`, or below `g + 1` once their item has been applied. -/
theorem items_below {userToken storeId : String} {g : I64} (hg : 0 ≤ g.val) :
    ∀ {items : List KeyValue} {t t' : VssDb}, (items.map (·.key)).Nodup →
      applyAll (items.map fun kv => .write ⟨userToken, storeId, kv.key⟩ kv.value kv.version) t = some t' →
      (∀ k row, t.get ⟨userToken, storeId, k⟩ = some row →
        row.version.val ≤ (if k ∈ items.map (·.key) then g else g.saturatingAdd 1).val) →
      ∀ k row, t'.get ⟨userToken, storeId, k⟩ = some row → row.version.val ≤ (g.saturatingAdd 1).val
  | [], t, _, _, h, hb => by
    cases h
    simpa using hb
  | kv :: items, t, t', hn, h, hb => by
    rw [List.map_cons, List.nodup_cons] at hn
    simp only [List.map_cons, applyAll, Option.bind_eq_some] at h
    obtain ⟨t₁, h₁, h₂⟩ := h
    refine items_below hg hn.2 h₂ fun k row hk => ?_
    obtain ⟨o, ho, rfl⟩ := VssDb.update_eq_some.1 h₁
    rw [VssDb.get_write] at hk
    split_ifs at hk with he
    · cases he
      obtain ⟨row', rfl, -, hv⟩ := WriteOp.effect_write ho
      cases hk
      rw [if_neg hn.1]
      rcases hv with ⟨-, hv⟩ | ⟨-, -, hr, hv⟩
      · rw [hv, val_initialRecordVersion]
        exact SInt.one_le_saturatingAdd_one hg
      · obtain ⟨r, hr, he⟩ := Option.map_eq_some'.1 hr
        have := hb _ r hr
        rw [if_pos (by simp), he] at this
        rw [hv]
        exact SInt.saturatingAdd_one_mono this
    · have := hb k row hk
      have hne : k ≠ kv.key := fun h => he (by rw [h]; rfl)
      simpa [hne] using this

/-- **A put that follows the convention keeps the store at or below its counter.** -/
theorem put_keeps_below {f : Faults} {t : VssDb} {userToken : String} {request : PutObjectRequest}
    (hq : FollowsConvention userToken request.storeId (.put userToken request)) (hv : VersionsValid t)
    (hb : BelowGlobalVersion userToken request.storeId t) :
    BelowGlobalVersion userToken request.storeId (put f t userToken request).2 := by
  obtain ⟨⟨g, hgv, hg⟩, hn, hk⟩ := hq rfl rfl
  cases hr : (put f t userToken request).1 with
  | error e => rw [put_error_table hr]; exact hb
  | ok x =>
    obtain ⟨ha, hb'⟩ := put_globalVersionOf (fun g' h' => by rw [hgv] at h'; cases h'; exact hg) hk hr
    rw [hgv] at ha
    have hg0 : g = globalVersionOf t userToken request.storeId := (hb' g hgv).symm
    have happ := put_ok_applyAll hr
    rw [writeSet_some hgv, ← List.singleton_append, ← List.append_assoc, applyAll_append,
      applyAll_append] at happ
    obtain ⟨t₂, h₂, h₃⟩ := Option.bind_eq_some.1 happ
    obtain ⟨t₁, h₁, h₂⟩ := Option.bind_eq_some.1 h₂
    simp only [applyAll, Option.bind_eq_some, Option.some.injEq, exists_eq_right] at h₂
    have hbelow := items_below (hg0 ▸ globalVersionOf_nonneg hv userToken request.storeId) hn h₁ fun k row hk' => by
      have := hb k row hk'
      rw [← hg0] at this
      split_ifs
      · exact this
      · exact this.trans (SInt.le_saturatingAdd_one g)
    intro k row hk'
    rw [ha]
    by_cases hkg : k = globalVersionKey
    · subst hkg
      rw [← ha, globalVersionOf_of_get hk']
    · have hk₂ := applyAll_deletes_get (by simp) h₃ hk'
      rw [VssDb.get_update_ne h₂ (by simpa [WriteOp.key] using hkg)] at hk₂
      exact hbelow k row hk₂

/-- A delete that follows the convention keeps the store at or below its counter. -/
theorem delete_keeps_below {f : Faults} {t : VssDb} {userToken : String} {request : DeleteObjectRequest}
    (hq : FollowsConvention userToken request.storeId (.delete userToken request))
    (hb : BelowGlobalVersion userToken request.storeId t) :
    BelowGlobalVersion userToken request.storeId (delete f t userToken request).2 := fun k row hk => by
  rw [delete_globalVersionOf (hq rfl rfl)]
  rcases delete_table f t userToken request with h | h
  · rw [h] at hk
    exact hb k row hk
  · exact hb k row (applyAll_deletes_get (fun op hop => by
      simp only [deleteWrites, List.mem_map] at hop
      obtain ⟨kv, -, rfl⟩ := hop
      exact ⟨_, _, rfl⟩) h hk)

theorem FollowsConvention.keeps_below {userToken storeId : String} {q : WriteRequest}
    (hq : FollowsConvention userToken storeId q) (f : Faults) {t : VssDb} (hv : VersionsValid t)
    (hb : BelowGlobalVersion userToken storeId t) : BelowGlobalVersion userToken storeId (q.exec f t).2 := by
  by_cases hs : q.userToken = userToken ∧ q.storeId = storeId
  · obtain ⟨u, r⟩ | ⟨u, r⟩ := q <;> obtain ⟨rfl, rfl⟩ := hs
    · exact put_keeps_below hq hv hb
    · exact delete_keeps_below hq hb
  · exact hb.congr (q.exec_get_other f t hs)

theorem Reaches.belowGlobalVersion {userToken storeId : String} {t : VssDb}
    (ht : Reaches (FollowsConvention userToken storeId) VssDb.empty t) : BelowGlobalVersion userToken storeId t :=
  (ht.invariant (I := fun t => VersionsValid t ∧ BelowGlobalVersion userToken storeId t)
    ⟨versionsValid_empty, fun _ _ h => by simp at h⟩
    fun f q _ hq hi => ⟨q.exec_preserves (fun op _ _ (_ : True) h => op.apply_versionsValid h) f
      (fun _ _ => trivial) hi.1, hq.keeps_below f hi.1 hi.2⟩).2

/-- **Under the convention every record of the store stays at or below its counter**, in every table a run of such
requests reaches from the empty table; so a first page listed with no write in between answers versions at or below
the `global_version` it returns. -/
theorem convention_keeps_versions_below (userToken storeId : String) {t : VssDb}
    (ht : Reaches (FollowsConvention userToken storeId) VssDb.empty t) :
    BelowGlobalVersion userToken storeId t ∧
    ∀ f keyPrefix pageSize response,
      listKeyVersions f t userToken ⟨storeId, keyPrefix, pageSize, none⟩ = .ok response →
      ∃ g, response.globalVersion = some g ∧ ∀ kv ∈ response.keyVersions, kv.version.val ≤ g.val := by
  have hb := ht.belowGlobalVersion
  refine ⟨hb, fun f keyPrefix pageSize response h => ?_⟩
  obtain ⟨hkv, hg⟩ := listKeyVersions_sound h
  refine ⟨_, hg, fun kv hk => ?_⟩
  obtain ⟨row, hr, he⟩ := Option.map_eq_some'.1 (hkv kv hk).2.2
  rw [← he]
  exact hb _ row hr

theorem convention_keeps_versions_below_one_put :
    Reaches (FollowsConvention "u" "s") VssDb.empty (put noFaults VssDb.empty "u" ⟨"s", some 0, [⟨"a", [], 0⟩], []⟩).2 ∧
    BelowGlobalVersion "u" "s" (put noFaults VssDb.empty "u" ⟨"s", some 0, [⟨"a", [], 0⟩], []⟩).2 ∧
    ∀ f keyPrefix pageSize response,
      listKeyVersions f (put noFaults VssDb.empty "u" ⟨"s", some 0, [⟨"a", [], 0⟩], []⟩).2 "u"
        ⟨"s", keyPrefix, pageSize, none⟩ = .ok response →
      ∃ g, response.globalVersion = some g ∧ ∀ kv ∈ response.keyVersions, kv.version.val ≤ g.val :=
  have ht : Reaches (FollowsConvention "u" "s") VssDb.empty
      (put noFaults VssDb.empty "u" ⟨"s", some 0, [⟨"a", [], 0⟩], []⟩).2 :=
    .step noFaults (.put "u" ⟨"s", some 0, [⟨"a", [], 0⟩], []⟩) .refl fun _ _ => ⟨⟨0, rfl, by decide⟩, by decide, by decide⟩
  ⟨ht, convention_keeps_versions_below "u" "s" ht⟩

/-! ## A listing across puts -/

/-- Under the convention the counter never decreases. -/
theorem FollowsConvention.globalVersionOf_le {userToken storeId : String} {q : WriteRequest}
    (hq : FollowsConvention userToken storeId q) (f : Faults) (t : VssDb) :
    (globalVersionOf t userToken storeId).val ≤ (globalVersionOf (q.exec f t).2 userToken storeId).val := by
  by_cases hs : q.userToken = userToken ∧ q.storeId = storeId
  · obtain ⟨u, r⟩ | ⟨u, r⟩ := q <;> obtain ⟨rfl, rfl⟩ := hs
    · obtain ⟨⟨g, hgv, hg⟩, -, hk⟩ := hq rfl rfl
      show (globalVersionOf t u r.storeId).val ≤ (globalVersionOf (put f t u r).2 u r.storeId).val
      cases hr : (put f t u r).1 with
      | error e => rw [put_error_table hr]
      | ok x =>
        obtain ⟨ha, hb⟩ := put_globalVersionOf (fun g' h' => by rw [hgv] at h'; cases h'; exact hg) hk hr
        rw [ha, hgv, hb g hgv]
        exact SInt.le_saturatingAdd_one g
    · exact le_of_eq (congrArg SInt.val (delete_globalVersionOf (hq rfl rfl)).symm)
  · unfold globalVersionOf
    rw [q.exec_get_other f t hs]

theorem Reaches.globalVersionOf_le {userToken storeId : String} {t₀ t₁ : VssDb}
    (h : Reaches (FollowsConvention userToken storeId) t₀ t₁) :
    (globalVersionOf t₀ userToken storeId).val ≤ (globalVersionOf t₁ userToken storeId).val :=
  h.invariant (I := fun t => (globalVersionOf t₀ userToken storeId).val ≤ (globalVersionOf t userToken storeId).val)
    le_rfl fun f _ t hq ih => ih.trans (hq.globalVersionOf_le f t)

/-- **A first page whose two reads are separated by puts that follow the convention** answers versions at or below
the counter at its second read, and a `global_version` no greater than that counter. -/
theorem listing_across_convention_puts (userToken storeId : String) {t₀ t₁ : VssDb}
    (h₀ : Reaches (FollowsConvention userToken storeId) VssDb.empty t₀)
    (h₁ : Reaches (FollowsConvention userToken storeId) t₀ t₁) (f : Faults) (keyPrefix : Option String)
    (pageSize : Option I32) (response : ListKeyVersionsResponse)
    (h : (listGlobalVersion f t₀ userToken ⟨storeId, keyPrefix, pageSize, none⟩ >>=
      listKeyVersionsPage f t₁ userToken ⟨storeId, keyPrefix, pageSize, none⟩) = .ok response) :
    ∃ g, response.globalVersion = some g ∧ g.val ≤ (globalVersionOf t₁ userToken storeId).val ∧
      ∀ kv ∈ response.keyVersions, kv.version.val ≤ (globalVersionOf t₁ userToken storeId).val := by
  obtain ⟨globalVersion, hg, hp⟩ := except_bind_eq_ok.1 h
  obtain ⟨hkv, hgv⟩ := listKeyVersionsPage_sound hp
  have hb := (h₀.trans h₁).belowGlobalVersion
  refine ⟨_, hgv.trans (listGlobalVersion_eq hg), h₁.globalVersionOf_le, fun kv hk => ?_⟩
  obtain ⟨row, hr, he⟩ := Option.map_eq_some'.1 (hkv kv hk).2.2
  rw [← he]
  exact hb _ row hr

theorem listing_across_convention_puts_one_put :
    Reaches (FollowsConvention "u" "s") VssDb.empty VssDb.empty ∧
    Reaches (FollowsConvention "u" "s") VssDb.empty
      (put noFaults VssDb.empty "u" ⟨"s", some 0, [⟨"a", [], 0⟩], []⟩).2 ∧
    (listGlobalVersion noFaults VssDb.empty "u" ⟨"s", none, none, none⟩ >>=
      listKeyVersionsPage noFaults (put noFaults VssDb.empty "u" ⟨"s", some 0, [⟨"a", [], 0⟩], []⟩).2 "u"
        ⟨"s", none, none, none⟩) = .ok ⟨[⟨"a", [], 1⟩], some "a", some 0⟩ ∧
    ∃ g, (⟨[⟨"a", [], 1⟩], some "a", some 0⟩ : ListKeyVersionsResponse).globalVersion = some g ∧
      g.val ≤ (globalVersionOf (put noFaults VssDb.empty "u" ⟨"s", some 0, [⟨"a", [], 0⟩], []⟩).2 "u" "s").val ∧
      ∀ kv ∈ (⟨[⟨"a", [], 1⟩], some "a", some 0⟩ : ListKeyVersionsResponse).keyVersions,
        kv.version.val ≤ (globalVersionOf (put noFaults VssDb.empty "u" ⟨"s", some 0, [⟨"a", [], 0⟩], []⟩).2 "u" "s").val :=
  have h₁ : Reaches (FollowsConvention "u" "s") VssDb.empty
      (put noFaults VssDb.empty "u" ⟨"s", some 0, [⟨"a", [], 0⟩], []⟩).2 :=
    .step noFaults (.put "u" ⟨"s", some 0, [⟨"a", [], 0⟩], []⟩) .refl fun _ _ => ⟨⟨0, rfl, by decide⟩, by decide, by decide⟩
  have h : (listGlobalVersion noFaults VssDb.empty "u" ⟨"s", none, none, none⟩ >>=
      listKeyVersionsPage noFaults (put noFaults VssDb.empty "u" ⟨"s", some 0, [⟨"a", [], 0⟩], []⟩).2 "u"
        ⟨"s", none, none, none⟩) = .ok ⟨[⟨"a", [], 1⟩], some "a", some 0⟩ := rfl
  ⟨.refl, h₁, h, listing_across_convention_puts "u" "s" .refl h₁ noFaults none none _ h⟩

/-- A put that follows the convention and carries the counter it finds, committed between the two reads of a first
page, makes the page answer a version above the `global_version` it returns. -/
theorem listing_across_put_exceeds :
    Reaches (FollowsConvention "u" "s") VssDb.empty
      (put noFaults VssDb.empty "u" ⟨"s", some 0, [⟨"a", [], 0⟩], []⟩).2 ∧
    globalVersionOf VssDb.empty "u" "s" = 0 ∧
    (listGlobalVersion noFaults VssDb.empty "u" ⟨"s", none, none, none⟩ >>=
      listKeyVersionsPage noFaults (put noFaults VssDb.empty "u" ⟨"s", some 0, [⟨"a", [], 0⟩], []⟩).2 "u"
        ⟨"s", none, none, none⟩) = .ok ⟨[⟨"a", [], 1⟩], some "a", some 0⟩ :=
  ⟨.step noFaults (.put "u" ⟨"s", some 0, [⟨"a", [], 0⟩], []⟩) .refl fun _ _ => ⟨⟨0, rfl, by decide⟩, by decide, by decide⟩,
    rfl, rfl⟩

end Vss
