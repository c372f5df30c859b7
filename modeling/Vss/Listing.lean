import Vss.Locality
/-!
# Listing — what `get` and `list_key_versions` answer

`get` answers the stored row, and for the reserved key with no record the version `0`; so the version it returns
for the reserved key is the store's effective global version, `globalVersionOf`.  `list_key_versions` answers only
stored rows, each with its stored version, never the reserved key (`listKeyVersions_sound`), whatever it is asked.
For a page size that is not negative and a prefix `LIKE` reads literally, its page is the first `max(0, min(n, 100))`
keys after the page token that begin with the prefix, in ascending order (`FirstInOrder`), with the reserved key
then taken out (`listKeyVersions_literal`).
-/
namespace Vss

/-- **The effective global version** of a store: the version of its reserved record, `0` when there is none. -/
def globalVersionOf (t : VssDb) (userToken storeId : String) : I64 :=
  ((t.get ⟨userToken, storeId, globalVersionKey⟩).map Row.version).getD 0

/-! ## `get` -/

section Get

variable {f : Faults} {t : VssDb} {userToken : String}

/-- An answer of `get` is the one it gives when the backing store answers. -/
theorem get_eq_noFaults {request : GetObjectRequest} {response : GetObjectResponse}
    (h : get f t userToken request = .ok response) : get noFaults t userToken request = .ok response :=
  backendCall_bind_ok (backendCall_bind_ok h)

/-- A backing store that answers every call answers `get` as `noFaults` does. -/
theorem get_of_healthy (hf : f.Healthy) (request : GetObjectRequest) :
    get f t userToken request = get noFaults t userToken request := by
  simp only [get, backendCall_of_healthy hf, backendCall_noFaults]

/-- **What `get` answers** when the backing store answers: the stored row; for the reserved key with no record, an
empty value at version `0`; otherwise `NoSuchKey`. -/
theorem get_noFaults (request : GetObjectRequest) : get noFaults t userToken request =
    match t.get ⟨userToken, request.storeId, request.key⟩ with
    | some row => .ok ⟨some ⟨request.key, row.value, row.version⟩⟩
    | none =>
      if request.key = globalVersionKey then .ok ⟨some ⟨globalVersionKey, [], 0⟩⟩
      else .error (.noSuchKeyError "Requested key not found.") := by
  unfold get selectRow
  cases t.get ⟨userToken, request.storeId, request.key⟩ <;> rfl

/-- **`get` answers the reserved key with the effective global version.** -/
theorem get_globalVersionKey (t : VssDb) (userToken storeId : String) : ∃ value,
    get noFaults t userToken ⟨storeId, globalVersionKey⟩ =
      .ok ⟨some ⟨globalVersionKey, value, globalVersionOf t userToken storeId⟩⟩ := by
  rw [get_noFaults, globalVersionOf]
  cases t.get ⟨userToken, storeId, globalVersionKey⟩ with
  | none => exact ⟨[], rfl⟩
  | some row => exact ⟨row.value, rfl⟩

/-- The version `get` returns is the stored one, or `0` for the reserved key with no record. -/
theorem get_version {request : GetObjectRequest} {kv : KeyValue} (h : get f t userToken request = .ok ⟨some kv⟩) :
    kv.key = request.key ∧
      kv.version = ((t.get ⟨userToken, request.storeId, request.key⟩).map Row.version).getD 0 ∧
      (t.get ⟨userToken, request.storeId, request.key⟩ = none → request.key = globalVersionKey) := by
  have h' := get_eq_noFaults h
  rw [get_noFaults] at h'
  cases hr : t.get ⟨userToken, request.storeId, request.key⟩ with
  | none =>
    simp only [hr] at h'
    split_ifs at h' with hk
    cases h'
    exact ⟨hk.symm, rfl, fun _ => hk⟩
  | some row =>
    simp only [hr] at h'
    cases h'
    exact ⟨rfl, rfl, nofun⟩

end Get

/-! ## `list_key_versions` -/

section List

variable {f : Faults} {t : VssDb} {userToken : String} {request : ListKeyVersionsRequest}

/-- **The first read**: the effective global version, on a first page only. -/
theorem listGlobalVersion_eq {globalVersion : Option I64}
    (h : listGlobalVersion f t userToken request = .ok globalVersion) :
    globalVersion = if request.pageToken.isNone then some (globalVersionOf t userToken request.storeId) else none := by
  unfold listGlobalVersion at h
  cases hp : request.pageToken with
  | some _ =>
    rw [hp] at h
    cases h
    rfl
  | none =>
    rw [hp] at h
    obtain ⟨response, hg, hr⟩ := except_bind_eq_ok.1 h
    obtain ⟨value, hv⟩ := get_globalVersionKey t userToken request.storeId
    rw [get_eq_noFaults hg] at hv
    cases hv
    cases hr
    rfl

theorem listGlobalVersion_noFaults :
    listGlobalVersion noFaults t userToken request =
      .ok (if request.pageToken.isNone then some (globalVersionOf t userToken request.storeId) else none) := by
  unfold listGlobalVersion
  cases request.pageToken with
  | some _ => rfl
  | none =>
    obtain ⟨value, hv⟩ := get_globalVersionKey t userToken request.storeId
    simp only [hv, except_ok_bind, except_pure, Option.isNone_none, if_true, Option.map_some']

theorem listGlobalVersion_of_healthy (hf : f.Healthy) :
    listGlobalVersion f t userToken request = listGlobalVersion noFaults t userToken request := by
  simp only [listGlobalVersion, get_of_healthy hf]

/-- Every row the listing query returns is stored, with its version. -/
theorem selectKeyVersions_sound {storeId pageToken keyLike : String} {limit : I64} {rows : List (String × I64)}
    (h : selectKeyVersions t userToken storeId pageToken keyLike limit = .ok rows) :
    ∀ e ∈ rows, (t.get ⟨userToken, storeId, e.1⟩).map Row.version = some e.2 := by
  unfold selectKeyVersions at h
  split_ifs at h
  split at h
  · cases h
  cases h
  intro e he
  obtain ⟨⟨k, row⟩, hm, rfl⟩ := List.mem_map.1 (List.mem_of_mem_take he)
  rw [VssDb.mem_storeRows.1 (List.mem_filter.1 hm).1]
  rfl

/-- The second read answers stored rows only, with the global version it was given. -/
theorem listKeyVersionsPage_sound {globalVersion : Option I64} {response : ListKeyVersionsResponse}
    (h : listKeyVersionsPage f t userToken request globalVersion = .ok response) :
    (∀ kv ∈ response.keyVersions, kv.value = [] ∧ kv.key ≠ globalVersionKey ∧
      (t.get ⟨userToken, request.storeId, kv.key⟩).map Row.version = some kv.version) ∧
    response.globalVersion = globalVersion := by
  obtain ⟨rows, hs, hr⟩ := except_bind_eq_ok.1 (backendCall_bind_ok (backendCall_bind_ok h))
  cases hq : selectKeyVersions t userToken request.storeId (request.pageToken.getD "")
    (request.keyPrefix.getD "" ++ "%") (listLimit request.pageSize) with
  | error e => rw [hq] at hs; cases hs
  | ok rows' =>
    rw [hq] at hs
    cases hs
    cases hr
    refine ⟨fun kv hkv => ?_, rfl⟩
    obtain ⟨e, he, rfl⟩ := List.mem_map.1 hkv
    have he' := List.mem_filter.1 he
    exact ⟨rfl, by simpa using he'.2, selectKeyVersions_sound hq e he'.1⟩

/-- **Everything `list_key_versions` answers is stored**: each listed key with its stored version and an empty
value, never the reserved key; and `global_version` is the effective global version, present on a first page only. -/
theorem listKeyVersions_sound {response : ListKeyVersionsResponse}
    (h : listKeyVersions f t userToken request = .ok response) :
    (∀ kv ∈ response.keyVersions, kv.value = [] ∧ kv.key ≠ globalVersionKey ∧
      (t.get ⟨userToken, request.storeId, kv.key⟩).map Row.version = some kv.version) ∧
    response.globalVersion =
      if request.pageToken.isNone then some (globalVersionOf t userToken request.storeId) else none := by
  obtain ⟨globalVersion, hg, hp⟩ := except_bind_eq_ok.1 h
  obtain ⟨hkv, hgv⟩ := listKeyVersionsPage_sound hp
  exact ⟨hkv, hgv.trans (listGlobalVersion_eq hg)⟩

end List

/-! ## A page of the listing -/

/-- `max(0, min(n, 100))`, the number of rows a page can hold, with no `page_size` meaning no bound. -/
def pageBound : Option I32 → Nat
  | none => 100
  | some n => (min n.val 100).toNat

theorem listLimit_toNat (pageSize : Option I32) : (listLimit pageSize).val.toNat = pageBound pageSize := by
  cases pageSize with
  | none => rfl
  | some n =>
    have h100 : listKeyVersionsMaxPageSize.val = 100 := rfl
    simp only [listLimit, SInt.toI64, SInt.min, Option.getD_some, pageBound]
    split_ifs with h <;> congr 1 <;> omega

/-- **The first `n` of a store's keys that `sel` selects, in ascending order, with their stored versions**: no
other key, none twice, and every selected key either listed or after all of a full page. -/
structure FirstInOrder (t : VssDb) (userToken storeId : String) (sel : String → Bool) (n : Nat)
    (page : List (String × I64)) : Prop where
  ascending : page.Pairwise fun a b => textLt a.1 b.1
  sound : ∀ e ∈ page, sel e.1 ∧ (t.get ⟨userToken, storeId, e.1⟩).map Row.version = some e.2
  bounded : page.length ≤ n
  complete : ∀ k row, sel k → t.get ⟨userToken, storeId, k⟩ = some row →
    (k, row.version) ∈ page ∨ (page.length = n ∧ ∀ e ∈ page, textLt e.1 k)

/-- An element of an ordered list is in its first `n`, or after all of them and there are `n` of them. -/
theorem mem_take_or_above {α : Type} {R : α → α → Prop} :
    ∀ {l : List α} (n : Nat) {x : α}, l.Pairwise R → x ∈ l →
      x ∈ l.take n ∨ ((l.take n).length = n ∧ ∀ e ∈ l.take n, R e x)
  | _, 0, _, _, _ => .inr ⟨rfl, nofun⟩
  | a :: l, n + 1, x, hl, hxl => by
    rw [List.pairwise_cons] at hl
    rcases List.mem_cons.1 hxl with rfl | hx
    · exact .inl (List.mem_cons_self _ _)
    rcases mem_take_or_above n hl.2 hx with h | ⟨hn, h⟩
    · exact .inl (List.mem_cons_of_mem _ h)
    · refine .inr ⟨by simp [hn], fun e he => ?_⟩
      rcases List.mem_cons.1 he with rfl | he
      · exact hl.1 x hx
      · exact h e he

/-- **The listing query's rows are the first selected keys in order.** -/
theorem firstInOrder_take (sel : String → Bool) (n : Nat) :
    FirstInOrder t userToken storeId sel n
      ((((t.storeRows userToken storeId).filter fun e => sel e.1).map fun e => (e.1, e.2.version)).take n) where
  ascending :=
    (List.pairwise_map.2 ((t.storeRows_sorted userToken storeId).filter _)).sublist (List.take_sublist _ _)
  sound e he := by
    obtain ⟨⟨k, row⟩, hm, rfl⟩ := List.mem_map.1 (List.mem_of_mem_take he)
    have hm := List.mem_filter.1 hm
    exact ⟨hm.2, by rw [VssDb.mem_storeRows.1 hm.1]; rfl⟩
  bounded := List.length_take_le _ _
  complete k row hk hr :=
    mem_take_or_above (R := fun a b : String × I64 => textLt a.1 b.1) n
      (List.pairwise_map.2 ((t.storeRows_sorted userToken storeId).filter _)) (x := (k, row.version))
      (List.mem_map.2 ⟨(k, row), List.mem_filter.2 ⟨VssDb.mem_storeRows.2 hr, hk⟩, rfl⟩)

/-- The listing query, for a limit that is not negative and a prefix `LIKE` reads literally. -/
theorem selectKeyVersions_literal {storeId pageToken keyPrefix : String} {limit : I64} (hl : 0 ≤ limit.val)
    (hp : likeLiteral keyPrefix.data) :
    selectKeyVersions t userToken storeId pageToken (keyPrefix ++ "%") limit =
      .ok ((((t.storeRows userToken storeId).filter
        fun e => textLt pageToken e.1 && decide (keyPrefix.data <+: e.1.data)).map
          fun e => (e.1, e.2.version)).take limit.val.toNat) := by
  have hd : (keyPrefix ++ "%").data = keyPrefix.data ++ ['%'] := rfl
  unfold selectKeyVersions
  rw [if_neg (by omega), hd, parseLike_literal_pattern _ hp]
  simp only [likeMatch_literal_iff]

theorem listLimit_nonneg {pageSize : Option I32} (hn : ∀ n, pageSize = some n → 0 ≤ n.val) :
    0 ≤ (listLimit pageSize).val := by
  cases pageSize with
  | none => decide
  | some n =>
    have h100 : listKeyVersionsMaxPageSize.val = 100 := rfl
    have := hn n rfl
    simp only [listLimit, SInt.toI64, SInt.min, Option.getD_some]
    split_ifs <;> omega

/-- **The page `list_key_versions` answers** for a page size that is not negative and a literal prefix: made of the
first `max(0, min(n, 100))` keys after the page token that begin with the prefix. -/
theorem listKeyVersions_page (t : VssDb) (userToken : String) (request : ListKeyVersionsRequest)
    (hn : ∀ n, request.pageSize = some n → 0 ≤ n.val) (hp : likeLiteral (request.keyPrefix.getD "").data) :
    listKeyVersions noFaults t userToken request = .ok (listPage
      ((((t.storeRows userToken request.storeId).filter fun e => textLt (request.pageToken.getD "") e.1 &&
        decide ((request.keyPrefix.getD "").data <+: e.1.data)).map fun e => (e.1, e.2.version)).take
          (pageBound request.pageSize))
      (if request.pageToken.isNone then some (globalVersionOf t userToken request.storeId) else none)) := by
  simp only [listKeyVersions, listGlobalVersion_noFaults, listKeyVersionsPage, except_ok_bind, backendCall_noFaults,
    except_ok_unit_bind, selectKeyVersions_literal (listLimit_nonneg hn) hp, Except.mapError, except_pure,
    listLimit_toNat]

/-- **`list_key_versions` with a page size that is not negative and a literal prefix**: the first
`max(0, min(n, 100))` keys after the page token that begin with the prefix, in ascending order, less the reserved
key, each with its stored version and an empty value; the last of them as the next page token, `""` when there is
none; and the effective global version exactly when no page token was sent. -/
theorem listKeyVersions_literal (t : VssDb) (userToken : String) (request : ListKeyVersionsRequest)
    (hn : ∀ n, request.pageSize = some n → 0 ≤ n.val) (hp : likeLiteral (request.keyPrefix.getD "").data) :
    ∃ page, FirstInOrder t userToken request.storeId
        (fun k => textLt (request.pageToken.getD "") k && decide ((request.keyPrefix.getD "").data <+: k.data))
        (pageBound request.pageSize) page ∧
      listKeyVersions noFaults t userToken request =
        .ok ⟨(page.filter (·.1 != globalVersionKey)).map fun e => ⟨e.1, [], e.2⟩,
          some (match (page.filter (·.1 != globalVersionKey)).getLast? with
            | some e => e.1
            | none => ""),
          if request.pageToken.isNone then some (globalVersionOf t userToken request.storeId) else none⟩ := by
  refine ⟨_, firstInOrder_take _ _, ?_⟩
  rw [listKeyVersions_page t userToken request hn hp]
  simp only [listPage]
  congr 2
  generalize List.filter _ _ = kvs
  cases h : kvs.getLast? with
  | none => simp [List.getLast?_eq_none_iff.1 h]
  | some e =>
    have hne : kvs ≠ [] := by rintro rfl; cases h
    simp [hne, List.getLast?_map, h]

/-- A page of two after the token `b`, on a store holding `a` before it and `c`, the reserved record and `x` after it:
the page is `c` and the reserved record, which is then taken out. -/
theorem listKeyVersions_literal_after_token :
    (∀ n, (some 2 : Option I32) = some n → 0 ≤ n.val) ∧ likeLiteral "".data ∧
    (∃ page, FirstInOrder (put noFaults VssDb.empty "u" ⟨"s", some 0, [⟨"a", [], 0⟩, ⟨"c", [], 0⟩, ⟨"x", [], 0⟩], []⟩).2 "u" "s"
        (fun k => textLt "b" k && decide ("".data <+: k.data)) 2 page ∧
      listKeyVersions noFaults (put noFaults VssDb.empty "u" ⟨"s", some 0, [⟨"a", [], 0⟩, ⟨"c", [], 0⟩, ⟨"x", [], 0⟩], []⟩).2 "u"
          ⟨"s", none, some 2, some "b"⟩ =
        .ok ⟨(page.filter (·.1 != globalVersionKey)).map fun e => ⟨e.1, [], e.2⟩,
          some (match (page.filter (·.1 != globalVersionKey)).getLast? with
            | some e => e.1
            | none => ""),
          none⟩) ∧
    listKeyVersions noFaults (put noFaults VssDb.empty "u" ⟨"s", some 0, [⟨"a", [], 0⟩, ⟨"c", [], 0⟩, ⟨"x", [], 0⟩], []⟩).2 "u"
      ⟨"s", none, some 2, some "b"⟩ = .ok ⟨[⟨"c", [], 1⟩], some "c", none⟩ :=
  have hn : ∀ n, (some 2 : Option I32) = some n → 0 ≤ n.val := by
    rintro n ⟨⟩
    decide
  ⟨hn, by decide, listKeyVersions_literal _ "u" ⟨"s", none, some 2, some "b"⟩ hn (by decide), rfl⟩

/-- Where the answer departs from "the keys after the token that begin with the prefix, with the global version when
the token is absent or empty, cut to `max(0, min(n, 100))`": a page token `""` gets no global version; a negative
page size is an error; a stored key `""` is never listed; a prefix holding `_` or `%` lists keys that do not begin
with it; and a prefix ending in `\` lists none of the keys that begin with it. -/
theorem listKeyVersions_departures :
    listKeyVersions noFaults VssDb.empty "u" ⟨"s", none, none, some ""⟩ = .ok ⟨[], some "", none⟩ ∧
    (∃ message, listKeyVersions noFaults VssDb.empty "u" ⟨"s", none, some (SInt.saturate 32 (-1)), none⟩ =
      .error (.internalServerError ("Query error: " ++ message))) ∧
    listKeyVersions noFaults (put noFaults VssDb.empty "u" ⟨"s", none, [⟨"", [], 0⟩], []⟩).2 "u"
      ⟨"s", none, none, none⟩ = .ok ⟨[], some "", some 0⟩ ∧
    listKeyVersions noFaults (put noFaults VssDb.empty "u" ⟨"s", none, [⟨"\\x", [], 0⟩, ⟨"b", [], 0⟩], []⟩).2 "u"
        ⟨"s", some "_", none, none⟩ =
      .ok ⟨[⟨"\\x", [], 1⟩, ⟨"b", [], 1⟩], some "b", some 0⟩ ∧
    listKeyVersions noFaults (put noFaults VssDb.empty "u" ⟨"s", none, [⟨"\\x", [], 0⟩, ⟨"b", [], 0⟩], []⟩).2 "u"
        ⟨"s", some "%", none, none⟩ =
      .ok ⟨[⟨"\\x", [], 1⟩, ⟨"b", [], 1⟩], some "b", some 0⟩ ∧
    listKeyVersions noFaults (put noFaults VssDb.empty "u" ⟨"s", none, [⟨"\\x", [], 0⟩, ⟨"b", [], 0⟩], []⟩).2 "u"
        ⟨"s", some "\\", none, none⟩ =
      .ok ⟨[], some "", some 0⟩ :=
  ⟨rfl, ⟨_, rfl⟩, rfl, rfl, rfl, rfl⟩

end Vss
