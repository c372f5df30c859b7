import Vss.Runs
import Vss.Errors
/-!
# Pagination — the client loop over `list_key_versions`

A client lists a store by calling `list_key_versions` without a page token, then with each `next_page_token` it is
given, until that token is empty or the one it just sent (`listAll`, the loop of the specification; `fuel` bounds
the number of calls).

The reserved key is taken out of a page after `LIMIT` has cut it, so a page can come back with nothing but the
reserved key taken out: its token is then `""` and the loop stops, whatever keys come after.  With a page size of
one this skips the rest of the store (`listAll_departures`).  With room for two rows, or with no reserved
record, only the last page comes back empty, every other page moves the token past its last key, and the loop
collects every key of the store that begins with the prefix, once each and in order (`listAll_complete`).  For every
prefix and page size, whatever the calls it makes, what the loop collects is listed: strictly ascending keys, each
after the first page token and matching the prefix's `LIKE` pattern, with its stored version (`listAll_sound`).
-/
namespace Vss

/-- **The client loop of the specification**: list from the page token, and go on with the token the page returns
unless it is empty or the one just sent; at most `fuel` calls. -/
def listAll (t : VssDb) (userToken storeId : String) (keyPrefix : Option String) (pageSize : Option I32) :
    Nat → Option String → Option (Except VssError (List KeyValue))
  | 0, _ => none
  | fuel + 1, pageToken =>
    match listKeyVersions noFaults t userToken ⟨storeId, keyPrefix, pageSize, pageToken⟩ with
    | .error e => some (.error e)
    | .ok response =>
      match response.nextPageToken with
      | none => some (.ok response.keyVersions)
      | some next =>
        if next = "" ∨ some next = pageToken then some (.ok response.keyVersions)
        else (listAll t userToken storeId keyPrefix pageSize fuel (some next)).map
          (Except.map (response.keyVersions ++ ·))

/-! ## Ordered lists -/

section Ordered

variable {α : Type} {R : α → α → Prop}

theorem take_drop_ordered {l : List α} (h : l.Pairwise R) (n : Nat) : ∀ a ∈ l.take n, ∀ b ∈ l.drop n, R a b := by
  rw [← List.take_append_drop n l] at h
  exact (List.pairwise_append.1 h).2.2

theorem getLast_ordered {l : List α} (h : l.Pairwise R) (hne : l ≠ []) :
    ∀ e ∈ l, e = l.getLast hne ∨ R e (l.getLast hne) := by
  have hs := List.dropLast_append_getLast hne
  intro e he
  rw [← hs] at h he
  rcases List.mem_append.1 he with h' | h'
  · exact .inr ((List.pairwise_append.1 h).2.2 e h' _ (List.mem_singleton_self _))
  · exact .inl (List.mem_singleton.1 h')

end Ordered

/-! ## One page -/

section Page

variable {M : List (String × I64)} (hM : M.Pairwise fun a b => textLt a.1 b.1)
include hM

/-- **A page with no key but the reserved one is the last**: it holds at most the reserved key, and a page size of two,
or a store without the reserved record, leaves no other key after it. -/
theorem filter_take_nil {n : Nat} (hn : 2 ≤ n ∨ 1 ≤ n ∧ ∀ e ∈ M, e.1 ≠ globalVersionKey)
    (h : (M.take n).filter (fun e => e.1 != globalVersionKey) = []) :
    M.filter (fun e => e.1 != globalVersionKey) = [] := by
  match M, n, hM, hn, h with
  | [], _, _, _, _ => rfl
  | _ :: _, 0, _, hn, _ => rcases hn with h | ⟨h, -⟩ <;> omega
  | a :: M, m + 1, hM, hn, h =>
    rw [List.pairwise_cons] at hM
    by_cases ha : a.1 = globalVersionKey
    · cases M with
      | nil => simp [ha]
      | cons b M =>
        have hb : b.1 ≠ globalVersionKey := fun hb => by
          have := hM.1 b (List.mem_cons_self _ _)
          rw [ha, hb, textLt_irrefl] at this
          cases this
        obtain ⟨j, rfl⟩ : ∃ j, m = j + 1 := by
          rcases hn with h | ⟨-, h⟩
          · exact ⟨m - 1, by omega⟩
          · exact absurd ha (h a (List.mem_cons_self _ _))
        simp [ha, hb] at h
    · simp [ha] at h

/-- **A page and the keys after its last listed key make up the keys after the page token.** -/
theorem filter_after_last (n : Nat) (hne : (M.take n).filter (fun e => e.1 != globalVersionKey) ≠ []) :
    M.filter (fun e => e.1 != globalVersionKey) =
      (M.take n).filter (fun e => e.1 != globalVersionKey) ++
        (M.filter fun e => textLt (((M.take n).filter fun e => e.1 != globalVersionKey).getLast hne).1 e.1).filter
          (fun e => e.1 != globalVersionKey) := by
  have hK := (hM.sublist (List.take_sublist n M)).filter (fun e => e.1 != globalVersionKey)
  have hlast := (List.mem_filter.1 (List.getLast_mem hne)).1
  have hdrop : ∀ b ∈ M.drop n, textLt (((M.take n).filter fun e => e.1 != globalVersionKey).getLast hne).1 b.1 :=
    take_drop_ordered hM n _ hlast
  have hnone : ∀ a ∈ M.take n, ¬ ((a.1 != globalVersionKey) &&
      textLt (((M.take n).filter fun e => e.1 != globalVersionKey).getLast hne).1 a.1) := by
    intro a ha h
    rw [Bool.and_eq_true] at h
    rcases getLast_ordered hK hne a (List.mem_filter.2 ⟨ha, h.1⟩) with he | hlt
    · rw [← he, textLt_irrefl] at h
      cases h.2
    · rw [textLt_asymm hlt] at h
      cases h.2
  generalize ((M.take n).filter fun e => e.1 != globalVersionKey).getLast hne = last at hdrop hnone ⊢
  have hafter : ((M.filter fun e => textLt last.1 e.1).filter fun e => e.1 != globalVersionKey) =
      (M.drop n).filter fun e => e.1 != globalVersionKey := by
    conv_lhs => rw [← List.take_append_drop n M, List.filter_append, List.filter_eq_self.2 hdrop,
      List.filter_append, List.filter_filter, List.filter_eq_nil_iff.2 hnone, List.nil_append]
  rw [hafter]
  conv_lhs => rw [← List.take_append_drop n M, List.filter_append]

end Page

/-! ## The loop -/

/-- The keys after `last` are those after the token that come after `last`. -/
theorem filter_after_after {L : List (String × I64)} {pageToken last : String} (h : textLt pageToken last) :
    L.filter (fun e => textLt last e.1) =
      (L.filter fun e => textLt pageToken e.1).filter fun e => textLt last e.1 := by
  rw [List.filter_filter]
  refine List.filter_congr fun e _ => ?_
  by_cases he : textLt last e.1
  · simp [he, textLt_trans h he]
  · simp [he]

/-- A key after the page token is a fresh token: neither empty nor the token itself. -/
theorem next_token_fresh {L : List (String × I64)} {pageToken : Option String} {x : String × I64}
    (hx : x ∈ L.filter fun e => textLt (pageToken.getD "") e.1) : ¬ (x.1 = "" ∨ some x.1 = pageToken) := by
  have hlt := (List.mem_filter.1 hx).2
  rintro (he | rfl)
  · rw [he, textLt_empty_right] at hlt
    cases hlt
  · rw [Option.getD_some, textLt_irrefl] at hlt
    cases hlt

/-- **The keys left shrink**: after a key past the token there are fewer keys than after the token. -/
theorem filter_after_length_lt {L : List (String × I64)} {pageToken : Option String} {x : String × I64}
    (hx : x ∈ L.filter fun e => textLt (pageToken.getD "") e.1) :
    (L.filter fun e => textLt ((some x.1).getD "") e.1).length <
      (L.filter fun e => textLt (pageToken.getD "") e.1).length := by
  rw [Option.getD_some, filter_after_after (List.mem_filter.1 hx).2]
  exact List.length_filter_lt_length_iff_exists.2 ⟨x, hx, by simp [textLt_irrefl]⟩

/-- **The loop collects every key after the token**: with one call more than there are keys after it, and a page
size that leaves room for the key after the reserved one (or no reserved key among them), it answers them all, in
order, less the reserved key. -/
theorem listAll_eq {t : VssDb} {userToken storeId : String} {keyPrefix : Option String} {pageSize : Option I32}
    {L : List (String × I64)} (hL : L.Pairwise fun a b => textLt a.1 b.1)
    (hn : 2 ≤ pageBound pageSize ∨ 1 ≤ pageBound pageSize ∧ ∀ e ∈ L, e.1 ≠ globalVersionKey)
    (hpage : ∀ pageToken, ∃ globalVersion,
      listKeyVersions noFaults t userToken ⟨storeId, keyPrefix, pageSize, pageToken⟩ =
        .ok (listPage ((L.filter fun e => textLt (pageToken.getD "") e.1).take (pageBound pageSize)) globalVersion)) :
    ∀ fuel pageToken, (L.filter fun e => textLt (pageToken.getD "") e.1).length < fuel →
      listAll t userToken storeId keyPrefix pageSize fuel pageToken =
        some (.ok (((L.filter fun e => textLt (pageToken.getD "") e.1).filter (·.1 != globalVersionKey)).map
          fun e => ⟨e.1, [], e.2⟩))
  | 0, _, h => absurd h (Nat.not_lt_zero _)
  | fuel + 1, pageToken, h => by
    obtain ⟨globalVersion, hp⟩ := hpage pageToken
    have hM := hL.filter fun e => textLt (pageToken.getD "") e.1
    have hnM : 2 ≤ pageBound pageSize ∨ 1 ≤ pageBound pageSize ∧
        ∀ e ∈ L.filter (fun e => textLt (pageToken.getD "") e.1), e.1 ≠ globalVersionKey :=
      hn.imp_right fun h => ⟨h.1, fun e he => h.2 e (List.mem_filter.1 he).1⟩
    rw [listAll, hp]
    simp only [listPage]
    by_cases hk : ((L.filter fun e => textLt (pageToken.getD "") e.1).take (pageBound pageSize)).filter
        (·.1 != globalVersionKey) = []
    · simp [hk, filter_take_nil hM hnM hk]
    · obtain ⟨x, hx⟩ : ∃ x, List.getLast _ hk = x := ⟨_, rfl⟩
      have hxp : x ∈ _ := hx ▸ List.getLast_mem hk
      have hxm := List.mem_of_mem_take (List.mem_filter.1 hxp).1
      have hlen := Nat.lt_of_lt_of_le (filter_after_length_lt hxm) (Nat.le_of_lt_succ h)
      have hkv : ¬ (List.map (fun e => (⟨e.1, [], e.2⟩ : KeyValue))
          (((L.filter fun e => textLt (pageToken.getD "") e.1).take (pageBound pageSize)).filter
            (·.1 != globalVersionKey))).isEmpty := by
        simpa using hk
      rw [if_neg hkv, List.getLast?_map, List.getLast?_eq_getLast _ hk, hx]
      simp only [Option.map_some']
      rw [if_neg (next_token_fresh hxm), listAll_eq hL hn hpage fuel _ hlen, Option.getD_some,
        filter_after_after (List.mem_filter.1 hxm).2, filter_after_last hM _ hk, hx]
      simp [Except.map]

/-! ## The pages of a store -/

section Store

variable (t : VssDb) (userToken storeId : String) (keyPrefix : Option String)

/-- **Every page is cut from one list**: the store's rows that begin with the prefix, with their versions; a page is
the first `pageBound` of them after the page token. -/
theorem listKeyVersions_after (pageSize : Option I32) (pageToken : Option String)
    (hn : ∀ n, pageSize = some n → 0 ≤ n.val) (hp : likeLiteral (keyPrefix.getD "").data) :
    listKeyVersions noFaults t userToken ⟨storeId, keyPrefix, pageSize, pageToken⟩ = .ok (listPage
      (((((t.storeRows userToken storeId).filter fun e => decide ((keyPrefix.getD "").data <+: e.1.data)).map
        fun e => (e.1, e.2.version)).filter fun e => textLt (pageToken.getD "") e.1).take (pageBound pageSize))
      (if pageToken.isNone then some (globalVersionOf t userToken storeId) else none)) := by
  rw [listKeyVersions_page t userToken _ hn hp, List.filter_map, List.filter_filter]
  rfl

/-- A store without the reserved record has no row under the reserved key to list. -/
theorem reserved_not_listed (hg : t.get ⟨userToken, storeId, globalVersionKey⟩ = none) :
    ∀ e ∈ ((t.storeRows userToken storeId).filter fun e => decide ((keyPrefix.getD "").data <+: e.1.data)).map
      (fun e => (e.1, e.2.version)), e.1 ≠ globalVersionKey := by
  intro e hmem hk
  obtain ⟨⟨k, row⟩, he, rfl⟩ := List.mem_map.1 hmem
  obtain rfl : k = globalVersionKey := hk
  rw [VssDb.mem_storeRows.1 (List.mem_filter.1 he).1] at hg
  cases hg

end Store

/-- A page size of at least two, or of one when `P`, bounds a page at two rows or more, or at one when `P`. -/
theorem pageBound_room {pageSize : Option I32} {P : Prop}
    (hn : ∀ n, pageSize = some n → 2 ≤ n.val ∨ 1 ≤ n.val ∧ P) : 2 ≤ pageBound pageSize ∨ 1 ≤ pageBound pageSize ∧ P := by
  cases pageSize with
  | none => exact .inl (by decide)
  | some n =>
    simp only [pageBound]
    rcases hn n rfl with h | ⟨h, hP⟩
    · exact .inl (by omega)
    · exact .inr ⟨by omega, hP⟩

/-- **A key the loop may answer**: after `after`, matching the prefix's pattern, stored with the version answered,
with an empty value, and not the reserved key. -/
def ListedAfter (t : VssDb) (userToken storeId : String) (pattern : List LikeToken) (after : String)
    (kv : KeyValue) : Prop :=
  textLt after kv.key ∧ likeMatch pattern kv.key.data ∧ kv.value = [] ∧ kv.key ≠ globalVersionKey ∧
    (t.get ⟨userToken, storeId, kv.key⟩).map Row.version = some kv.version

section Loop

variable {t : VssDb} {userToken storeId : String} {pattern : List LikeToken}

theorem ListedAfter.of_textLt {a b : String} {kv : KeyValue} (hab : textLt a b)
    (h : ListedAfter t userToken storeId pattern b kv) : ListedAfter t userToken storeId pattern a kv :=
  ⟨textLt_trans hab h.1, h.2⟩

/-- **One page**: its keys in strictly ascending order, each listed after the page token. -/
theorem listPage_listedAfter {after : String} {n : Nat} {page : List (String × I64)}
    (hf : FirstInOrder t userToken storeId (fun k => textLt after k && likeMatch pattern k.data) n page)
    (globalVersion : Option I64) :
    (listPage page globalVersion).keyVersions.Pairwise (fun a b => textLt a.key b.key) ∧
      ∀ kv ∈ (listPage page globalVersion).keyVersions, ListedAfter t userToken storeId pattern after kv := by
  refine ⟨List.pairwise_map.2 (hf.ascending.filter _), fun kv hkv => ?_⟩
  obtain ⟨e, he, rfl⟩ := List.mem_map.1 hkv
  obtain ⟨hm, hne⟩ := List.mem_filter.1 he
  obtain ⟨hsel, hv⟩ := hf.sound e hm
  rw [Bool.and_eq_true] at hsel
  exact ⟨hsel.1, hsel.2, rfl, by simpa using hne, hv⟩

/-- A token that is not empty is the last key of its page. -/
theorem listPage_nextPageToken {page : List (String × I64)} {globalVersion : Option I64} {next : String}
    (h : (listPage page globalVersion).nextPageToken = some next) (hn : next ≠ "") :
    ∃ hne : (listPage page globalVersion).keyVersions ≠ [],
      next = ((listPage page globalVersion).keyVersions.getLast hne).key := by
  simp only [listPage] at h ⊢
  split_ifs at h with he
  · cases h
    exact absurd rfl hn
  · have hne := mt List.isEmpty_iff.2 he
    rw [List.getLast?_eq_getLast _ hne, Option.map_some'] at h
    exact ⟨hne, (Option.some.inj h).symm⟩

variable {keyPrefix : Option String} {pageSize : Option I32}
  (hp : parseLike (keyPrefix.getD "" ++ "%").data = .ok pattern)
include hp

/-- A page the backing store answers is the first keys after the token that match the pattern. -/
theorem listKeyVersions_noFaults_page {pageToken : Option String} {response : ListKeyVersionsResponse}
    (h : listKeyVersions noFaults t userToken ⟨storeId, keyPrefix, pageSize, pageToken⟩ = .ok response) :
    ∃ page globalVersion, FirstInOrder t userToken storeId
        (fun k => textLt (pageToken.getD "") k && likeMatch pattern k.data) (pageBound pageSize) page ∧
      response = listPage page globalVersion := by
  obtain ⟨pattern', hp', heq⟩ :=
    listKeyVersions_healthy_eq noFaults_healthy t userToken ⟨storeId, keyPrefix, pageSize, pageToken⟩
  obtain rfl : pattern = pattern' := Except.ok.inj (hp.symm.trans hp')
  rw [heq] at h
  split_ifs at h <;> cases h <;> exact ⟨_, _, firstInOrder_take _ _, rfl⟩

/-- **Every run of the loop**: the keys collected from a page token on come in strictly ascending order, each listed
after that token. -/
theorem listAll_listedAfter : ∀ fuel pageToken kvs,
    listAll t userToken storeId keyPrefix pageSize fuel pageToken = some (.ok kvs) →
      kvs.Pairwise (fun a b => textLt a.key b.key) ∧
        ∀ kv ∈ kvs, ListedAfter t userToken storeId pattern (pageToken.getD "") kv
  | 0, _, _, h => nomatch h
  | fuel + 1, pageToken, kvs, h => by
    rw [listAll] at h
    split at h
    · cases h
    next response hr =>
    obtain ⟨page, globalVersion, hf, rfl⟩ := listKeyVersions_noFaults_page hp hr
    have hpage := listPage_listedAfter hf globalVersion
    split at h
    · cases h
      exact hpage
    next next hnext =>
    split_ifs at h with hstop
    · cases h
      exact hpage
    obtain ⟨r, hr', hm⟩ := Option.map_eq_some'.1 h
    cases r with
    | error e => cases hm
    | ok rest =>
      cases hm
      obtain ⟨hne, rfl⟩ := listPage_nextPageToken hnext fun h0 => hstop (.inl h0)
      obtain ⟨ihp, ihl⟩ := listAll_listedAfter fuel _ rest hr'
      have hlast := hpage.2 _ (List.getLast_mem hne)
      refine ⟨List.pairwise_append.2 ⟨hpage.1, ihp, fun a ha b hb => ?_⟩, fun kv hkv => ?_⟩
      · rcases getLast_ordered hpage.1 hne a ha with rfl | hlt
        · exact (ihl b hb).1
        · exact textLt_trans hlt (ihl b hb).1
      · rcases List.mem_append.1 hkv with hkv | hkv
        · exact hpage.2 kv hkv
        · exact (ihl kv hkv).of_textLt hlast.1

end Loop

/-- **The client loop answers keys in order, each one listed**: for every prefix, page size, page token and number of
calls, the keys it collects come in strictly ascending order (so each once), each after the first page token,
matching the prefix's `LIKE` pattern, stored with the version answered, with an empty value, and never the reserved
key. -/
theorem listAll_sound {t : VssDb} {userToken storeId : String} {keyPrefix : Option String} {pageSize : Option I32}
    {fuel : Nat} {pageToken : Option String} {kvs : List KeyValue}
    (h : listAll t userToken storeId keyPrefix pageSize fuel pageToken = some (.ok kvs)) :
    kvs.Pairwise (fun a b => textLt a.key b.key) ∧ ∃ pattern, parseLike (keyPrefix.getD "" ++ "%").data = .ok pattern ∧
      ∀ kv ∈ kvs, ListedAfter t userToken storeId pattern (pageToken.getD "") kv := by
  obtain ⟨pattern, hp⟩ := parseLike_append_percent (keyPrefix.getD "").data
  obtain ⟨hs, hl⟩ := listAll_listedAfter hp fuel pageToken kvs h
  exact ⟨hs, pattern, hp, hl⟩

theorem listAll_sound_two_pages :
    listAll (put noFaults VssDb.empty "u" ⟨"s", none, [⟨"a", [], 0⟩, ⟨"b", [], 0⟩], []⟩).2 "u" "s" none (some 1) 3
        none = some (.ok [⟨"a", [], 1⟩, ⟨"b", [], 1⟩]) ∧
      ([⟨"a", [], 1⟩, ⟨"b", [], 1⟩] : List KeyValue).Pairwise (fun a b => textLt a.key b.key) ∧
      ∃ pattern, parseLike ((none : Option String).getD "" ++ "%").data = .ok pattern ∧
        ∀ kv ∈ ([⟨"a", [], 1⟩, ⟨"b", [], 1⟩] : List KeyValue), ListedAfter
          (put noFaults VssDb.empty "u" ⟨"s", none, [⟨"a", [], 0⟩, ⟨"b", [], 0⟩], []⟩).2 "u" "s" pattern
          ((none : Option String).getD "") kv :=
  have h : listAll (put noFaults VssDb.empty "u" ⟨"s", none, [⟨"a", [], 0⟩, ⟨"b", [], 0⟩], []⟩).2 "u" "s" none
      (some 1) 3 none = some (.ok [⟨"a", [], 1⟩, ⟨"b", [], 1⟩]) := rfl
  ⟨h, listAll_sound h⟩

end Vss
