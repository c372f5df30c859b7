import Mathlib.Data.List.Sigma
import Vss.Signed
import Vss.Text
/-!
# Table — `vss_db`

The one relation of the backing store, keyed by `(user_token, store_id, key)`.  It is kept as its rows in
primary-key order (`CompositeKey.lt`: user token, then store id, then key, each by the collation), one row per key,
the order being a field of the structure.  That makes the representation canonical: two tables with the same row
under every key are equal (`VssDb.ext`), which is what "leaves the same table" means in the theorems above it.
A statement sees the table through `get` and changes it through `write`; the listing query reads one store's rows
in key order (`storeRows`).
-/
namespace Vss

/-! ## Key orders -/

/-- **A strict total order given as a test.** -/
structure KeyOrder {α : Type} (lt : α → α → Bool) : Prop where
  irrefl : ∀ a, lt a a = false
  trans : ∀ {a b c}, lt a b → lt b c → lt a c
  total : ∀ {a b}, a ≠ b → lt a b ∨ lt b a

theorem KeyOrder.asymm {α : Type} {lt : α → α → Bool} (o : KeyOrder lt) {a b : α} (h : lt a b) :
    lt b a = false := by
  cases h' : lt b a
  · rfl
  · simpa [o.irrefl] using o.trans h h'

theorem textLt_keyOrder : KeyOrder textLt := ⟨textLt_irrefl, textLt_trans, textLt_total⟩

/-- Lexicographic `<` on pairs. -/
def lexLt {α β : Type} [DecidableEq α] (ltA : α → α → Bool) (ltB : β → β → Bool) (a b : α × β) : Bool :=
  ltA a.1 b.1 || (a.1 = b.1 && ltB a.2 b.2)

theorem lexLt_keyOrder {α β : Type} [DecidableEq α] {ltA : α → α → Bool} {ltB : β → β → Bool}
    (oA : KeyOrder ltA) (oB : KeyOrder ltB) : KeyOrder (lexLt ltA ltB) where
  irrefl a := by simp [lexLt, oA.irrefl, oB.irrefl]
  trans {a b c} hab hbc := by
    simp only [lexLt, Bool.or_eq_true, Bool.and_eq_true, decide_eq_true_eq] at *
    rcases hab with hab | ⟨e1, hab⟩ <;> rcases hbc with hbc | ⟨e2, hbc⟩
    · exact .inl (oA.trans hab hbc)
    · exact .inl (e2 ▸ hab)
    · exact .inl (e1 ▸ hbc)
    · exact .inr ⟨e1.trans e2, oB.trans hab hbc⟩
  total {a b} h := by
    simp only [lexLt, Bool.or_eq_true, Bool.and_eq_true, decide_eq_true_eq]
    by_cases e : a.1 = b.1
    · have h2 : a.2 ≠ b.2 := fun e' => h (Prod.ext e e')
      rcases oB.total h2 with h2 | h2
      · exact .inl (.inr ⟨e, h2⟩)
      · exact .inr (.inr ⟨e.symm, h2⟩)
    · rcases oA.total e with h1 | h1
      · exact .inl (.inl h1)
      · exact .inr (.inl h1)

/-! ## Keys and rows -/

/-- The primary key of `vss_db`. -/
structure CompositeKey where
  userToken : String
  storeId : String
  key : String
deriving DecidableEq

namespace CompositeKey

/-- The key as the triple the index sorts. -/
def toTriple (k : CompositeKey) : String × String × String := (k.userToken, k.storeId, k.key)

/-- **The primary-key order.** -/
def lt (a b : CompositeKey) : Bool := lexLt textLt (lexLt textLt textLt) a.toTriple b.toTriple

theorem toTriple_injective {a b : CompositeKey} (h : a.toTriple = b.toTriple) : a = b := by
  cases a; cases b; simp_all [toTriple]

theorem lt_keyOrder : KeyOrder lt :=
  let o := lexLt_keyOrder textLt_keyOrder (lexLt_keyOrder textLt_keyOrder textLt_keyOrder)
  ⟨fun _ => o.irrefl _, o.trans, fun h => o.total (fun e => h (toTriple_injective e))⟩

/-- Two keys of one store compare as their `key` columns do. -/
theorem lt_same_store {u s a b : String} : lt ⟨u, s, a⟩ ⟨u, s, b⟩ = textLt a b := by
  simp [lt, lexLt, toTriple, textLt_irrefl]

end CompositeKey

/-- The columns of a row that some statement reads or writes, besides its key. -/
structure Row where
  value : List UInt8
  version : I64
deriving DecidableEq

/-! ## Sorted insertion -/

/-- A row list in primary-key order. -/
abbrev RowList := List ((_ : CompositeKey) × Row)

/-- Insertion in key order, replacing the row under the same key. -/
def insertRow (k : CompositeKey) (r : Row) : RowList → RowList
  | [] => [⟨k, r⟩]
  | e :: rest =>
    if k.lt e.1 then ⟨k, r⟩ :: e :: rest
    else if k = e.1 then ⟨k, r⟩ :: rest
    else e :: insertRow k r rest

theorem dlookup_cons (k' : CompositeKey) (e : (_ : CompositeKey) × Row) (rest : RowList) :
    (e :: rest).dlookup k' = if k' = e.1 then some e.2 else rest.dlookup k' := by
  obtain ⟨k₀, r₀⟩ := e
  by_cases h : k' = k₀
  · subst h; simp [List.dlookup_cons_eq]
  · simp [List.dlookup_cons_ne rest (⟨k₀, r₀⟩ : (_ : CompositeKey) × Row) h, h]

theorem dlookup_insertRow (k : CompositeKey) (r : Row) (k' : CompositeKey) :
    ∀ l : RowList, (insertRow k r l).dlookup k' = if k' = k then some r else l.dlookup k'
  | [] => by simp [insertRow, dlookup_cons]
  | e :: rest => by
    unfold insertRow
    split_ifs with h1 h2 <;> simp only [dlookup_cons, dlookup_insertRow k r k' rest] <;> split_ifs <;> simp_all

theorem mem_insertRow {k : CompositeKey} {r : Row} {e : (_ : CompositeKey) × Row} :
    ∀ {l : RowList}, e ∈ insertRow k r l → e = ⟨k, r⟩ ∨ e ∈ l
  | [], h => by simpa [insertRow] using h
  | e₀ :: rest, h => by
    unfold insertRow at h
    split_ifs at h <;> simp only [List.mem_cons] at h ⊢
    · exact h
    · tauto
    · rcases h with h | h
      · exact .inr (.inl h)
      · exact (mem_insertRow h).imp_right .inr

theorem insertRow_sorted {k : CompositeKey} {r : Row} :
    ∀ {l : RowList}, l.Pairwise (fun a b => a.1.lt b.1) → (insertRow k r l).Pairwise (fun a b => a.1.lt b.1)
  | [], _ => List.pairwise_singleton _ _
  | e :: rest, h => by
    have o := CompositeKey.lt_keyOrder
    rw [List.pairwise_cons] at h
    unfold insertRow
    split_ifs with h1 h2
    · exact List.Pairwise.cons (fun b hb => (List.mem_cons.1 hb).elim (· ▸ h1) (o.trans h1 ∘ h.1 b))
        (List.Pairwise.cons h.1 h.2)
    · exact List.Pairwise.cons (fun b hb => h2 ▸ h.1 b hb) h.2
    · refine List.Pairwise.cons (fun b hb => ?_) (insertRow_sorted h.2)
      rcases mem_insertRow hb with rfl | hb
      · exact (o.total (Ne.symm h2)).resolve_right (by simpa using h1)
      · exact h.1 b hb

/-! ## The table -/

/-- **`vss_db`**: its rows in primary-key order. -/
structure VssDb where
  rows : RowList
  sorted : rows.Pairwise (fun a b => a.1.lt b.1)

namespace VssDb

/-- The table with no rows. -/
def empty : VssDb := ⟨[], .nil⟩

/-- The row stored under a key. -/
def get (t : VssDb) (k : CompositeKey) : Option Row := t.rows.dlookup k

/-- The table with `k`'s row set to `r`: stored in key order, or removed when `r` is `none`. -/
def write (t : VssDb) (k : CompositeKey) : Option Row → VssDb
  | some r => ⟨insertRow k r t.rows, insertRow_sorted t.sorted⟩
  | none => ⟨t.rows.kerase k, t.sorted.sublist (List.kerase_sublist _ _)⟩

theorem nodupKeys (t : VssDb) : t.rows.NodupKeys :=
  List.nodupKeys_iff_pairwise.2 (t.sorted.imp fun h e => by
    rw [e, CompositeKey.lt_keyOrder.irrefl] at h; exact absurd h (by simp))

theorem mem_rows {t : VssDb} {k : CompositeKey} {r : Row} : ⟨k, r⟩ ∈ t.rows ↔ t.get k = some r :=
  (List.mem_dlookup_iff t.nodupKeys).symm

@[simp] theorem get_empty (k : CompositeKey) : empty.get k = none := rfl

theorem get_write (t : VssDb) (k k' : CompositeKey) (o : Option Row) :
    (t.write k o).get k' = if k' = k then o else t.get k' := by
  cases o with
  | some r => exact dlookup_insertRow k r k' t.rows
  | none =>
    by_cases h : k' = k
    · subst h; simp [write, get, List.dlookup_kerase k' t.nodupKeys]
    · simp [write, get, h, List.dlookup_kerase_ne h]

@[simp] theorem get_write_self (t : VssDb) (k : CompositeKey) (o : Option Row) : (t.write k o).get k = o := by
  simp [get_write]

@[simp] theorem get_write_ne (t : VssDb) {k k' : CompositeKey} (o : Option Row) (h : k' ≠ k) :
    (t.write k o).get k' = t.get k' := by
  simp [get_write, h]

/-- **Tables are equal when they store the same row under every key.** -/
theorem ext {t t' : VssDb} (h : ∀ k, t.get k = t'.get k) : t = t' := by
  obtain ⟨l, hl⟩ := t
  obtain ⟨l', hl'⟩ := t'
  have hp : l.Perm l' := List.lookup_ext (VssDb.nodupKeys ⟨l, hl⟩) (VssDb.nodupKeys ⟨l', hl'⟩)
    (fun k r => by rw [show l.dlookup k = l'.dlookup k from h k])
  have : l = l' := hp.eq_of_sorted (fun a b _ _ h1 h2 => by
    simp [CompositeKey.lt_keyOrder.asymm h1] at h2) hl hl'
  subst this; rfl

theorem write_write (t : VssDb) (k : CompositeKey) (o o' : Option Row) : (t.write k o).write k o' = t.write k o' :=
  ext fun k' => by simp only [get_write]; split_ifs <;> rfl

/-- Writes under two different keys commute. -/
theorem write_comm (t : VssDb) {k k' : CompositeKey} (h : k ≠ k') (o o' : Option Row) :
    (t.write k o).write k' o' = (t.write k' o').write k o :=
  ext fun k'' => by simp only [get_write]; split_ifs with h₁ h₂ <;> first | rfl | exact absurd (h₂.symm.trans h₁) h

/-- **A change to one row**: `g` reads the row under `k` and gives what is left there, or `none` when the row is
left alone.  Every statement and every operation of a write set is one. -/
def update (t : VssDb) (k : CompositeKey) (g : Option Row → Option (Option Row)) : Option VssDb :=
  (g (t.get k)).map (t.write k)

theorem update_eq_some {t t' : VssDb} {k : CompositeKey} {g : Option Row → Option (Option Row)} :
    t.update k g = some t' ↔ ∃ o, g (t.get k) = some o ∧ t' = t.write k o := by
  rw [update, Option.map_eq_some']
  exact exists_congr fun _ => and_congr_right fun _ => eq_comm

theorem update_eq_none {t : VssDb} {k : CompositeKey} {g : Option Row → Option (Option Row)} :
    t.update k g = none ↔ g (t.get k) = none := by
  simp [update]

/-- An update leaves every other row as it is. -/
theorem get_update_ne {t t' : VssDb} {k k' : CompositeKey} {g : Option Row → Option (Option Row)}
    (h : t.update k g = some t') (hk : k' ≠ k) : t'.get k' = t.get k' := by
  obtain ⟨o, -, rfl⟩ := update_eq_some.1 h
  exact get_write_ne t o hk

/-! ## One store's rows -/

/-- **One store's rows in key order**: what a query with `WHERE user_token = $1 AND store_id = $2 ... ORDER BY key`
ranges over. -/
def storeRows (t : VssDb) (u s : String) : List (String × Row) :=
  (t.rows.filter (fun e => e.1.userToken = u && e.1.storeId = s)).map (fun e => (e.1.key, e.2))

theorem mem_storeRows {t : VssDb} {u s k : String} {r : Row} :
    (k, r) ∈ t.storeRows u s ↔ t.get ⟨u, s, k⟩ = some r := by
  rw [← mem_rows, storeRows, List.mem_map]
  constructor
  · rintro ⟨⟨⟨u', s', k'⟩, r'⟩, he, hk⟩
    simp only [List.mem_filter, Bool.and_eq_true, decide_eq_true_eq] at he
    obtain ⟨he, rfl, rfl⟩ := he
    simp only [Prod.mk.injEq] at hk
    obtain ⟨rfl, rfl⟩ := hk
    exact he
  · intro h
    exact ⟨⟨⟨u, s, k⟩, r⟩, List.mem_filter.2 ⟨h, by simp⟩, rfl⟩

theorem storeRows_sorted (t : VssDb) (u s : String) : (t.storeRows u s).Pairwise (fun a b => textLt a.1 b.1) := by
  unfold storeRows
  rw [List.pairwise_map]
  refine (t.sorted.filter _).imp_of_mem fun {a b} ha hb h => ?_
  simp only [List.mem_filter, Bool.and_eq_true, decide_eq_true_eq] at ha hb
  obtain ⟨⟨ua, sa, ka⟩, _⟩ := a
  obtain ⟨⟨ub, sb, kb⟩, _⟩ := b
  obtain ⟨-, rfl, rfl⟩ := ha
  obtain ⟨-, rfl, rfl⟩ := hb
  simpa [CompositeKey.lt_same_store] using h

/-- **A store's rows are determined by the rows stored under its keys.** -/
theorem storeRows_congr {t t' : VssDb} {u s : String} (h : ∀ k, t.get ⟨u, s, k⟩ = t'.get ⟨u, s, k⟩) :
    t.storeRows u s = t'.storeRows u s := by
  have nd : ∀ t : VssDb, (t.storeRows u s).Nodup := fun t =>
    (t.storeRows_sorted u s).imp fun hab e => by simp [e, textLt_irrefl] at hab
  refine List.Perm.eq_of_sorted (fun a b _ _ h1 h2 => by simp [textLt_keyOrder.asymm h1] at h2)
    (t.storeRows_sorted u s) (t'.storeRows_sorted u s) ((List.perm_ext_iff_of_nodup (nd t) (nd t')).2 ?_)
  rintro ⟨k, r⟩
  rw [mem_storeRows, mem_storeRows, h]

end VssDb

end Vss
