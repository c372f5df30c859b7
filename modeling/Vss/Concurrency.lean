import Mathlib.Logic.Relation
import Vss.Runs
/-!
# Concurrency — requests whose transactions interleave

PostgreSQL runs the transactions of concurrent requests side by side, a statement of one between two of another.
Every statement of `put` and `delete` addresses one row by its primary key (`Statements`), and at `READ COMMITTED` a
statement that changes a row holds that row's lock until its transaction commits or rolls back.  A statement on a row
another transaction holds waits for it, except that an `UPDATE` or a `DELETE` whose condition does not hold of the
last committed row affects no row at once.  `PgStep` is that behaviour with each statement atomic, and lets any
statement that would affect nothing in the last committed row stop without waiting, which covers both.  A
transaction begins with the write set of a request that got past its checks, runs its statements in order, each on
its own latest write of the row or else the committed row, and commits when every one affected a row; it can roll
back at any moment (a statement that affected no row, a failing call, a deadlock).

The store keeps the log of the requests it committed, in the order of their commits.  This refines the serial model
(`concurrent_requests_serializable`): from any table, whatever the interleaving, the committed table is what running
the logged requests one after another gives, each applying its whole write set (`serialRun`).  A transaction with a
statement that affected no row has a table on that run, after some of the logged requests, where its whole write
set fails, so its `Conflict` is one the request could get running alone.  So every invariant of `Runs` holds of the
tables that concurrent requests leave.
-/
namespace Vss

/-- **A transaction in progress** for one write request: the statements it has run and those left, the rows it has
written and not committed, the latest first (each key among them locked by it until it ends), and whether one of its
statements affected no row. -/
structure Txn where
  request : WriteRequest
  done : List WriteOp
  pending : List WriteOp
  written : List (CompositeKey × Option Row)
  conflict : Bool

/-- A table with rows written over it, the latest first. -/
def VssDb.overlay (t : VssDb) (written : List (CompositeKey × Option Row)) : VssDb :=
  written.foldr (fun w t => t.write w.1 w.2) t

namespace Txn

/-- A transaction for a request, with its write set in the code's order still to run. -/
def start (q : WriteRequest) : Txn := ⟨q, [], q.writes, [], false⟩

/-- The transaction holds the lock of `k`: it has written a row there. -/
def Locks (x : Txn) (k : CompositeKey) : Prop := k ∈ x.written.map Prod.fst

/-- The transaction after its next statement `op`, given what the statement did to its row: a row written, or no
row affected. -/
def record (x : Txn) (op : WriteOp) : Option (Option Row) → Txn
  | some o => { x with done := x.done ++ [op], pending := x.pending.tail, written := (op.key, o) :: x.written }
  | none => { x with done := x.done ++ [op], pending := x.pending.tail, conflict := true }

variable (x : Txn) (op : WriteOp) (r : Option (Option Row))

@[simp] theorem record_request : (x.record op r).request = x.request := by cases r <;> rfl

@[simp] theorem record_done : (x.record op r).done = x.done ++ [op] := by cases r <;> rfl

@[simp] theorem record_pending : (x.record op r).pending = x.pending.tail := by cases r <;> rfl

@[simp] theorem record_some_written (o : Option Row) : (x.record op (some o)).written = (op.key, o) :: x.written := rfl

@[simp] theorem record_none_written : (x.record op none).written = x.written := rfl

@[simp] theorem record_some_conflict (o : Option Row) : (x.record op (some o)).conflict = x.conflict := rfl

end Txn

/-- **The backing store serving concurrent requests**: the committed table, the open transaction of each connection,
and the requests committed so far, the first first. -/
structure Pg where
  committed : VssDb
  txns : Nat → Option Txn
  log : List WriteRequest

namespace Pg

/-- No transaction open, nothing committed yet. -/
def idle (t : VssDb) : Pg := ⟨t, fun _ => none, []⟩

/-- A transaction other than connection `i`'s holds the lock of `k`. -/
def LockedByOther (s : Pg) (i : Nat) (k : CompositeKey) : Prop :=
  ∃ j y, j ≠ i ∧ s.txns j = some y ∧ y.Locks k

/-- Connection `i`'s transaction set to `x`. -/
def set (s : Pg) (i : Nat) (x : Option Txn) : Pg := ⟨s.committed, Function.update s.txns i x, s.log⟩

end Pg

/-- Whether a request gets as far as a transaction: a put within `MAX_PUT_REQUEST_ITEM_COUNT` items, a delete with a
`key_value`. -/
def WriteRequest.OpensTransaction : WriteRequest → Prop
  | .put _ request => request.transactionItems.length + request.deleteItems.length ≤ maxPutRequestItemCount
  | .delete _ request => request.keyValue.isSome = true

/-- **One step of the backing store** serving requests in `allowed`. -/
inductive PgStep (allowed : WriteRequest → Prop) : Pg → Pg → Prop
  /-- A request past its checks opens a transaction on a connection that has none. -/
  | begin {s : Pg} {i : Nat} (q : WriteRequest) : s.txns i = none → allowed q → q.OpensTransaction →
      PgStep allowed s (s.set i (some (.start q)))
  /-- The next statement, on a row no other transaction holds: it reads the transaction's own latest write there,
  or the committed row, and writes the row or affects none. -/
  | run {s : Pg} {i : Nat} {x : Txn} {op : WriteOp} : s.txns i = some x → x.pending.head? = some op →
      ¬ s.LockedByOther i op.key →
      PgStep allowed s (s.set i (some (x.record op (op.effect ((s.committed.overlay x.written).get op.key)))))
  /-- The next statement, on a row another transaction holds, when it would affect nothing in the committed row: it
  affects no row without waiting. -/
  | skip {s : Pg} {i : Nat} {x : Txn} {op : WriteOp} : s.txns i = some x → x.pending.head? = some op →
      s.LockedByOther i op.key → op.effect (s.committed.get op.key) = none →
      PgStep allowed s (s.set i (some (x.record op none)))
  /-- A transaction whose statements all ran, each affecting a row, commits its writes, and its request joins the
  log. -/
  | commit {s : Pg} {i : Nat} {x : Txn} : s.txns i = some x → x.pending = [] → x.conflict = false →
      PgStep allowed s ⟨s.committed.overlay x.written, Function.update s.txns i none, s.log ++ [x.request]⟩
  /-- A transaction rolls back: its writes are dropped and its locks released. -/
  | rollback {s : Pg} {i : Nat} {x : Txn} : s.txns i = some x → PgStep allowed s (s.set i none)

/-! ## Writes over a table -/

namespace VssDb

variable {t t' : VssDb} {w w' : List (CompositeKey × Option Row)} {k : CompositeKey}

@[simp] theorem overlay_nil (t : VssDb) : t.overlay [] = t := rfl

@[simp] theorem overlay_cons (t : VssDb) (k : CompositeKey) (o : Option Row) (w : List (CompositeKey × Option Row)) :
    t.overlay ((k, o) :: w) = (t.overlay w).write k o := rfl

theorem get_overlay_of_not_mem (hk : k ∉ w.map Prod.fst) : (t.overlay w).get k = t.get k := by
  induction w with
  | nil => rfl
  | cons e w ih =>
    obtain ⟨k', o⟩ := e
    rw [List.map_cons, List.mem_cons, not_or] at hk
    rw [overlay_cons, get_write_ne _ _ hk.1]
    exact ih hk.2

/-- What the writes leave under a key depends on the row below only there. -/
theorem get_overlay_congr (h : t.get k = t'.get k) : (t.overlay w).get k = (t'.overlay w).get k := by
  induction w with
  | nil => exact h
  | cons e w ih =>
    obtain ⟨k', o⟩ := e
    rw [overlay_cons, overlay_cons, get_write, get_write]
    split_ifs
    · rfl
    · exact ih

/-- Writes under disjoint keys commute. -/
theorem overlay_comm (hd : ∀ k ∈ w.map Prod.fst, k ∉ w'.map Prod.fst) :
    (t.overlay w).overlay w' = (t.overlay w').overlay w :=
  ext fun k => by
    by_cases hk : k ∈ w'.map Prod.fst
    · have hk' : k ∉ w.map Prod.fst := fun h => hd k h hk
      rw [get_overlay_of_not_mem hk']
      exact get_overlay_congr (get_overlay_of_not_mem hk')
    · rw [get_overlay_of_not_mem hk]
      exact get_overlay_congr (get_overlay_of_not_mem hk).symm

end VssDb

/-- An operation on another key runs alike before or after a write. -/
theorem WriteOp.apply_write_ne {op : WriteOp} {k : CompositeKey} (hk : op.key ≠ k) (o : Option Row) (t : VssDb) :
    op.apply (t.write k o) = (op.apply t).map (·.write k o) := by
  unfold WriteOp.apply VssDb.update
  rw [VssDb.get_write_ne _ _ hk]
  cases op.effect (t.get op.key) with
  | none => rfl
  | some o' => exact congrArg some (VssDb.write_comm t (Ne.symm hk) o o')

theorem applyAll_write_ne {k : CompositeKey} {o : Option Row} : ∀ {ops : List WriteOp}, (∀ op ∈ ops, op.key ≠ k) →
    ∀ t, applyAll ops (t.write k o) = (applyAll ops t).map (·.write k o)
  | [], _, _ => rfl
  | op :: ops, hk, t => by
    simp only [applyAll, WriteOp.apply_write_ne (hk op (List.mem_cons_self _ _))]
    cases op.apply t with
    | none => rfl
    | some t₁ => exact applyAll_write_ne (fun o ho => hk o (List.mem_cons_of_mem _ ho)) t₁

/-- **Operations on keys nobody else wrote run alike under the writes.** -/
theorem applyAll_overlay {ops : List WriteOp} {w : List (CompositeKey × Option Row)}
    (hk : ∀ op ∈ ops, op.key ∉ w.map Prod.fst) (t : VssDb) :
    applyAll ops (t.overlay w) = (applyAll ops t).map (·.overlay w) := by
  induction w with
  | nil => rw [VssDb.overlay_nil]; cases applyAll ops t <;> rfl
  | cons e w ih =>
    have hk' : ∀ op ∈ ops, op.key ∉ w.map Prod.fst := fun op hop h => hk op hop (List.mem_cons_of_mem _ h)
    rw [VssDb.overlay, List.foldr_cons, applyAll_write_ne (fun op hop h => hk op hop (h ▸ List.mem_cons_self _ _)),
      ← VssDb.overlay, ih hk', Option.map_map]
    rfl

/-- A request that opens a transaction and whose write set runs to the end commits it when the backing store
answers. -/
theorem WriteRequest.exec_noFaults_of_applyAll : ∀ {q : WriteRequest}, q.OpensTransaction → ∀ {t t' : VssDb},
    applyAll q.writes t = some t' → (q.exec noFaults t).2 = t'
  | .put userToken request, hq, t, t', h => by
    show (Vss.put noFaults t userToken request).2 = t'
    rw [WriteRequest.writes] at h
    rw [put_noFaults, putSequential, if_neg (not_lt.2 hq), h]
  | .delete userToken ⟨storeId, some kv⟩, _, t, t', h => by
    show (Vss.delete noFaults t userToken ⟨storeId, some kv⟩).2 = t'
    simp only [WriteRequest.writes, deleteWrites, Option.toList_some, List.map_cons, List.map_nil, applyAll,
      Option.bind_eq_some, Option.some.injEq] at h
    obtain ⟨t₁, h₁, rfl⟩ := h
    rw [delete_eq_deleteUnder]
    simp only [deleteUnder, h₁]
    rfl

/-! ## Serial runs -/

/-- **A serial run of requests**: each request's whole write set applied in turn from `t`, `none` when one of them
fails. -/
def serialRun : List WriteRequest → VssDb → Option VssDb
  | [], t => some t
  | q :: log, t => (applyAll q.writes t).bind (serialRun log)

theorem serialRun_append (q : WriteRequest) : ∀ (log : List WriteRequest) (t : VssDb),
    serialRun (log ++ [q]) t = (serialRun log t).bind (applyAll q.writes)
  | [], t => by cases h : applyAll q.writes t <;> simp [serialRun, h]
  | q' :: log, t => by
    rw [List.cons_append, serialRun, serialRun]
    cases applyAll q'.writes t with
    | none => rfl
    | some t₁ => exact serialRun_append q log t₁

/-- **A serial run of requests that open transactions is a run of the requests**, each answered by a healthy backing
store. -/
theorem serialRun_reaches {allowed : WriteRequest → Prop} :
    ∀ {log : List WriteRequest} {t₀ t : VssDb}, (∀ q ∈ log, allowed q ∧ q.OpensTransaction) →
      serialRun log t₀ = some t → Reaches allowed t₀ t
  | [], _, _, _, h => Option.some.inj h ▸ .refl
  | q :: log, t₀, t, hq, h => by
    obtain ⟨t₁, h₁, h₂⟩ := Option.bind_eq_some.1 h
    have hq₀ := hq q (List.mem_cons_self _ _)
    have hr : Reaches allowed t₀ t₁ := WriteRequest.exec_noFaults_of_applyAll hq₀.2 h₁ ▸ .step noFaults q .refl hq₀.1
    exact hr.trans (serialRun_reaches (fun q' h' => hq q' (List.mem_cons_of_mem _ h')) h₂)

/-! ## The invariant -/

/-- **What holds of one open transaction**, `t₀` being the table the run began from, `log` the requests committed
and `c` the committed table: it runs the write set of an allowed request that opens a transaction; while every
statement has affected a row, its statements run at once on the committed table give the table it sees, and it
holds the lock of every row they address; once one has affected no row, its whole write set fails on the table
some first requests of the log leave. -/
structure TxnInv (allowed : WriteRequest → Prop) (t₀ : VssDb) (log : List WriteRequest) (c : VssDb) (x : Txn) :
    Prop where
  admitted : allowed x.request
  opens : x.request.OpensTransaction
  statements : x.done ++ x.pending = x.request.writes
  replay : x.conflict = false → applyAll x.done c = some (c.overlay x.written)
  locks : x.conflict = false → ∀ op ∈ x.done, x.Locks op.key
  justified : x.conflict = true →
    ∃ n ≤ log.length, ∃ t, serialRun (log.take n) t₀ = some t ∧ applyAll x.request.writes t = none

/-- **The invariant of the concurrent store**: the committed table is the serial run of the log from `t₀`, every
logged request is an allowed one that opens a transaction, no two open transactions hold the lock of one row, and
every open transaction keeps `TxnInv`. -/
structure Pg.Inv (allowed : WriteRequest → Prop) (t₀ : VssDb) (s : Pg) : Prop where
  serial : serialRun s.log t₀ = some s.committed
  logged : ∀ q ∈ s.log, allowed q ∧ q.OpensTransaction
  exclusive : ∀ {i j : Nat} {x y : Txn} {k : CompositeKey}, i ≠ j → s.txns i = some x → s.txns j = some y →
    x.Locks k → ¬ y.Locks k
  txn : ∀ {i : Nat} {x : Txn}, s.txns i = some x → TxnInv allowed t₀ s.log s.committed x

section Inv

variable {allowed : WriteRequest → Prop} {t₀ c : VssDb} {log : List WriteRequest} {x : Txn}

theorem TxnInv.start {q : WriteRequest} (hq : allowed q) (ho : q.OpensTransaction) :
    TxnInv allowed t₀ log c (.start q) where
  admitted := hq
  opens := ho
  statements := List.nil_append _
  replay _ := rfl
  locks _ _ h := nomatch h
  justified h := nomatch h

/-- **One statement keeps a transaction's invariant**: what it writes extends the replay, and the first that affects
no row makes the whole write set fail on the committed table. -/
theorem TxnInv.record (hx : TxnInv allowed t₀ log c x) (hs : serialRun log t₀ = some c) {op : WriteOp}
    (hop : x.pending.head? = some op) :
    TxnInv allowed t₀ log c (x.record op (op.effect ((c.overlay x.written).get op.key))) := by
  obtain ⟨rest, hp⟩ := List.head?_eq_some_iff.1 hop
  have hst : x.done ++ [op] ++ rest = x.request.writes := by rw [← hx.statements, hp, List.append_assoc]; rfl
  have hstatements (r : Option (Option Row)) : (x.record op r).done ++ (x.record op r).pending = x.request.writes := by
    rw [Txn.record_done, Txn.record_pending, hp, List.tail_cons, hst]
  have happly : op.apply (c.overlay x.written) = (op.effect ((c.overlay x.written).get op.key)).map
      ((c.overlay x.written).write op.key) := rfl
  cases he : op.effect ((c.overlay x.written).get op.key) with
  | some o =>
    refine ⟨hx.admitted, hx.opens, hstatements _, fun hc => ?_, fun hc op' hop' => ?_, fun hc => hx.justified hc⟩
    · rw [Txn.record_done, applyAll_append, hx.replay hc, Option.some_bind]
      simp only [applyAll, happly, he, Option.map_some', Option.some_bind]
      rfl
    · rcases List.mem_append.1 (Txn.record_done x op _ ▸ hop') with h | h
      · exact List.mem_cons_of_mem _ (hx.locks hc op' h)
      · rw [List.mem_singleton.1 h]
        exact List.mem_cons_self _ _
  | none =>
    refine ⟨hx.admitted, hx.opens, hstatements _, nofun, nofun, fun _ => ?_⟩
    cases hc : x.conflict
    · refine ⟨log.length, le_rfl, c, by rwa [List.take_length], ?_⟩
      rw [Txn.record_request, ← hst, List.append_assoc, applyAll_append, hx.replay hc, Option.some_bind,
        List.singleton_append]
      simp only [applyAll, happly, he, Option.map_none', Option.none_bind]
    · exact hx.justified hc

/-- **A commit of writes under other keys keeps a transaction's invariant.** -/
theorem TxnInv.overlay (hx : TxnInv allowed t₀ log c x) {w : List (CompositeKey × Option Row)}
    (hd : ∀ k, x.Locks k → k ∉ w.map Prod.fst) (q : WriteRequest) :
    TxnInv allowed t₀ (log ++ [q]) (c.overlay w) x where
  admitted := hx.admitted
  opens := hx.opens
  statements := hx.statements
  replay hc := by
    rw [applyAll_overlay (fun op hop => hd _ (hx.locks hc op hop)), hx.replay hc, Option.map_some',
      VssDb.overlay_comm hd]
  locks := hx.locks
  justified hc := by
    obtain ⟨n, hn, t, ht, ha⟩ := hx.justified hc
    exact ⟨n, hn.trans (by simp), t, by rwa [List.take_append_of_le_length hn], ha⟩

end Inv

namespace Pg

variable {allowed : WriteRequest → Prop} {t₀ : VssDb} {s s' : Pg}

@[simp] theorem set_committed (s : Pg) (i : Nat) (x : Option Txn) : (s.set i x).committed = s.committed := rfl

theorem set_txns (s : Pg) (i : Nat) (x : Option Txn) (j : Nat) :
    (s.set i x).txns j = if j = i then x else s.txns j :=
  Function.update_apply _ _ _ _

@[simp] theorem set_log (s : Pg) (i : Nat) (x : Option Txn) : (s.set i x).log = s.log := rfl

theorem inv_idle (t₀ : VssDb) : (idle t₀).Inv allowed t₀ where
  serial := rfl
  logged _ h := nomatch h
  exclusive _ h := nomatch h
  txn h := nomatch h

/-- Connection `i`'s transaction replaced by one that keeps `TxnInv` and holds only locks `i` held or no other
transaction holds. -/
theorem Inv.set (h : s.Inv allowed t₀) {i : Nat} {x' : Option Txn}
    (hx : ∀ x, x' = some x → TxnInv allowed t₀ s.log s.committed x)
    (hl : ∀ x k, x' = some x → x.Locks k → ∀ j y, j ≠ i → s.txns j = some y → ¬ y.Locks k) :
    (s.set i x').Inv allowed t₀ where
  serial := h.serial
  logged := h.logged
  exclusive {a b x y k} hab ha hb hk := by
    rw [set_txns] at ha hb
    split_ifs at ha hb with h₁ h₂ h₂
    · exact absurd (h₁.trans h₂.symm) hab
    · exact hl x k ha hk b y (fun e => h₂ e) hb
    · exact fun hy => hl y k hb hy a x h₁ ha hk
    · exact h.exclusive hab ha hb hk
  txn {j x} hj := by
    rw [set_txns] at hj
    split_ifs at hj
    · exact hx x hj
    · exact h.txn hj

/-- **Every step keeps the invariant.** -/
theorem Inv.step (h : s.Inv allowed t₀) (hs : PgStep allowed s s') : s'.Inv allowed t₀ := by
  cases hs with
  | begin q _ hq ho =>
    exact h.set (fun x hx => Option.some.inj hx ▸ TxnInv.start hq ho) fun x k hx hk => by
      cases hx
      exact (List.not_mem_nil k hk).elim
  | @run i x op hi hop hfree =>
    refine h.set (fun _ hx => Option.some.inj hx ▸ (h.txn hi).record h.serial hop) fun x' k hx hk j y hj hy hyk => ?_
    cases hx
    cases he : op.effect ((s.committed.overlay x.written).get op.key) with
    | none => rw [he] at hk; exact h.exclusive hj hy hi hyk hk
    | some o =>
      rw [he] at hk
      rcases List.mem_cons.1 hk with rfl | hk
      · exact hfree ⟨j, y, hj, hy, hyk⟩
      · exact h.exclusive hj hy hi hyk hk
  | @skip i x op hi hop hlocked hnone =>
    have hfree : ¬ x.Locks op.key := by
      obtain ⟨j, y, hj, hy, hyk⟩ := hlocked
      exact h.exclusive hj hy hi hyk
    have he : op.effect ((s.committed.overlay x.written).get op.key) = none := by
      rw [VssDb.get_overlay_of_not_mem hfree, hnone]
    refine h.set (fun _ hx => Option.some.inj hx ▸ he ▸ (h.txn hi).record h.serial hop) fun x' k hx hk j y hj hy => ?_
    cases hx
    exact fun hyk => h.exclusive hj hy hi hyk hk
  | @commit i x hi hp hc =>
    have hx := h.txn hi
    have ha : applyAll x.request.writes s.committed = some (s.committed.overlay x.written) := by
      rw [← hx.statements, hp, List.append_nil, hx.replay hc]
    refine ⟨by rw [serialRun_append, h.serial, Option.some_bind, ha], fun q hq => ?_,
      fun {a b y z k} hab ha hb => ?_, fun {j y} hj => ?_⟩
    · rcases List.mem_append.1 hq with hq | hq
      · exact h.logged q hq
      · rw [List.mem_singleton.1 hq]
        exact ⟨hx.admitted, hx.opens⟩
    · dsimp only at ha hb
      rw [Function.update_apply] at ha hb
      split_ifs at ha hb
      exact h.exclusive hab ha hb
    · dsimp only at hj ⊢
      rw [Function.update_apply] at hj
      split_ifs at hj with hji
      exact (h.txn hj).overlay (fun k hk hk' => h.exclusive hji hj hi hk hk') x.request
  | rollback hi => exact h.set (fun _ hx => nomatch hx) fun _ _ hx => nomatch hx

end Pg

/-- **Concurrent requests are serializable.**  From any table, whatever the interleaving of the statements of
concurrent requests, each under the row locks of PostgreSQL, the committed table is what running the committed
requests one after another, in the order of their commits, gives, each applying its whole write set; every one of
them is allowed, so the table is on a run of `Runs`.  An open transaction whose statements have all affected a row
sees what running them at once on the committed table gives; and one with a statement that affected no row has a
table on that serial run, after some first committed requests, where its whole write set fails. -/
theorem concurrent_requests_serializable {allowed : WriteRequest → Prop} {t₀ : VssDb} {s : Pg}
    (h : Relation.ReflTransGen (PgStep allowed) (Pg.idle t₀) s) :
    serialRun s.log t₀ = some s.committed ∧ (∀ q ∈ s.log, allowed q) ∧ Reaches allowed t₀ s.committed ∧
      ∀ i x, s.txns i = some x →
        (x.conflict = false → applyAll x.done s.committed = some (s.committed.overlay x.written)) ∧
        (x.conflict = true → ∃ n ≤ s.log.length, ∃ t,
          serialRun (s.log.take n) t₀ = some t ∧ applyAll x.request.writes t = none) := by
  have hinv : s.Inv allowed t₀ := by
    induction h with
    | refl => exact Pg.inv_idle t₀
    | tail _ hs ih => exact ih.step hs
  exact ⟨hinv.serial, fun q hq => (hinv.logged q hq).1, serialRun_reaches hinv.logged hinv.serial,
    fun i x hx => ⟨(hinv.txn hx).replay, (hinv.txn hx).justified⟩⟩

/-- Two inserts of one key race: the first commits and is the log, and the second, run after it, affects no row. -/
theorem concurrent_inserts_one_conflicts :
    ∃ s, Relation.ReflTransGen (PgStep fun _ => True) (Pg.idle VssDb.empty) s ∧
      s.log = [.put "u" ⟨"s", none, [⟨"a", [1], 0⟩], []⟩] ∧ (s.txns 1).map Txn.conflict = some true ∧
      serialRun s.log VssDb.empty = some s.committed ∧ (∀ q ∈ s.log, True) ∧
      Reaches (fun _ => True) VssDb.empty s.committed ∧
      ∀ i x, s.txns i = some x →
        (x.conflict = false → applyAll x.done s.committed = some (s.committed.overlay x.written)) ∧
        (x.conflict = true → ∃ n ≤ s.log.length, ∃ t,
          serialRun (s.log.take n) VssDb.empty = some t ∧ applyAll x.request.writes t = none) := by
  have r₁ := Relation.ReflTransGen.single (@PgStep.begin (fun _ => True) (Pg.idle VssDb.empty) 0
    (.put "u" ⟨"s", none, [⟨"a", [1], 0⟩], []⟩) rfl trivial (Nat.le_of_ble_eq_true rfl))
  have r₂ := r₁.tail (PgStep.begin (i := 1) (.put "u" ⟨"s", none, [⟨"a", [2], 0⟩], []⟩) rfl trivial
    (Nat.le_of_ble_eq_true rfl))
  have r₃ := r₂.tail (PgStep.run (i := 0) rfl rfl fun ⟨j, y, hj, hy, hk⟩ => by
    simp only [Pg.set, Pg.idle, Function.update_apply] at hy
    split_ifs at hy
    cases hy
    exact List.not_mem_nil _ hk)
  have r₄ := r₃.tail (PgStep.commit (i := 0) rfl rfl rfl)
  have r₅ := r₄.tail (PgStep.run (i := 1) rfl rfl fun ⟨j, y, hj, hy, hk⟩ => by
    simp only [Pg.set, Pg.idle, Function.update_apply] at hy
    split_ifs at hy)
  exact ⟨_, r₅, rfl, rfl, concurrent_requests_serializable r₅⟩

end Vss
