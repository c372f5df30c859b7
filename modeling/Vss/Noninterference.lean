import Vss.Service
/-!
# Noninterference — what one user of the server can learn

Every statement of `PostgresBackendImpl` names the user token of its request, and `handle_request` takes that token
from the authorizer alone.  So `VssService::call` is confined to the keys of the user its headers are verified as
(`call_touches`): it leaves every other user's rows as they were, and what it answers and leaves under that user's
keys depends on those keys only.

The server serves requests from many users, one transaction after another (`serve`).  Over any such sequence, two
tables that agree on one user's rows give that user the same response to every request verified as them, and end
agreeing on their rows again (`serve_noninterference`): nothing another user stores or does reaches them.
-/
namespace Vss

/-- The keys of one user, in every store. -/
def OfUser (userToken : String) (k : CompositeKey) : Prop := k.userToken = userToken

/-- The keys of the user a request's headers are verified as; none when verification fails. -/
def VerifiedKeys (authorizer : Authorizer) (request : HttpRequest) (k : CompositeKey) : Prop :=
  authorizer.verify request.headers = .ok k.userToken

/-- A request that runs as one confined to `F` is confined to `F`. -/
theorem Touches.of_eq {α : Type} {run run' : VssDb → α × VssDb} {F : CompositeKey → Prop} (h : ∀ t, run' t = run t)
    (ht : Touches run F) : Touches run' F :=
  funext h ▸ ht

/-- A request that does not look at the table is confined to any keys. -/
theorem Touches.const {α : Type} (a : α) (F : CompositeKey → Prop) : Touches (fun t => (a, t)) F :=
  Touches.of_read fun _ => rfl

/-- **`handle_request` of an operation confined to the caller's keys is confined to the verified user's keys.** -/
theorem handleRequest_touches {T R : Type} (authorizer : Authorizer) (request : HttpRequest)
    (decode : List UInt8 → Except String T) (handler : String → T → VssDb → Except VssError R × VssDb)
    (message : R → ResponseMessage) (h : ∀ userToken decoded, Touches (handler userToken decoded) (OfUser userToken)) :
    Touches (handleRequest authorizer request decode handler message) (VerifiedKeys authorizer request) := by
  unfold handleRequest
  cases hv : authorizer.verify request.headers with
  | error e => exact Touches.const _ _
  | ok userToken =>
    dsimp only
    cases request.body with
    | none => exact Touches.const _ _
    | some bytes =>
      dsimp only
      cases decode bytes with
      | error _ => exact Touches.const _ _
      | ok decoded =>
        dsimp only
        refine Touches.of_eq (fun t => ?_) (((h userToken decoded).map fun a => match a with
          | .ok response => some ⟨200, .message (message response)⟩
          | .error e => some (buildErrorResponse e)).mono fun k hk => show _ = _ by rw [hv, hk])
        obtain ⟨_ | _, _⟩ := handler userToken decoded t <;> rfl

/-- **`VssService::call` is confined to the keys of the user its headers are verified as.** -/
theorem call_touches (f : Faults) (authorizer : Authorizer) (decoder : Decoder) (request : HttpRequest) :
    Touches (call f authorizer decoder request) (VerifiedKeys authorizer request) := by
  have hg := handleRequest_touches authorizer request decoder.getObject (handleGetObjectRequest f) .getObject
    fun userToken r => (get_touches f userToken r).mono fun k hk => by rw [hk]; rfl
  have hp := handleRequest_touches authorizer request decoder.putObjects (handlePutObjectRequest f) .putObjects
    fun userToken r => (put_touches f userToken r).mono fun k hk => (writeSet_inStore k hk).1
  have hd := handleRequest_touches authorizer request decoder.deleteObject (handleDeleteObjectRequest f)
    .deleteObject fun userToken r => (delete_touches f userToken r).mono fun k hk => (deleteWrites_inStore k hk).1
  have hl := handleRequest_touches authorizer request decoder.listKeyVersions (handleListObjectRequest f)
    .listKeyVersions fun userToken r => (listKeyVersions_touches f userToken r).mono fun _ hk => hk.1
  refine ⟨fun t k hk => ?_, fun {t t'} h => ?_⟩
  · unfold call
    split
    exacts [hg.frame t k hk, hp.frame t k hk, hd.frame t k hk, hl.frame t k hk, rfl, rfl]
  · unfold call
    split
    exacts [hg.congr h, hp.congr h, hd.congr h, hl.congr h, ⟨rfl, h⟩, ⟨rfl, h⟩]

/-! ## Runs of the server -/

/-- **The server answering requests one after another**, each under failures of its own: the responses in order
and the table left.  Concurrent requests are served in the order their transactions commit. -/
def serve (authorizer : Authorizer) (decoder : Decoder) :
    List (Faults × HttpRequest) → VssDb → List (Option HttpResponse) × VssDb
  | [], t => ([], t)
  | (f, request) :: requests, t =>
    Prod.map ((call f authorizer decoder request t).1 :: ·) id
      (serve authorizer decoder requests (call f authorizer decoder request t).2)

/-- Whether a request's headers are verified as `userToken`. -/
def verifiedAs (authorizer : Authorizer) (userToken : String) (request : HttpRequest) : Bool :=
  match authorizer.verify request.headers with
  | .ok u => u == userToken
  | .error _ => false

/-- **What a user sees of a run**: the requests verified as them, each with the response it got. -/
def view (authorizer : Authorizer) (userToken : String) (requests : List (Faults × HttpRequest))
    (responses : List (Option HttpResponse)) : List (HttpRequest × Option HttpResponse) :=
  ((requests.map (·.2)).zip responses).filter fun p => verifiedAs authorizer userToken p.1

theorem view_cons (authorizer : Authorizer) (userToken : String) (f : Faults) (request : HttpRequest)
    (requests : List (Faults × HttpRequest)) (response : Option HttpResponse) (responses : List (Option HttpResponse)) :
    view authorizer userToken ((f, request) :: requests) (response :: responses) =
      if verifiedAs authorizer userToken request then (request, response) :: view authorizer userToken requests responses
      else view authorizer userToken requests responses := by
  simp only [view, List.map_cons, List.zip_cons_cons, List.filter_cons]

/-- **One request keeps two tables agreeing on a user's rows**, and answers alike on both when it is verified as
that user. -/
theorem call_agree (f : Faults) (authorizer : Authorizer) (decoder : Decoder) (request : HttpRequest)
    {userToken : String} {t₁ t₂ : VssDb} (h : AgreeOn (OfUser userToken) t₁ t₂) :
    (verifiedAs authorizer userToken request = true →
      (call f authorizer decoder request t₁).1 = (call f authorizer decoder request t₂).1) ∧
    AgreeOn (OfUser userToken) (call f authorizer decoder request t₁).2 (call f authorizer decoder request t₂).2 := by
  have ht := call_touches f authorizer decoder request
  by_cases hv : authorizer.verify request.headers = .ok userToken
  · have hk : ∀ k, VerifiedKeys authorizer request k ↔ OfUser userToken k := fun k => by
      rw [VerifiedKeys, hv, Except.ok.injEq, OfUser, eq_comm]
    have hc := ht.congr fun k hk' => h k ((hk k).1 hk')
    exact ⟨fun _ => hc.1, fun k hk' => hc.2 k ((hk k).2 hk')⟩
  · have hn : verifiedAs authorizer userToken request = false := by
      unfold verifiedAs
      split
      · next u hu => exact beq_false_of_ne fun he => hv (he ▸ hu)
      · rfl
    refine ⟨fun hs => absurd (hn ▸ hs) Bool.false_ne_true, fun k hk => ?_⟩
    have hnk : ¬ VerifiedKeys authorizer request k := fun hk' => hv (hk ▸ hk')
    rw [ht.frame t₁ k hnk, ht.frame t₂ k hnk, h k hk]

/-- **Noninterference of users**: over any sequence of requests from any users, two tables that agree on one user's
rows give that user the same responses, request by request, and end agreeing on that user's rows. -/
theorem serve_noninterference (authorizer : Authorizer) (decoder : Decoder) (userToken : String) :
    ∀ (requests : List (Faults × HttpRequest)) {t₁ t₂ : VssDb}, AgreeOn (OfUser userToken) t₁ t₂ →
      view authorizer userToken requests (serve authorizer decoder requests t₁).1 =
          view authorizer userToken requests (serve authorizer decoder requests t₂).1 ∧
        AgreeOn (OfUser userToken) (serve authorizer decoder requests t₁).2 (serve authorizer decoder requests t₂).2
  | [], _, _, h => ⟨rfl, h⟩
  | (f, request) :: requests, t₁, t₂, h => by
    obtain ⟨hr, ha⟩ := call_agree f authorizer decoder request h
    obtain ⟨ih₁, ih₂⟩ := serve_noninterference authorizer decoder userToken requests ha
    refine ⟨?_, ih₂⟩
    simp only [serve, Prod.map_fst, view_cons]
    split
    · next hs => rw [hr hs, ih₁]
    · exact ih₁

theorem serve_noninterference_other_row :
    AgreeOn (OfUser "u") VssDb.empty (put noFaults VssDb.empty "v" ⟨"s", none, [⟨"a", [1], 0⟩], []⟩).2 ∧
      view ⟨fun _ => .ok "u"⟩ "u" [(noFaults, ⟨"/vss/getObject", [], some []⟩)]
          (serve ⟨fun _ => .ok "u"⟩ ⟨fun _ => .ok ⟨"s", "a"⟩, fun _ => .error "", fun _ => .error "", fun _ => .error ""⟩
            [(noFaults, ⟨"/vss/getObject", [], some []⟩)] VssDb.empty).1 =
        view ⟨fun _ => .ok "u"⟩ "u" [(noFaults, ⟨"/vss/getObject", [], some []⟩)]
          (serve ⟨fun _ => .ok "u"⟩ ⟨fun _ => .ok ⟨"s", "a"⟩, fun _ => .error "", fun _ => .error "", fun _ => .error ""⟩
            [(noFaults, ⟨"/vss/getObject", [], some []⟩)]
            (put noFaults VssDb.empty "v" ⟨"s", none, [⟨"a", [1], 0⟩], []⟩).2).1 ∧
      AgreeOn (OfUser "u")
        (serve ⟨fun _ => .ok "u"⟩ ⟨fun _ => .ok ⟨"s", "a"⟩, fun _ => .error "", fun _ => .error "", fun _ => .error ""⟩
          [(noFaults, ⟨"/vss/getObject", [], some []⟩)] VssDb.empty).2
        (serve ⟨fun _ => .ok "u"⟩ ⟨fun _ => .ok ⟨"s", "a"⟩, fun _ => .error "", fun _ => .error "", fun _ => .error ""⟩
          [(noFaults, ⟨"/vss/getObject", [], some []⟩)]
          (put noFaults VssDb.empty "v" ⟨"s", none, [⟨"a", [1], 0⟩], []⟩).2).2 :=
  have h : AgreeOn (OfUser "u") VssDb.empty (put noFaults VssDb.empty "v" ⟨"s", none, [⟨"a", [1], 0⟩], []⟩).2 :=
    fun k hk => by
      show VssDb.empty.get k = (VssDb.empty.write ⟨"v", "s", "a"⟩ (some ⟨[1], initialRecordVersion⟩)).get k
      rw [VssDb.get_write_ne _ _ fun he => absurd (hk.symm.trans (congrArg CompositeKey.userToken he)) (by decide)]
  ⟨h, serve_noninterference _ _ "u" _ h⟩

end Vss
