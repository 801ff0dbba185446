import Outpost.Proofs.Api.Filter
import Outpost.Proofs.Api.Status
import Outpost.Proofs.Coding.Outcomes
import Outpost.Proofs.Proxy.Sightings

/-!
# Framing of filtered lists

A list that is filtered gets a body that the upstream has not sent, and the headers that describe
the body follow it: its length is that of the new body, and a coding that was taken off is not
declared.  A body that cannot be filtered is refused, and the refusal is framed on its own.
-/

namespace Outpost

def Http.Reply.outcome? (reply : Http.Reply) : Option (Except Unit Bytes) :=
  Coding.outcome? (Coding.declared? reply.headers) reply.body.bytes reply.body.fate

end Outpost

namespace Outpost.Proxy

open Api Cache Coding Config Http Outpost.Stream

/-! ## Headers by name -/

theorem values_remove (headers : Headers) (name other : String) :
    (headers.remove other).values name = if name = other then [] else headers.values name := by
  by_cases same : name = other
  · subst same
    rw [if_pos rfl]
    unfold Headers.values Headers.remove
    rw [List.filter_filter]
    simp
  · rw [if_neg same]
    refine values_filter headers name _ fun field hfield => ?_
    simp [hfield, same]

theorem has_of_values {headers : Headers} {name : String} {value : Bytes} {more : List Bytes}
    (h : headers.values name = value :: more) : headers.has name = true := by
  unfold Headers.values at h
  obtain ⟨field, rest, found, -, -⟩ := List.map_eq_cons_iff.mp h
  have inside : field ∈ headers.filter fun field => field.1 == name :=
    found ▸ List.mem_cons_self
  obtain ⟨member, named⟩ := List.mem_filter.mp inside
  exact List.any_eq_true.mpr ⟨field, member, named⟩

theorem values_relay (reply : Reply) (name : String) :
    (relay reply).headers.values name =
      if isHopByHop name then [] else reply.headers.values name := by
  split
  · rename_i own
    exact values_returnedHeaders reply.headers own
  · rename_i endToEnd
    rw [Bool.not_eq_true] at endToEnd
    refine values_filter reply.headers name _ fun field same => ?_
    rw [same, endToEnd]
    rfl

theorem declared?_relay (reply : Reply) :
    declared? (relay reply).headers = declared? reply.headers := by
  unfold declared? Headers.firstText? Headers.first?
  rw [values_relay]
  rfl

/-! ## Answers -/

structure AsksToFilter (request : Request) (kind : ResourceKind) : Prop where
  plain : isUpgrade request.headers = false
  list : request.info.supportedList? = some kind
  policy : request.info.policy = .filter

/-- The head of a reply with another body: all that does not describe the body is as it was. -/
structure Reframes (reply : Reply) (body : Bytes) (head : StatusCode × Headers) : Prop where
  status : head.1 = reply.status
  length : Headers.values head.2 "content-length" = [Bytes.ofNat body.length]
  coding : Headers.values head.2 "content-encoding" =
    if (declared? reply.headers).isSome then [] else reply.headers.values "content-encoding"
  endToEnd : ∀ name, isHopByHop name = false → name ≠ "content-length" →
    name ≠ "content-encoding" → Headers.values head.2 name = reply.headers.values name
  hopByHop : ∀ name, isHopByHop name = true → Headers.values head.2 name = []

/-- What a client is told if a list could not be filtered for this reason. -/
def unfilteredStatus (request : Request) (reason : String) : Status :=
  Status.badGateway ("failed to modify response of " ++ request.info.render ++ ": " ++ reason)

/-- A refusal that tells why a list could not be filtered, and nothing else. -/
structure RefusesToFilter (request : Request) (reason : String) (body : Bytes)
    (head : StatusCode × Headers) : Prop where
  status : head.1 = 502
  headers : head.2 = [("content-type", Bytes.ofText "application/json"),
    ("content-length", Bytes.ofNat body.length)]
  written : body = (unfilteredStatus request reason).encode
  told : Status.decode? body = some (unfilteredStatus request reason)

/-- The answer to a list request, once reading the body of the reply has come to something.  A
refusal says what was wrong: the kind that the list gives itself, or what the readers say of a body
or a payload that they do not take, in their own words. -/
def AnswersList (wording : Wording) (request : Request) (kind : ResourceKind) (reply : Reply)
    (body : Bytes) (head : StatusCode × Headers) : Except Unit Bytes → Prop
  | .error _ => RefusesToFilter request (wording.unreadable (relay reply)) body head
  | .ok payload =>
      match ObjectList.decode kind payload with
      | .error (.undecodable _) =>
          RefusesToFilter request ("failed to decode " ++ kind.name ++ " list" ++
            (wording.undecodable payload).elim "" (": " ++ ·)) body head
      | .error (.unexpectedKind _ found) =>
          RefusesToFilter request ("decoded object is " ++ found ++ ", expected " ++
            kind.listKind) body head
      | .ok _ => ∃ filtered, filterList kind.name payload skipStart = .ok filtered ∧
          body = filtered.body ∧ Reframes reply body head

section Answers

variable {wording : Wording} {request : Request} {kind : ResourceKind} {reply : Reply}
  {body : Except Unit Bytes}

theorem AsksToFilter.uncached (asks : AsksToFilter request kind) :
    Key.ofRequest? request.info = none := by
  unfold Key.ofRequest?
  rw [asks.list, asks.policy]
  rfl

theorem AsksToFilter.treatment_eq (asks : AsksToFilter request kind) (tiers : Tiers)
    (headers : Headers) (status : isTreated reply.status = true) :
    treatment tiers request.info reply.status headers = .filter kind := by
  unfold treatment
  rw [asks.list, asks.policy, status]
  rfl

theorem AsksToFilter.treatedResponse_eq (asks : AsksToFilter request kind) :
    treatedResponse request.info reply = relay reply := by
  obtain ⟨-, verb, -⟩ := list_of_supportedList? asks.list
  unfold treatedResponse treatedHeaders
  simp [asks.policy, verb]

theorem values_filteredResponse (response : Response) (coded : Bool) (filtered : Filtered)
    (name : String) : (filteredResponse response coded filtered).headers.values name =
      if coded && name = "content-encoding" then []
      else if name = "content-length" then [Bytes.ofNat filtered.body.length]
      else response.headers.values name := by
  have measured : (response.headers.insert "content-length"
      (Bytes.ofNat filtered.body.length)).values name =
        if name = "content-length" then [Bytes.ofNat filtered.body.length]
        else response.headers.values name := by
    split
    · rename_i same
      rw [same, values_insert_self]
    · rename_i differs
      exact values_insert_of_ne _ _ differs
  unfold filteredResponse
  cases coded with
  | false => exact measured
  | true =>
      simp only [if_true, Bool.true_and, decide_eq_true_eq]
      rw [values_remove, measured]

theorem reframes_filteredResponse (reply : Reply) (filtered : Filtered) :
    Reframes reply filtered.body (filteredResponse (relay reply)
      (declared? (relay reply).headers).isSome filtered).head := by
  rw [declared?_relay]
  have values := values_filteredResponse (relay reply) (declared? reply.headers).isSome filtered
  have length := values "content-length"
  rw [if_neg (by simp), if_pos rfl] at length
  have head : (filteredResponse (relay reply) (declared? reply.headers).isSome filtered).head =
      (reply.status, (filteredResponse (relay reply) (declared? reply.headers).isSome
        filtered).headers) := by
    unfold Response.head Response.sentHeaders
    simp only [has_of_values length, if_true]
    rfl
  rw [head]
  refine ⟨rfl, length, ?_, fun name endToEnd other uncoded => ?_, fun name own => ?_⟩
  · rw [values, values_relay]
    simp [show isHopByHop "content-encoding" = false by decide]
  · rw [values, if_neg (by simp [uncoded]), if_neg other, values_relay, endToEnd]
    rfl
  · have other : name ≠ "content-length" ∧ name ≠ "content-encoding" := by
      constructor <;> rintro rfl <;> exact absurd own (by decide)
    rw [values, if_neg (by simp [other]), if_neg other.1, values_relay, if_pos own]

theorem refusesToFilter_response (request : Request) (reason : String) :
    RefusesToFilter request reason
      (ProxyError.modification request.info.render reason).status.encode
      (ProxyError.modification request.info.render reason).response.head :=
  ⟨rfl, rfl, rfl, (Status.wellFormed_failure _ _ _).decode?_encode⟩

theorem filterList_eq (kind : ResourceKind) (payload : Bytes) (begin : String)
    (detail : Option String) :
    filterList kind.name payload begin detail =
      match ObjectList.decode kind payload detail with
      | .error error => .error (.list error)
      | .ok list => .ok ⟨(list.retain (keeps begin)).encode,
          (list.retain (keeps begin)).items.length,
          list.items.length - (list.retain (keeps begin)).items.length⟩ := by
  have parsed : ResourceKind.parse kind.name = .ok kind := by simp [ResourceKind.parse]
  unfold filterList
  simp only [parsed, Except.mapError, bind, Except.bind]
  cases ObjectList.decode kind payload detail <;> rfl

/-- The words for a payload that is no list do not matter to one that is. -/
theorem decode_of_ok {payload : Bytes} {detail : Option String} {list : ObjectList}
    (h : ObjectList.decode kind payload detail = .ok list) :
    ObjectList.decode kind payload = .ok list := by
  unfold ObjectList.decode at h ⊢
  split at h
  · cases h
  · exact h

theorem decode_of_error {payload : Bytes} {detail : Option String} {error : ListError}
    (h : ObjectList.decode kind payload detail = .error error) :
    ObjectList.decode kind payload = .error (.undecodable ⟨kind, none⟩) ∧
        error.message = "failed to decode " ++ kind.name ++ " list" ++
          detail.elim "" (": " ++ ·) ∨
      ∃ found, ObjectList.decode kind payload = .error (.unexpectedKind kind found) ∧
        error.message = "decoded object is " ++ found ++ ", expected " ++ kind.listKind := by
  unfold ObjectList.decode at h ⊢
  split at h
  case h_1 =>
    cases h
    refine .inl ⟨rfl, ?_⟩
    cases detail <;> rfl
  case h_2 =>
    split at h
    · cases h
    split at h
    · cases h
    rename_i found _ other
    cases h
    exact .inr ⟨found, if_neg other, rfl⟩

theorem answersList_of_ok {filtered : Response}
    (h : filterResponse wording request.info kind skipStart (relay reply) body = .ok filtered) :
    ∃ bytes, filtered.payload = .whole bytes ∧
      AnswersList wording request kind reply bytes filtered.head body := by
  unfold filterResponse at h
  cases body with
  | error unread => cases h
  | ok payload =>
      simp only at h
      split at h
      · cases h
      rename_i result accepted
      cases h
      refine ⟨result.body, rfl, ?_⟩
      rw [filterList_eq] at accepted
      cases decoded : ObjectList.decode kind payload (wording.undecodable payload) with
      | error error =>
          rw [decoded] at accepted
          cases accepted
      | ok list =>
          have plain := decode_of_ok decoded
          have filters : filterList kind.name payload skipStart = .ok result := by
            rw [filterList_eq, plain, ← accepted, decoded]
          simp only [AnswersList, plain]
          exact ⟨result, filters, rfl, reframes_filteredResponse reply result⟩

theorem answersList_of_error {error : ProxyError}
    (h : filterResponse wording request.info kind skipStart (relay reply) body = .error error) :
    ∃ bytes, error.response.payload = .whole bytes ∧
      AnswersList wording request kind reply bytes error.response.head body := by
  unfold filterResponse at h
  cases body with
  | error unread =>
      cases h
      exact ⟨_, rfl, refusesToFilter_response request _⟩
  | ok payload =>
      simp only [filterList_eq] at h
      cases decoded : ObjectList.decode kind payload (wording.undecodable payload) with
      | error error =>
          simp only [decoded] at h
          cases h
          obtain ⟨bytes, whole, refuses⟩ : ∃ bytes,
              (ProxyError.ofFilter request.info.render (.list error)).response.payload =
                .whole bytes ∧
              RefusesToFilter request error.message bytes
                (ProxyError.ofFilter request.info.render (.list error)).response.head :=
            ⟨_, rfl, refusesToFilter_response request error.message⟩
          refine ⟨bytes, whole, ?_⟩
          rcases decode_of_error decoded with ⟨plain, told⟩ | ⟨found, plain, told⟩
          · rw [told] at refuses
            simpa only [AnswersList, plain] using refuses
          · rw [told] at refuses
            simpa only [AnswersList, plain] using refuses
      | ok list =>
          simp only [decoded] at h
          cases h

end Answers

end Outpost.Proxy
