import Outpost.Proxy.Treatment

/-!
# Replies under treatment

The headers that describe the body of a reply are there in the response to the client as well, and
a reply is cached only for a request that asks for it.
-/

namespace Outpost.Proxy

open Api Cache Coding Http Outpost.Stream

theorem values_filter (headers : Headers) (name : String) (keeps : String × Bytes → Bool)
    (h : ∀ field : String × Bytes, field.1 = name → keeps field = true) :
    Headers.values (headers.filter keeps) name = headers.values name := by
  unfold Headers.values
  rw [List.filter_filter]
  congr 1
  refine List.filter_congr fun field _ => ?_
  by_cases same : field.1 = name
  · simp [same, h field same]
  · simp [same]

theorem values_insert_of_ne (headers : Headers) {name other : String} (value : Bytes)
    (differs : name ≠ other) : (headers.insert other value).values name = headers.values name := by
  have removed := values_filter headers name (fun field => field.1 ≠ other) fun field same => by
    simp [same, differs]
  have appended : headers.insert other value = headers.remove other ++ [(other, value)] := rfl
  rw [appended, ← removed]
  unfold Headers.values
  rw [List.filter_append, List.map_append]
  simp [Headers.remove, Ne.symm differs]

theorem values_insert_self (headers : Headers) (name : String) (value : Bytes) :
    (headers.insert name value).values name = [value] := by
  have appended : headers.insert name value = headers.remove name ++ [(name, value)] := rfl
  rw [appended]
  unfold Headers.values Headers.remove
  rw [List.filter_append, List.filter_filter]
  simp

theorem values_returnedHeaders (headers : Headers) {name : String} (own : isHopByHop name = true) :
    Headers.values (returnedHeaders headers) name = [] := by
  unfold Headers.values returnedHeaders
  rw [List.filter_filter, List.map_eq_nil_iff, List.filter_eq_nil_iff]
  intro field _
  by_cases same : field.1 = name <;> simp [same, own]

theorem values_treatedResponse (info : RequestInfo) (reply : Reply) {name : String}
    (endToEnd : isHopByHop name = false) (other : name ≠ "transfer-encoding") :
    (treatedResponse info reply).headers.values name = reply.headers.values name := by
  have returned : (relay reply).headers.values name = reply.headers.values name := by
    refine values_filter reply.headers name _ fun field same => ?_
    rw [same, endToEnd]
    rfl
  unfold treatedResponse
  simp only
  split
  · exact returned
  · unfold treatedHeaders
    split
    · exact (values_insert_of_ne _ _ other).trans returned
    · exact returned

theorem firstText?_treatedResponse (info : RequestInfo) (reply : Reply) {name : String}
    (endToEnd : isHopByHop name = false) (other : name ≠ "transfer-encoding") :
    (treatedResponse info reply).headers.firstText? name = reply.headers.firstText? name := by
  unfold Headers.firstText? Headers.first?
  rw [values_treatedResponse info reply endToEnd other]

theorem declaredLength?_treatedResponse (info : RequestInfo) (reply : Reply) :
    declaredLength? (treatedResponse info reply).headers = declaredLength? reply.headers := by
  unfold declaredLength?
  rw [firstText?_treatedResponse info reply (by decide) (by decide)]

theorem declared?_treatedResponse (info : RequestInfo) (reply : Reply) :
    declared? (treatedResponse info reply).headers = declared? reply.headers := by
  unfold declared?
  rw [firstText?_treatedResponse info reply (by decide) (by decide)]

/-! ## What treatments are for -/

theorem treatment_ne_filter {tiers : Tiers} {info : RequestInfo} {status : StatusCode}
    {headers : Headers} {kind : ResourceKind} (volatile : info.policy = .volatile) :
    treatment tiers info status headers ≠ .filter kind := by
  unfold treatment
  rw [volatile]
  repeat' split
  all_goals simp_all

theorem key_of_treatment {tiers : Tiers} {info : RequestInfo} {status : StatusCode}
    {headers : Headers} {key : Key} (h : treatment tiers info status headers = .cache key) :
    Key.ofRequest? info = some key := by
  unfold treatment at h
  repeat' split at h
  all_goals simp_all

theorem isTreated_of_treatment {tiers : Tiers} {info : RequestInfo} {status : StatusCode}
    {headers : Headers} {key : Key} (h : treatment tiers info status headers = .cache key) :
    isTreated status = true := by
  unfold treatment at h
  split at h
  · cases h
  · rename_i treated
    simp_all

end Outpost.Proxy
