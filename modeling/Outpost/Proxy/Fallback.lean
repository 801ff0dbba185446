import Outpost.Cache.Population
import Outpost.Proxy.Error

/-!
# Answers from the durable cache

What a request gets while the upstream is unhealthy: lists under the durable policy are answered
from the store, deletes are forbidden, and everything else is a bad request.
-/

namespace Outpost.Proxy

open Api Cache Http Store

def fallbackKey (info : RequestInfo) : Except ProxyError Key :=
  if !info.isResourceRequest then .error (.unsupportedWhenUnhealthy info.render)
  else if info.verb = .delete ∨ info.verb = .deleteCollection then
    .error (.forbidden info.name info.apiGroup info.resource)
  else
    match Key.ofRequest? info with
    | some key =>
        if info.policy = .durable then .ok key
        else .error (.unsupportedWhenUnhealthy info.render)
    | none => .error (.unsupportedWhenUnhealthy info.render)

/-- The answer to a request without the upstream, from what the store has. -/
def fallback (store : CountedStore) (info : RequestInfo) : CountedStore × Response :=
  match fallbackKey info with
  | .error error => (store, error.response)
  | .ok key =>
      let (counted, found) := queryDurable store key
      (counted,
        match found with
        | .ok body => Response.json 200 body
        | .error error =>
            if error.isNotFound then
              (ProxyError.notFoundInCache info.apiGroup info.resource info.name).response
            else (ProxyError.cache error).response)

end Outpost.Proxy
