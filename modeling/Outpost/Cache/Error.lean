import Outpost.Api.ObjectList
import Outpost.Store.Key

/-!
# Cache errors
-/

namespace Outpost.Cache

open Api Store

inductive CacheError where
  | unsupported (refusal : UnsupportedResource)
  | list (error : ListError)
  | read (reason : String)
  | store (error : StoreError)
  deriving DecidableEq, Repr

namespace CacheError

def message : CacheError → String
  | .unsupported refusal => refusal.message
  | .list error => error.message
  | .read reason => "failed to read response body: " ++ reason
  | .store error => error.message

def isNotFound : CacheError → Bool
  | .store error => error.isNotFound
  | _ => false

end CacheError

end Outpost.Cache
