import Outpost.Api.Filter
import Outpost.Api.Status
import Outpost.Cache.Error
import Outpost.Http.Message

/-!
# Refusals

Why a request cannot be served.  Every cause has a message, a status code and a `Status` object,
which is what the client gets.
-/

namespace Outpost.Proxy

open Api Cache Http

inductive ProxyError where
  | transport (failure : TransportFailure)
  | modification (request reason : String)
  | unsupportedWhenUnhealthy (request : String)
  | forbidden (name group kind : String)
  | notFoundInCache (group resource name : String)
  | invalidRequest (reason : String)
  | cache (error : CacheError)
  deriving DecidableEq, Repr

namespace ProxyError

def message : ProxyError → String
  | .transport failure => "upstream request failed (" ++ failure.kind ++ "): " ++ failure.message
  | .modification request reason => "failed to modify response of " ++ request ++ ": " ++ reason
  | .unsupportedWhenUnhealthy request =>
      "request(" ++ request ++ ") is not supported when cluster is unhealthy"
  | .forbidden _ _ _ => "delete request is not supported in local cache"
  | .notFoundInCache _ resource _ => resource ++ " not found in local cache"
  | .invalidRequest reason => "invalid request: " ++ reason
  | .cache error => error.message

def ofFilter (request : String) (error : FilterError) : ProxyError :=
  .modification request error.message

def statusCode : ProxyError → StatusCode
  | .transport _ | .modification _ _ => 502
  | .unsupportedWhenUnhealthy _ | .invalidRequest _ => 400
  | .forbidden _ _ _ => 403
  | .notFoundInCache _ _ _ => 404
  | .cache _ => 500

def status (error : ProxyError) : Status :=
  match error with
  | .transport _ | .modification _ _ => Status.badGateway error.message
  | .unsupportedWhenUnhealthy _ | .invalidRequest _ => Status.badRequest error.message
  | .forbidden name group kind => (Status.forbidden error.message).withDetails ⟨name, group, kind⟩
  | .notFoundInCache group resource name => Status.notFound group resource name
  | .cache cause => Status.internalError cause.message

def response (error : ProxyError) : Response := Response.json error.statusCode error.status.encode

end ProxyError

end Outpost.Proxy
