import Outpost.Proofs.Api.Status
import Outpost.Proxy.Error

/-!
# Refusals are read by clients

Whatever a refusal says, its body is a `Status` object that is read back as it was, and the head of
the response agrees with it.
-/

namespace Outpost.Proxy

open Api Cache Http Json

variable {status : Status}

/-- A response whose body is a status, with a head that says the same. -/
structure TellsStatus (response : Response) (status : Status) : Prop where
  body : ∃ body, response.payload = .whole body ∧
    Status.decode? body = some status ∧
    ∃ fields, Value.parse? body = some (.object fields) ∧
      Fields.find? fields "details" =
        status.details.map fun details => .object (StatusDetails.texts details.ordered)
  code : response.status = status.code
  contentType : response.headers = [("content-type", Bytes.ofText "application/json")]

theorem tellsStatus_json (wellFormed : status.WellFormed) :
    TellsStatus (Response.json status.code status.encode) status where
  body := ⟨_, rfl, wellFormed.decode?_encode, wellFormed.find?_details⟩
  code := rfl
  contentType := rfl

namespace ProxyError

variable (error : ProxyError)

/-- The code of the head and the code of the object are chosen alike. -/
theorem code_status : error.status.code = error.statusCode := by
  cases error <;> rfl

theorem wellFormed_status : error.status.WellFormed := by
  cases error with
  | forbidden name group kind => exact (Status.wellFormed_failure _ _ _).withDetails _
  | notFoundInCache group resource name => exact (Status.wellFormed_failure _ _ _).withDetails _
  | _ => exact Status.wellFormed_failure _ _ _

theorem response_told : TellsStatus error.response error.status := by
  rw [response, ← code_status]
  exact tellsStatus_json error.wellFormed_status

/-- A client can read why its request was refused, whatever the texts of the error are.  Of an
error of the cache nothing but its text is told, which may come from anywhere below. -/
theorem response_tellsStatus :
    (∀ error : ProxyError, TellsStatus error.response error.status) ∧
      ∀ text, TellsStatus (Response.json 500 (Status.internalError text).encode)
        (Status.internalError text) :=
  ⟨response_told, fun _ => tellsStatus_json (Status.wellFormed_failure _ _ _)⟩

end ProxyError

end Outpost.Proxy
