import Outpost.Config.Upstream
import Outpost.Http.Message

/-!
# Proxy settings

What a running proxy is configured with; durations are in milliseconds.
-/

namespace Outpost.Config

open Http

inductive HandlerKind where
  | dev
  | sample
  deriving DecidableEq, Repr, Inhabited

namespace HandlerKind

def name : HandlerKind → String
  | .dev => "dev"
  | .sample => "sample"

def parse (name : String) : Except ConfigError HandlerKind :=
  if name = "dev" then .ok .dev
  else if name = "sample" then .ok .sample
  else .error (.unknownHandler name)

end HandlerKind

/-- What the readers of bodies say of those they do not take: of a response whose body breaks off or
is not in its coding, and of a payload that is no list, where they do.  They may quote from both. -/
structure Wording where
  unreadable : Response → String
  undecodable : Bytes → Option String
  deriving Inhabited

/-- Words that give nothing away. -/
def Wording.terse : Wording := ⟨fun _ => "<read error>", fun _ => none⟩

structure Settings where
  upstream : Upstream
  listenAddress : String
  diskCachePath : String
  handler : HandlerKind
  healthInterval : Nat
  healthTimeout : Nat
  /-- Chunks that a response may run ahead of the task that caches it. -/
  teeBuffer : Nat
  /-- How long a request waits for another one that populates the same entry. -/
  populateWait : Nat
  /-- Not configured, but given with the readers that the proxy is built with. -/
  wording : Wording
  deriving Inhabited

def Settings.default (upstream : Upstream) : Settings where
  upstream := upstream
  listenAddress := "127.0.0.1:10261"
  diskCachePath := "/etc/kubernetes/cache/"
  handler := .dev
  healthInterval := 10000
  healthTimeout := 3000
  teeBuffer := 16
  populateWait := 5000
  wording := .terse

end Outpost.Config
