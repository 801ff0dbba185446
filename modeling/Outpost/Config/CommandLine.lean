import Outpost.Config.Settings
import Outpost.Config.Telemetry
import Outpost.Url.Alphabets

/-!
# The command line

Long options with a value each and one flag.  An option that the command line leaves out may be
given by an environment variable; the rest have defaults, but for the server address, which has
to be given.  Faults count in the order in which they are met: those of the words, then those of
the environment, then the missing address.
-/

namespace Outpost.Config

inductive ArgsError where
  | missingRequired
  | unknownArgument
  | invalidValue
  | valueValidation
  | tooManyValues
  | argumentConflict
  | displayHelp
  | displayVersion
  deriving DecidableEq, Repr

inductive Setting where
  | serverAddr | listenAddr | diskCachePath | handler | caFile | bearerTokenFile
  | insecureSkipTlsVerify | healthIntervalSecs | healthTimeoutSecs | teeBufferChunks
  | populateWaitMs | logFormat | otlpEndpoint | otlpToken
  deriving DecidableEq, Repr

namespace Setting

/-- All settings, in the order in which the environment is looked through. -/
def all : List Setting :=
  [.serverAddr, .listenAddr, .diskCachePath, .handler, .caFile, .bearerTokenFile,
    .insecureSkipTlsVerify, .healthIntervalSecs, .healthTimeoutSecs, .teeBufferChunks,
    .populateWaitMs, .logFormat, .otlpEndpoint, .otlpToken]

def option : Setting → String
  | .serverAddr => "server-addr"
  | .listenAddr => "listen-addr"
  | .diskCachePath => "disk-cache-path"
  | .handler => "handler"
  | .caFile => "ca-file"
  | .bearerTokenFile => "bearer-token-file"
  | .insecureSkipTlsVerify => "insecure-skip-tls-verify"
  | .healthIntervalSecs => "health-interval-secs"
  | .healthTimeoutSecs => "health-timeout-secs"
  | .teeBufferChunks => "tee-buffer-chunks"
  | .populateWaitMs => "populate-wait-ms"
  | .logFormat => "log-format"
  | .otlpEndpoint => "otlp-endpoint"
  | .otlpToken => "otlp-token"

def environmentName? : Setting → Option String
  | .serverAddr => some "TETHER_SERVER_ADDR"
  | .listenAddr => some "TETHER_LISTEN_ADDR"
  | .diskCachePath => some "TETHER_DISK_CACHE_PATH"
  | .handler => some "TETHER_HANDLER"
  | .caFile => some "TETHER_CA_FILE"
  | .bearerTokenFile => some "TETHER_BEARER_TOKEN_FILE"
  | .insecureSkipTlsVerify => some "TETHER_INSECURE_SKIP_TLS_VERIFY"
  | .logFormat => some "TETHER_LOG_FORMAT"
  | .otlpEndpoint => some "TETHER_OTLP_ENDPOINT"
  | .otlpToken => some "TETHER_OTLP_TOKEN"
  | .healthIntervalSecs | .healthTimeoutSecs | .teeBufferChunks | .populateWaitMs => none

def ofOption? (name : String) : Option Setting := all.find? fun setting => setting.option == name

def isFlag (setting : Setting) : Bool := setting == .insecureSkipTlsVerify

def check (setting : Setting) (value : String) : Except ArgsError Unit :=
  match setting with
  | .diskCachePath | .caFile | .bearerTokenFile =>
      if value = "" then .error .invalidValue else .ok ()
  | .healthIntervalSecs | .healthTimeoutSecs | .teeBufferChunks | .populateWaitMs =>
      if (Bytes.word64? (Bytes.ofText value)).isSome then .ok () else .error .valueValidation
  | .logFormat =>
      match LogFormat.parse value with
      | .ok _ => .ok ()
      | .error _ => .error .valueValidation
  | .insecureSkipTlsVerify =>
      if value = "true" || value = "false" then .ok () else .error .invalidValue
  | .serverAddr | .listenAddr | .handler | .otlpEndpoint | .otlpToken => .ok ()

end Setting

/-! ## Words -/

abbrev Given := List (Setting × String)

def Given.find? (given : Given) (setting : Setting) : Option String :=
  (List.find? (fun entry => entry.1 == setting) given).map (·.2)

structure WordState where
  given : Given
  pending : Option (Setting × Option String)
  /-- A double dash was met: what follows is no option. -/
  escaped : Bool

namespace WordState

def start : WordState := ⟨[], none, false⟩

def accept (state : WordState) (setting : Setting) (value : String) :
    Except ArgsError WordState :=
  if (state.given.find? setting).isSome then .error .argumentConflict
  else do
    setting.check value
    return { state with given := state.given ++ [(setting, value)] }

def settle (state : WordState) : Except ArgsError WordState :=
  match state.pending with
  | none => .ok state
  | some (_, none) => .error .invalidValue
  | some (setting, some value) => { state with pending := none }.accept setting value

def takeLong (state : WordState) (name : String) (attached : Option String) :
    Except ArgsError WordState :=
  if name = "help" || name = "version" then
    if attached.isSome then .error .tooManyValues
    else do
      let _ ← state.settle
      .error (if name = "help" then .displayHelp else .displayVersion)
  else
    match Setting.ofOption? name with
    | none => .error .unknownArgument
    | some setting =>
        if setting.isFlag then
          if attached.isSome then .error .tooManyValues
          else do (← state.settle).accept setting "true"
        else do
          let settled ← state.settle
          match attached with
          | some value => settled.accept setting value
          | none => .ok { settled with pending := some (setting, none) }

def takeShort (state : WordState) (letter : Char) : Except ArgsError WordState := do
  if letter = 'h' then
    let _ ← state.settle
    .error .displayHelp
  else if letter = 'V' then
    let _ ← state.settle
    .error .displayVersion
  else .error .unknownArgument

/-- A word that is no option: the value of a pending option, as no other words are taken. -/
def takeValue (state : WordState) (word : String) : Except ArgsError WordState :=
  match state.pending with
  | some (setting, none) =>
      if state.escaped then .error .unknownArgument
      else .ok { state with pending := some (setting, some word) }
  | _ => .error .unknownArgument

def take (state : WordState) (word : String) : Except ArgsError WordState :=
  if state.escaped then state.takeValue word
  else
    match word.toList with
    | ['-', '-'] => .ok { state with escaped := true }
    | '-' :: '-' :: long =>
        let name := String.ofList (long.takeWhile (· ≠ '='))
        let attached := match long.dropWhile (· ≠ '=') with
          | [] => none
          | _ :: value => some (String.ofList value)
        state.takeLong name attached
    | '-' :: letter :: _ => state.takeShort letter
    | _ => state.takeValue word

end WordState

def readWords (words : List String) : Except ArgsError Given := do
  let state ← words.foldlM WordState.take WordState.start
  return (← state.settle).given

def readEnvironment (environment : List (String × String)) (given : Given) :
    Except ArgsError Given :=
  Setting.all.foldlM (fun (found : Given) setting =>
    match found.find? setting, setting.environmentName?.bind fun name =>
        (environment.find? fun entry => entry.1 == name).map (·.2) with
    | none, some value => do
        setting.check value
        return found ++ [(setting, value)]
    | _, _ => return found) given

/-! ## Arguments -/

structure Arguments where
  serverAddr : String
  listenAddr : String
  diskCachePath : String
  handler : String
  caFile : Option String
  bearerTokenFile : Option String
  insecureSkipTlsVerify : Bool
  healthIntervalSecs : Nat
  healthTimeoutSecs : Nat
  teeBufferChunks : Nat
  populateWaitMs : Nat
  logFormat : LogFormat
  otlpEndpoint : Option String
  otlpToken : Option String
  deriving DecidableEq, Repr

namespace Arguments

private def number (given : Given) (setting : Setting) (default : Nat) : Nat :=
  ((given.find? setting).bind fun value => Bytes.word64? (Bytes.ofText value)).getD default

def ofGiven (given : Given) : Except ArgsError Arguments :=
  match given.find? .serverAddr with
  | none => .error .missingRequired
  | some serverAddr =>
      .ok {
        serverAddr
        listenAddr := (given.find? .listenAddr).getD "127.0.0.1:10261"
        diskCachePath := (given.find? .diskCachePath).getD "/etc/kubernetes/cache/"
        handler := (given.find? .handler).getD "dev"
        caFile := given.find? .caFile
        bearerTokenFile := given.find? .bearerTokenFile
        insecureSkipTlsVerify := given.find? .insecureSkipTlsVerify = some "true"
        healthIntervalSecs := number given .healthIntervalSecs 10
        healthTimeoutSecs := number given .healthTimeoutSecs 3
        teeBufferChunks := number given .teeBufferChunks 16
        populateWaitMs := number given .populateWaitMs 5000
        logFormat := match LogFormat.parse ((given.find? .logFormat).getD "text") with
          | .ok format => format
          | .error _ => .text
        otlpEndpoint := given.find? .otlpEndpoint
        otlpToken := given.find? .otlpToken }

def parse (words : List String) (environment : List (String × String)) :
    Except ArgsError Arguments := do
  ofGiven (← readEnvironment environment (← readWords words))

/-- The settings of the proxy; counts and periods of nothing are raised to one. -/
def settings (arguments : Arguments) : Except ConfigError Settings := do
  let upstream ← Upstream.parse arguments.serverAddr
  let handler ← HandlerKind.parse arguments.handler
  return {
    upstream, handler
    listenAddress := arguments.listenAddr
    diskCachePath := arguments.diskCachePath
    healthInterval := 1000 * max arguments.healthIntervalSecs 1
    healthTimeout := 1000 * max arguments.healthTimeoutSecs 1
    teeBuffer := max arguments.teeBufferChunks 1
    populateWait := arguments.populateWaitMs
    wording := .terse }

def telemetry (arguments : Arguments) : Telemetry where
  serviceName := "tether-proxy"
  logFormat := arguments.logFormat
  endpoint := arguments.otlpEndpoint
  token := arguments.otlpToken

end Arguments

end Outpost.Config
