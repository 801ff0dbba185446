import Outpost.Config.CommandLine

/-!
# Report on a command line

What a command line amounts to, line by line: the settings it resolves to, or why it is refused.
-/

namespace Outpost.Config

def ArgsError.message : ArgsError → String
  | .missingRequired => "a required option was not provided: --server-addr"
  | .unknownArgument => "unexpected argument"
  | .invalidValue => "an option needs a value, or has one that is not allowed"
  | .valueValidation => "an option has a value that cannot be read"
  | .tooManyValues => "a flag was given a value"
  | .argumentConflict => "an option was given more than once"
  | .displayHelp => "options: " ++ ", ".intercalate (Setting.all.map fun setting =>
      "--" ++ setting.option)
  | .displayVersion => "tether-proxy"

def ArgsError.exitCode : ArgsError → UInt32
  | .displayHelp | .displayVersion => 0
  | _ => 2

def Settings.lines (settings : Settings) : List String :=
  ["upstream: " ++ settings.upstream.display,
    "listen address: " ++ settings.listenAddress,
    "disk cache path: " ++ settings.diskCachePath,
    "handler: " ++ settings.handler.name,
    "health interval: " ++ toString settings.healthInterval ++ " ms",
    "health timeout: " ++ toString settings.healthTimeout ++ " ms",
    "tee buffer: " ++ toString settings.teeBuffer ++ " chunks",
    "populate wait: " ++ toString settings.populateWait ++ " ms"]

def report (words : List String) (environment : List (String × String)) :
    List String × UInt32 :=
  match Arguments.parse words environment with
  | .error error => ([error.message], error.exitCode)
  | .ok arguments =>
      match arguments.settings with
      | .error error => ([error.message], 1)
      | .ok settings => (settings.lines ++ ["log format: " ++ arguments.logFormat.name], 0)

end Outpost.Config
