import Outpost.Config.Report

/-!
# The command line program

Resolves the command line with the environment, and prints what it amounts to.
-/

open Outpost.Config

def readVariables : IO (List (String × String)) := do
  let found ← (Setting.all.filterMap Setting.environmentName?).mapM fun name => do
    return (name, ← IO.getEnv name)
  return found.filterMap fun (name, value) => value.map fun value => (name, value)

def main (words : List String) : IO UInt32 := do
  let (lines, code) := report words (← readVariables)
  for line in lines do
    IO.println line
  return code
