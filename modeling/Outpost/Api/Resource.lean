import Outpost.Json.Record

/-!
# Resource kinds

The resources whose lists are understood: pods and config maps.
-/

namespace Outpost.Api

open Json

inductive ResourceKind where
  | pods
  | configMaps
  deriving DecidableEq, Repr, Inhabited

namespace ResourceKind

def name : ResourceKind → String
  | .pods => "pods"
  | .configMaps => "configmaps"

def listKind : ResourceKind → String
  | .pods => "PodList"
  | .configMaps => "ConfigMapList"

def ofName? (text : String) : Option ResourceKind :=
  if text = "pods" then some .pods
  else if text = "configmaps" then some .configMaps
  else none

@[simp] theorem ofName?_name (kind : ResourceKind) : ofName? kind.name = some kind := by
  cases kind <;> decide

theorem ofName?_eq_some_iff {text : String} {kind : ResourceKind} :
    ofName? text = some kind ↔ text = kind.name := by
  constructor
  · intro h
    unfold ofName? at h
    split at h
    · cases h; assumption
    · split at h
      · cases h; assumption
      · cases h
  · rintro rfl
    exact ofName?_name kind

/-- A kind in a document: its name, or an object with that name and null. -/
def decode? (bytes : Bytes) : Option ResourceKind := do
  let document ← Raw.parse? bytes
  ofName? (← Record.choice? document)

def encode (kind : ResourceKind) : Bytes := quote kind.name

end ResourceKind

structure UnsupportedResource where
  resource : String
  deriving DecidableEq, Repr

def UnsupportedResource.message (refusal : UnsupportedResource) : String :=
  "unsupported resource type: " ++ refusal.resource

def ResourceKind.parse (text : String) : Except UnsupportedResource ResourceKind :=
  match ofName? text with
  | some kind => .ok kind
  | none => .error ⟨text⟩

end Outpost.Api
