import Outpost.Api.Request
import Outpost.Proofs.Text

/-!
# Names in paths

The namespace of a request is a segment of its path, or none, and no segment has a slash in it.  No
segment is empty either, so a request without a name is one without a subresource.
-/

namespace Outpost.Api

theorem slashless_of_mem_segments {path segment : String} (h : segment ∈ segments path) :
    '/' ∉ segment.toList := by
  obtain ⟨piece, inside, rfl⟩ := List.mem_map.mp (List.mem_filter.mp h).1
  rw [String.toList_ofList]
  exact Text.not_mem_of_mem_splitOn inside

theorem ne_empty_of_mem_segments {path segment : String} (h : segment ∈ segments path) :
    segment ≠ "" := of_decide_eq_true (List.mem_filter.mp h).2

theorem isWatching_iff (parameters : List (String × String)) :
    isWatching parameters = true ↔
      ("watch", "true") ∈ parameters ∨ ("watch", "1") ∈ parameters := by
  simp only [isWatching, List.any_eq_true, Bool.and_eq_true, Bool.or_eq_true, beq_iff_eq,
    Prod.exists]
  constructor
  · rintro ⟨name, value, inside, rfl, rfl | rfl⟩
    · exact .inl inside
    · exact .inr inside
  · rintro (inside | inside)
    · exact ⟨_, _, inside, rfl, .inl rfl⟩
    · exact ⟨_, _, inside, rfl, .inr rfl⟩

namespace ResourcePath

theorem splitScope_fst (parts : List String) :
    (splitScope parts).1 = "" ∨ (splitScope parts).1 ∈ parts := by
  unfold splitScope
  split
  · split <;> exact .inr (by simp)
  · exact .inr (by simp)
  · exact .inl rfl

theorem splitWatch_snd (parts : List String) : (splitWatch parts).2 <:+ parts := by
  unfold splitWatch
  split
  · exact List.suffix_cons _ _
  · exact List.suffix_rfl

section Words

variable {first : String} {rest : List String}

theorem splitWatch_other (other : first ≠ "watch") :
    splitWatch (first :: rest) = (false, first :: rest) := by
  unfold splitWatch
  split
  · exact absurd (List.cons.inj ‹_›).1 other
  · rfl

theorem splitScope_other (other : first ≠ "namespaces") :
    splitScope (first :: rest) = ("", first :: rest) := by
  unfold splitScope
  split
  · exact absurd (List.cons.inj ‹_›).1 other
  · exact absurd (List.cons.inj ‹_›).1 other
  · rfl

end Words

theorem scope_of_ofCollection? {group version : String} {collection : List String}
    {resource : ResourcePath} (h : ofCollection? group version collection = some resource) :
    resource.scope = "" ∨ resource.scope ∈ collection := by
  unfold ofCollection? at h
  split at h
  · cases h
  · cases h
    exact (splitScope_fst _).imp_right fun inside => (splitWatch_snd collection).subset inside

theorem scope_of_ofSegments? {parts : List String} {resource : ResourcePath}
    (h : ofSegments? parts = some resource) : resource.scope = "" ∨ resource.scope ∈ parts := by
  unfold ofSegments? at h
  split at h
  · refine (scope_of_ofCollection? h).imp_right fun inside => ?_
    exact List.mem_cons_of_mem _ (List.mem_cons_of_mem _ inside)
  · refine (scope_of_ofCollection? h).imp_right fun inside => ?_
    exact List.mem_cons_of_mem _ (List.mem_cons_of_mem _ (List.mem_cons_of_mem _ inside))
  · cases h

theorem splitScope_snd (parts : List String) : (splitScope parts).2 <:+ parts := by
  unfold splitScope
  split
  · split
    · exact List.suffix_rfl
    · exact (List.suffix_cons _ _).trans (List.suffix_cons _ _)
  · exact List.suffix_rfl
  · exact List.suffix_rfl

theorem subresource_of_ofCollection? {group version : String} {collection : List String}
    {resource : ResourcePath} (full : ∀ part ∈ collection, part ≠ "")
    (h : ofCollection? group version collection = some resource) (unnamed : resource.name = "") :
    resource.subresource = "" := by
  unfold ofCollection? at h
  split at h
  · cases h
  · cases h
    replace unnamed : (splitScope (splitWatch collection).2).2.getD 1 "" = "" := unnamed
    change (splitScope (splitWatch collection).2).2.getD 2 "" = ""
    have within : ∀ part ∈ (splitScope (splitWatch collection).2).2, part ≠ "" :=
      fun part inside =>
        full part ((splitWatch_snd collection).subset ((splitScope_snd _).subset inside))
    generalize (splitScope (splitWatch collection).2).2 = parts at unnamed within ⊢
    match parts with
    | [] | [_] => rfl
    | _ :: name :: _ => exact absurd unnamed (within name (by simp))

theorem subresource_of_ofSegments? {parts : List String} {resource : ResourcePath}
    (full : ∀ part ∈ parts, part ≠ "") (h : ofSegments? parts = some resource)
    (unnamed : resource.name = "") : resource.subresource = "" := by
  unfold ofSegments? at h
  split at h
  · exact subresource_of_ofCollection? (fun part inside => full part (by simp [inside])) h unnamed
  · exact subresource_of_ofCollection? (fun part inside => full part (by simp [inside])) h unnamed
  · cases h

end ResourcePath

namespace RequestInfo

theorem name_of_verbOn {method : Http.Method} {resource : ResourcePath} {watching : Bool}
    (list : verbOn method resource watching = .list) : resource.name = "" := by
  by_cases unnamed : resource.name = ""
  · exact unnamed
  · simp only [verbOn, if_neg unnamed, Verb.ofMethod] at list
    repeat' split at list
    all_goals cases list

theorem classify_of_resource {method : Http.Method} {target : Http.Target}
    {resource : ResourcePath}
    (named : ResourcePath.ofSegments? (segments target.path) = some resource) :
    classify method target =
      { method
        verb := verbOn method resource (isWatching (queryParameters (target.query.getD "")))
        isResourceRequest := true, apiGroup := resource.group, apiVersion := resource.version
        scope := resource.scope, resource := resource.resource, name := resource.name
        subresource := resource.subresource
        labelSelector := (classify method target).labelSelector
        policy := (classify method target).policy, path := (classify method target).path } := by
  unfold classify
  simp only [named]

theorem subresource_of_list {method : Http.Method} {target : Http.Target}
    (list : (classify method target).verb = .list) :
    (classify method target).subresource = "" := by
  unfold classify at list ⊢
  simp only at list ⊢
  cases named : ResourcePath.ofSegments? (segments target.path) with
  | none => rfl
  | some resource =>
      rw [named] at list
      exact ResourcePath.subresource_of_ofSegments?
        (fun part inside => ne_empty_of_mem_segments inside) named (name_of_verbOn list)

end RequestInfo

theorem policy_classify (method : Http.Method) (target : Http.Target) :
    (RequestInfo.classify method target).policy =
      Policy.ofSelector (RequestInfo.classify method target).labelSelector := by
  unfold RequestInfo.classify
  simp only
  split <;> rfl

theorem RequestInfo.slashless_scope (method : Http.Method) (target : Http.Target) :
    '/' ∉ (classify method target).scope.toList := by
  unfold classify
  simp only
  split
  · exact List.not_mem_nil
  · rename_i resource named
    rcases ResourcePath.scope_of_ofSegments? named with none | inside
    · simp only [none]
      exact List.not_mem_nil
    · exact slashless_of_mem_segments inside

end Outpost.Api
