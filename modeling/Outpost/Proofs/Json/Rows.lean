/-!
# Rows that are read part by part

A row is read if each of its parts is, and what is read for it stands in the order of the parts.
-/

namespace Outpost.Json.Rows

variable {α β γ : Type} {read : α → Option β} {parts : List α} {results : List β}

theorem mapM_cons_eq_some {part : α} {result : β} :
    (part :: parts).mapM read = some (result :: results) ↔
      read part = some result ∧ parts.mapM read = some results := by
  rw [List.mapM_cons]
  cases read part <;> cases parts.mapM read <;> simp

theorem mapM_cons_inv {part : α} (all : (part :: parts).mapM read = some results) :
    ∃ result rest, results = result :: rest ∧ read part = some result ∧
      parts.mapM read = some rest := by
  rw [List.mapM_cons] at all
  simp only [Option.bind_eq_bind, Option.bind_eq_some_iff, Option.pure_def,
    Option.some.injEq] at all
  obtain ⟨result, first, rest, behind, rfl⟩ := all
  exact ⟨result, rest, rfl, first, behind⟩

theorem mem_of_mapM (all : parts.mapM read = some results) {result : β}
    (among : result ∈ results) : ∃ part ∈ parts, read part = some result := by
  induction parts generalizing results with
  | nil =>
      cases all
      cases among
  | cons part parts ih =>
      obtain ⟨first, rest, rfl, here, behind⟩ := mapM_cons_inv all
      rcases List.mem_cons.mp among with rfl | among
      · exact ⟨part, List.mem_cons_self, here⟩
      · obtain ⟨part, inside, found⟩ := ih behind among
        exact ⟨part, List.mem_cons_of_mem _ inside, found⟩

theorem mapM_map (write : γ → α) (result : γ → β) {sources : List γ}
    (each : ∀ source ∈ sources, read (write source) = some (result source)) :
    (sources.map write).mapM read = some (sources.map result) := by
  induction sources with
  | nil => rfl
  | cons source sources ih =>
      obtain ⟨first, others⟩ := List.forall_mem_cons.mp each
      exact mapM_cons_eq_some.mpr ⟨first, ih others⟩

theorem mapM_of_mapM (all : parts.mapM read = some results) {other : α → Option γ}
    {change : β → γ}
    (each : ∀ part ∈ parts, ∀ result, read part = some result →
      other part = some (change result)) :
    parts.mapM other = some (results.map change) := by
  induction parts generalizing results with
  | nil =>
      cases all
      rfl
  | cons part parts ih =>
      obtain ⟨first, rest, rfl, here, behind⟩ := mapM_cons_inv all
      obtain ⟨own, others⟩ := List.forall_mem_cons.mp each
      exact mapM_cons_eq_some.mpr ⟨own first here, ih behind others⟩

theorem mapM_filter (all : parts.mapM read = some results) {test : α → Bool} {keep : β → Bool}
    (agree : ∀ part ∈ parts, ∀ result, read part = some result → test part = keep result) :
    (parts.filter test).mapM read = some (results.filter keep) := by
  induction parts generalizing results with
  | nil =>
      cases all
      rfl
  | cons part parts ih =>
      obtain ⟨first, rest, rfl, here, behind⟩ := mapM_cons_inv all
      obtain ⟨own, others⟩ := List.forall_mem_cons.mp agree
      rw [List.filter_cons, List.filter_cons, own first here]
      split
      · exact mapM_cons_eq_some.mpr ⟨here, ih behind others⟩
      · exact ih behind others

theorem exists_mapM_iff :
    (∃ results, parts.mapM read = some results) ↔
      ∀ part ∈ parts, ∃ result, read part = some result := by
  induction parts with
  | nil => exact iff_of_true ⟨[], rfl⟩ nofun
  | cons part parts ih =>
      rw [List.forall_mem_cons, ← ih]
      constructor
      · rintro ⟨results, all⟩
        obtain ⟨result, rest, _, here, behind⟩ := mapM_cons_inv all
        exact ⟨⟨result, here⟩, rest, behind⟩
      · rintro ⟨⟨result, here⟩, rest, behind⟩
        exact ⟨result :: rest, mapM_cons_eq_some.mpr ⟨here, behind⟩⟩

end Outpost.Json.Rows
