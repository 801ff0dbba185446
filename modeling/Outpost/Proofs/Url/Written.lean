import Outpost.Proofs.Url.Authorities

/-!
# URLs from written parts

A URL is read in three cuts: its scheme, its authority, and what stands behind them.  In a text
that was put together from a scheme, an authority and a slash with anything behind it, the cuts
fall where the parts meet.
-/

namespace Outpost.Url

/-! ## Edges -/

/-- What counts of a text that goes on: no blanks at its end, and no line breaks. -/
def stripEnd (chars : List Char) : List Char :=
  ((chars.reverse.dropWhile isEdge).reverse).filter
    fun char => !(char = '\t' || char = '\n' || char = '\r')

variable {chars front : List Char}

theorem dropWhile_isEdge (visible : ∀ char ∈ chars, 0x20 < char.toNat) :
    chars.dropWhile isEdge = chars := by
  cases chars with
  | nil => rfl
  | cons char rest =>
      have := visible char List.mem_cons_self
      exact List.dropWhile_cons_of_neg (by simp [isEdge, this])

theorem filter_breaks (visible : ∀ char ∈ chars, 0x20 < char.toNat) :
    chars.filter (fun char => !(char = '\t' || char = '\n' || char = '\r')) = chars := by
  rw [List.filter_eq_self]
  intro char inside
  have blank : ∀ mark, mark.toNat ≤ 0x20 → char ≠ mark := by
    rintro mark low rfl
    exact absurd (visible char inside) (by omega)
  simp [blank '\t' (by decide), blank '\n' (by decide), blank '\r' (by decide)]

theorem stripEnd_eq_self (visible : ∀ char ∈ chars, 0x20 < char.toNat) :
    stripEnd chars = chars := by
  rw [stripEnd, dropWhile_isEdge fun char inside => visible char (List.mem_reverse.mp inside),
    List.reverse_reverse, filter_breaks visible]

theorem strip_append (filled : front ≠ []) (visible : ∀ char ∈ front, 0x20 < char.toNat)
    (back : List Char) : strip (String.ofList (front ++ back)) = front ++ stripEnd back := by
  have begins : (front ++ back).dropWhile isEdge = front ++ back := by
    obtain ⟨first, rest, rfl⟩ := List.exists_cons_of_ne_nil filled
    have := visible first List.mem_cons_self
    exact List.dropWhile_cons_of_neg (by simp [isEdge, this])
  have ends : (back.reverse ++ front.reverse).dropWhile isEdge =
      back.reverse.dropWhile isEdge ++ front.reverse := by
    have solid := dropWhile_isEdge fun char inside => visible char (List.mem_reverse.mp inside)
    rw [List.dropWhile_append, solid]
    split
    · rename_i blank
      rw [List.isEmpty_iff.mp blank, List.nil_append]
    · rfl
  rw [strip, String.toList_ofList, begins, List.reverse_append, ends, List.reverse_append,
    List.reverse_reverse, List.filter_append, filter_breaks visible, stripEnd]

/-! ## Cuts -/

def authorityPart (chars : List Char) : List Char :=
  (chars.dropWhile isSlash).takeWhile fun char => !endsAuthority char

def behindAuthority (chars : List Char) : List Char :=
  (chars.dropWhile isSlash).dropWhile fun char => !endsAuthority char

def ofParts (scheme : Scheme) (authority : Authority) (behind : List Char) : Url where
  scheme := scheme
  authority := authority
  path := pathSegments ((behind.takeWhile (· ≠ '#')).takeWhile (· ≠ '?'))
  query := ((behind.takeWhile (· ≠ '#')).dropWhile (· ≠ '?')).tail?.map (escape escapesInQuery)
  fragment := (behind.dropWhile (· ≠ '#')).tail?.map (escape escapesInFragment)

theorem parseAfterScheme_eq [Domain.Mapping] (scheme : Scheme) (chars : List Char) :
    parseAfterScheme scheme chars = (parseAuthority scheme (authorityPart chars)).map
      fun authority => ofParts scheme authority (behindAuthority chars) := by
  unfold parseAfterScheme
  change (parseAuthority scheme (authorityPart chars) >>= fun authority => _) = _
  cases parseAuthority scheme (authorityPart chars) with
  | error => rfl
  | ok authority =>
      refine congrArg Except.ok ?_
      dsimp only [ofParts, behindAuthority]
      generalize (chars.dropWhile isSlash).dropWhile (fun char => !endsAuthority char) = behind
      cases (behind.takeWhile (· ≠ '#')).dropWhile (· ≠ '?') <;>
        cases behind.dropWhile (· ≠ '#') <;> rfl

theorem parts_of_parse [Domain.Mapping] {text : String} {url : Url} (h : parse text = .ok url) :
    ∃ rest, splitScheme (strip text) = some (url.scheme.name, rest) ∧
      parseAuthority url.scheme (authorityPart rest) = .ok url.authority ∧
      url = ofParts url.scheme url.authority (behindAuthority rest) := by
  have parts : ∀ {scheme rest}, parseAfterScheme scheme rest = .ok url → url.scheme = scheme ∧
      parseAuthority scheme (authorityPart rest) = .ok url.authority ∧
      url = ofParts scheme url.authority (behindAuthority rest) := by
    intro scheme rest read
    rw [parseAfterScheme_eq] at read
    cases given : parseAuthority scheme (authorityPart rest) with
    | error => rw [given] at read; cases read
    | ok authority =>
        rw [given] at read
        cases read
        exact ⟨rfl, rfl, rfl⟩
  unfold parse at h
  split at h
  · cases h
  all_goals
    rename_i rest split
  · obtain ⟨scheme, authority, whole⟩ := parts h
    rw [scheme]
    exact ⟨rest, split, authority, whole⟩
  · obtain ⟨scheme, authority, whole⟩ := parts h
    rw [scheme]
    exact ⟨rest, split, authority, whole⟩
  · cases h

/-! ## Writing and reading -/

theorem splitScheme_written (scheme : Scheme) (rest : List Char) :
    splitScheme (scheme.name.toList ++ "://".toList ++ rest) =
      some (scheme.name, '/' :: '/' :: rest) := by
  cases scheme <;> rfl

theorem cut_written {authority : List Char} (filled : authority ≠ [])
    (clean : ∀ char ∈ authority, stands char = true) (behind : List Char) :
    authorityPart ('/' :: '/' :: (authority ++ '/' :: behind)) = authority ∧
      behindAuthority ('/' :: '/' :: (authority ++ '/' :: behind)) = '/' :: behind := by
  have inside : ∀ char ∈ authority, (!endsAuthority char) = true := fun char h => by
    have := clean char h
    simp only [stands, Bool.and_eq_true] at this
    exact this.2
  have slashes : ('/' :: '/' :: (authority ++ '/' :: behind)).dropWhile isSlash =
      authority ++ '/' :: behind := by
    obtain ⟨first, rest, rfl⟩ := List.exists_cons_of_ne_nil filled
    have plain := inside first List.mem_cons_self
    simp only [endsAuthority, Bool.not_eq_true', Bool.or_eq_false_iff] at plain
    rw [List.dropWhile_cons_of_pos (by decide), List.dropWhile_cons_of_pos (by decide),
      List.cons_append, List.dropWhile_cons_of_neg (by simp [plain.1.1])]
  rw [authorityPart, behindAuthority, slashes, List.takeWhile_append_of_pos inside,
    List.dropWhile_append_of_pos inside, List.takeWhile_cons_of_neg (by decide),
    List.dropWhile_cons_of_neg (by decide), List.append_nil]
  exact ⟨rfl, rfl⟩

/-- Behind a scheme and an authority a URL goes on with what follows, and with nothing else. -/
theorem parse_written [Domain.Mapping] (scheme : Scheme) {authority : String}
    (filled : authority.toList ≠ []) (clean : ∀ char ∈ authority.toList, stands char = true) (behind : List Char) :
    parse (scheme.name ++ "://" ++ authority ++ String.ofList ('/' :: behind)) =
      (parseAuthority scheme authority.toList).map
        fun read => ofParts scheme read ('/' :: stripEnd behind) := by
  have written : scheme.name ++ "://" ++ authority ++ String.ofList ('/' :: behind) =
      String.ofList ((scheme.name.toList ++ "://".toList ++ authority.toList ++ ['/']) ++
        behind) := by
    apply String.toList_injective
    simp
  have visible : ∀ char ∈ scheme.name.toList ++ "://".toList ++ authority.toList ++ ['/'],
      0x20 < char.toNat := by
    simp only [List.forall_mem_append]
    refine ⟨⟨⟨?_, by simp⟩, fun char inside => ?_⟩, by simp⟩
    · cases scheme <;> simp [Scheme.name]
    · have := clean char inside
      simp only [stands, Bool.and_eq_true, decide_eq_true_eq] at this
      exact this.1
  have stripped : strip (scheme.name ++ "://" ++ authority ++ String.ofList ('/' :: behind)) =
      scheme.name.toList ++ "://".toList ++ (authority.toList ++ '/' :: stripEnd behind) := by
    rw [written, strip_append (by simp) visible]
    simp
  obtain ⟨authorityCut, behindCut⟩ := cut_written filled clean (stripEnd behind)
  have split := splitScheme_written scheme (authority.toList ++ '/' :: stripEnd behind)
  rw [← stripped] at split
  have read : parse (scheme.name ++ "://" ++ authority ++ String.ofList ('/' :: behind)) =
      parseAfterScheme scheme
        ('/' :: '/' :: (authority.toList ++ '/' :: stripEnd behind)) := by
    unfold parse
    rw [split]
    cases scheme <;> rfl
  rw [read, parseAfterScheme_eq, authorityCut, behindCut]

def tail (url : Url) : String :=
  url.renderPath ++
    (match url.query with
      | none => ""
      | some query => "?" ++ query) ++
    (match url.fragment with
      | none => ""
      | some fragment => "#" ++ fragment)

theorem render_eq (url : Url) :
    url.render = url.scheme.name ++ "://" ++ url.authority.render ++ url.tail :=
  (congrArg (· ++ _) String.append_assoc).trans String.append_assoc

theorem toList_tail (url : Url) : ∃ behind, url.tail.toList = '/' :: behind :=
  ⟨_, by simp only [tail, renderPath, String.toList_append]; rfl⟩

end Outpost.Url
