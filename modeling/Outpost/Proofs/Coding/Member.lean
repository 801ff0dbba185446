import Outpost.Coding.Member
import Outpost.Proofs.Coding.Inflate

/-!
# Members with more data behind them

What a member decodes to does not depend on what follows it, and neither does a fault in it.
-/

namespace Outpost.Coding

def Lifts {α : Type} (change : α → α) (first second : Except Halt α) : Prop :=
  ∀ result, first = .ok result → second = .ok (change result)

/-- Results of the first reading, up to a change, and its faults are those of the second one. -/
structure Lasts {α : Type} (change : α → α) (first second : Except Halt α) : Prop where
  lifts : Lifts change first second
  faults : first = .error .corrupt → second = .error .corrupt

namespace Lasts

variable {α β : Type} {change : α → α} {changed : β → β} {first second : Except Halt α}

theorem pure (result : α) : Lasts change (pure result) (pure (change result)) where
  lifts := by
    rintro _ ⟨⟩
    rfl
  faults h := by cases h

theorem same (reading : Except Halt α) : Lasts id reading reading := ⟨fun _ h => h, id⟩

theorem bind {next other : α → Except Halt β} (h : Lasts change first second)
    (hnext : ∀ result, Lasts changed (next result) (other (change result))) :
    Lasts changed (first >>= next) (second >>= other) := by
  cases hfirst : first with
  | error halt =>
      refine ⟨nofun, fun hrun => ?_⟩
      cases hrun
      rw [h.faults hfirst]
      rfl
  | ok value =>
      rw [h.lifts value hfirst]
      exact ⟨(hnext value).lifts, (hnext value).faults⟩

theorem optional {more rest : Bytes} (condition : Bool) (skip : Bytes → Except Halt Bytes)
    {next other : Bytes → Except Halt Bytes}
    (hskip : Lasts (· ++ more) (skip rest) (skip (rest ++ more)))
    (hnext : ∀ result, Lasts (· ++ more) (next result) (other (result ++ more))) :
    Lasts (· ++ more) (if condition then skip rest >>= next else next rest)
      (if condition then skip (rest ++ more) >>= other else other (rest ++ more)) := by
  cases condition with
  | false => exact hnext rest
  | true => exact hskip.bind hnext

end Lasts

section Append

variable (data more : Bytes)

def leave {α : Type} (more : Bytes) (found : α × Bytes) : α × Bytes := (found.1, found.2 ++ more)

theorem takeBytes_append (count : Nat) :
    Lasts (leave more) (takeBytes count data) (takeBytes count (data ++ more)) := by
  unfold takeBytes
  split
  · exact ⟨nofun, nofun⟩
  rename_i enough
  have enough : count ≤ data.length := Nat.le_of_not_lt enough
  rw [if_neg (by rw [List.length_append]; omega), List.take_append_of_le_length enough,
    List.drop_append_of_le_length enough]
  exact Lasts.pure (data.take count, data.drop count)

theorem skipZeroTerminated_append :
    Lasts (· ++ more) (skipZeroTerminated data) (skipZeroTerminated (data ++ more)) := by
  unfold skipZeroTerminated
  rw [List.dropWhile_append]
  split
  · exact ⟨nofun, nofun⟩
  · rename_i zero found hfound
    rw [hfound]
    exact .pure found

theorem skipExtra_append : Lasts (· ++ more) (skipExtra data) (skipExtra (data ++ more)) :=
  (takeBytes_append data more 2).bind fun length =>
    (takeBytes_append length.2 more (littleEndian length.1)).bind fun extra => .pure extra.2

theorem skipGzipHeader_append :
    Lasts (· ++ more) (skipGzipHeader data) (skipGzipHeader (data ++ more)) := by
  refine (takeBytes_append data more 10).bind fun fixed => ?_
  refine (Lasts.same _).bind fun _ => ?_
  have check : ∀ rest : Bytes, Lasts (· ++ more)
      (if hasFlag (fixed.1.getD 3 0) 1 then
        takeBytes 2 rest >>= fun read =>
          require (littleEndian read.1 =
            (crc32 (data.take (data.length - rest.length))).toNat % 65536) >>= fun _ =>
            pure read.2
      else pure rest)
      (if hasFlag (fixed.1.getD 3 0) 1 then
        takeBytes 2 (rest ++ more) >>= fun read =>
          require (littleEndian read.1 =
            (crc32 ((data ++ more).take ((data ++ more).length - (rest ++ more).length))).toNat %
              65536) >>= fun _ =>
            pure read.2
      else pure (rest ++ more)) := by
    intro rest
    have covered : (data ++ more).take ((data ++ more).length - (rest ++ more).length) =
        data.take (data.length - rest.length) := by
      rw [List.length_append, List.length_append, Nat.add_sub_add_right,
        List.take_append_of_le_length (Nat.sub_le _ _)]
    rw [covered]
    split
    · refine (takeBytes_append rest more 2).bind fun check => ?_
      exact (Lasts.same _).bind fun _ => .pure check.2
    · exact .pure rest
  exact .optional _ skipExtra (skipExtra_append fixed.2 more) fun afterExtra =>
    .optional _ skipZeroTerminated (skipZeroTerminated_append afterExtra more) fun afterName =>
      .optional _ skipZeroTerminated (skipZeroTerminated_append afterName more) check

theorem inflate_lasts : Lasts (leave more) (inflate data) (inflate (data ++ more)) where
  lifts := by
    rintro ⟨contents, rest⟩ h
    exact inflate_append h more
  faults h := inflate_faults h more

theorem decodeGzip_append : Lasts id (decodeGzip data) (decodeGzip (data ++ more)) := by
  refine (skipGzipHeader_append data more).bind fun blocks => ?_
  refine (inflate_lasts blocks more).bind fun found => ?_
  refine (takeBytes_append found.2 more 8).bind fun trailer => ?_
  exact .same _

theorem decodeZlib_append : Lasts id (decodeZlib data) (decodeZlib (data ++ more)) := by
  refine (takeBytes_append data more 2).bind fun header => ?_
  refine (Lasts.same _).bind fun _ => ?_
  refine (Lasts.same _).bind fun _ => ?_
  refine (inflate_lasts header.2 more).bind fun found => ?_
  refine (takeBytes_append found.2 more 4).bind fun trailer => ?_
  exact .same _

theorem decode_lasts (format : Format) : Lasts id (decode format data)
    (decode format (data ++ more)) := by
  cases format with
  | gzip => exact decodeGzip_append data more
  | zlib => exact decodeZlib_append data more

end Append

section Decode

variable {format : Format} {data received contents : Bytes}

theorem decode_append (h : decode format data = .ok contents) (more : Bytes) :
    decode format (data ++ more) = .ok contents :=
  (decode_lasts data more format).lifts contents h

theorem decode_of_begin (h : decode format received = .ok contents) (isPrefix : received <+: data) :
    decode format data = .ok contents := by
  obtain ⟨more, rfl⟩ := isPrefix
  exact decode_append h more

/-- A member with a fault does not decode to anything whatever follows. -/
theorem decode_faults (h : decode format data = .error .corrupt) (more : Bytes) :
    decode format (data ++ more) = .error .corrupt :=
  (decode_lasts data more format).faults h

theorem decode_nil (format : Format) : decode format [] = .error .starved := by
  cases format <;> rfl

end Decode

end Outpost.Coding
