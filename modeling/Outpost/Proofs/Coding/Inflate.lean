import Outpost.Coding.Inflate

/-!
# Blocks with more data behind them

What a reading comes to, a result or a fault, it comes to with more data at the end as well.  The
fuel of the readers makes no difference: every symbol and every block takes a bit, and there is
more fuel than there are bits.
-/

namespace Outpost.Coding

namespace Inflate

def BitReader.extend (reader : BitReader) (more : Bytes) : BitReader :=
  { reader with data := ⟨reader.data.data ++ more.toArray⟩ }

def BitReader.Follows (after reader : BitReader) : Prop :=
  after.data = reader.data ∧ after.position ≤ 8 * after.data.size

def Carries {α : Type} (first second : Reading α) : Prop :=
  ∀ reader result after more, reader.position ≤ 8 * reader.data.size →
    first.run reader = .ok (result, after) →
    after.Follows reader ∧ second.run (reader.extend more) = .ok (result, after.extend more)

/-- What the first reading comes to lasts: its results, for which it takes at least `count` bits,
and the faults that it meets where fewer than `bits` are left are those of the second one on all
longer data. -/
structure Lasting {α : Type} (bits count : Nat) (first second : Reading α) : Prop where
  carries : Carries first second
  takes : ∀ reader result after, first.run reader = .ok (result, after) →
    reader.position + count ≤ after.position
  faults : ∀ reader more, reader.position ≤ 8 * reader.data.size →
    8 * reader.data.size < reader.position + bits → first.run reader = .error .corrupt →
    second.run (reader.extend more) = .error .corrupt

variable {α β : Type} {bits count : Nat}

namespace Lasting

variable {first second : Reading α}

theorem pure (result : α) : Lasting bits 0 (pure result) (pure result) where
  carries reader value after more within h := by
    cases h
    exact ⟨⟨rfl, within⟩, rfl⟩
  takes reader value after h := by
    cases h
    exact Nat.le_refl _
  faults reader more within left h := by cases h

theorem spent : Lasting 0 count (throw .corrupt : Reading α) second where
  carries reader value after more within h := by cases h
  takes reader value after h := by cases h
  faults reader more within left h := by omega

theorem throw : Lasting bits count (throw .corrupt : Reading α) (throw .corrupt) where
  carries reader value after more within h := by cases h
  takes reader value after h := by cases h
  faults reader more within left h := rfl

theorem mono (h : Lasting bits count first second) {fewer less : Nat} (hbits : fewer ≤ bits)
    (hcount : less ≤ count) : Lasting fewer less first second where
  carries := h.carries
  takes reader result after hrun := by
    have := h.takes reader result after hrun
    omega
  faults reader more within left hrun := h.faults reader more within (by omega) hrun

theorem bind {next other : α → Reading β} (h : Lasting bits count first second)
    (hnext : ∀ result, Lasting (bits - count) 0 (next result) (other result)) :
    Lasting bits count (first >>= next) (second >>= other) where
  carries reader result after more within hrun := by
    rw [StateT.run_bind] at hrun ⊢
    cases hfirst : first.run reader with
    | error halt =>
        rw [hfirst] at hrun
        cases hrun
    | ok found =>
        obtain ⟨value, middle⟩ := found
        rw [hfirst] at hrun
        obtain ⟨follows, carried⟩ := h.carries reader value middle more within hfirst
        obtain ⟨further, result⟩ := (hnext value).carries middle result after more follows.2 hrun
        rw [carried]
        exact ⟨⟨further.1.trans follows.1, further.2⟩, result⟩
  takes reader result after hrun := by
    rw [StateT.run_bind] at hrun
    cases hfirst : first.run reader with
    | error halt =>
        rw [hfirst] at hrun
        cases hrun
    | ok found =>
        obtain ⟨value, middle⟩ := found
        rw [hfirst] at hrun
        have before := h.takes reader value middle hfirst
        have further := (hnext value).takes middle result after hrun
        omega
  faults reader more within left hrun := by
    rw [StateT.run_bind] at hrun ⊢
    cases hfirst : first.run reader with
    | error halt =>
        rw [hfirst] at hrun
        cases hrun
        rw [h.faults reader more within left hfirst]
        rfl
    | ok found =>
        obtain ⟨value, middle⟩ := found
        rw [hfirst] at hrun
        have taken := h.takes reader value middle hfirst
        obtain ⟨⟨data, still⟩, carried⟩ := h.carries reader value middle more within hfirst
        rw [carried]
        refine (hnext value).faults middle more still ?_ hrun
        rw [data] at still ⊢
        omega

theorem map (change : α → β) (h : Lasting bits count first second) :
    Lasting bits count (change <$> first) (change <$> second) := by
  rw [map_eq_pure_bind, map_eq_pure_bind]
  exact h.bind fun result => .pure _

end Lasting

/-! ## Bits and numbers -/

theorem run_readBit (reader : BitReader) :
    readBit.run reader =
      if h : reader.position / 8 < reader.data.size then
        .ok ((reader.data[reader.position / 8].toNat >>> (reader.position % 8)) % 2,
          { reader with position := reader.position + 1 })
      else .error .starved := by
  by_cases h : reader.position / 8 < reader.data.size
  · rw [dif_pos h]
    simp [readBit, h]
    rfl
  · rw [dif_neg h]
    simp [readBit, h]
    rfl

theorem size_extend (reader : BitReader) (more : Bytes) :
    (reader.extend more).data.size = reader.data.size + more.length :=
  Array.size_append

theorem getElem_extend (reader : BitReader) (more : Bytes) (index : Nat)
    (h : index < reader.data.size) (h' : index < (reader.extend more).data.size) :
    (reader.extend more).data[index] = reader.data[index] :=
  Array.getElem_append_left h

theorem readBit_lasting : Lasting bits 1 readBit readBit where
  carries reader result after more within h := by
    rw [run_readBit] at h
    split at h
    · rename_i inside
      cases h
      have stillInside : (reader.extend more).position / 8 < (reader.extend more).data.size := by
        rw [size_extend]
        exact Nat.lt_add_right _ inside
      have same := getElem_extend reader more _ inside stillInside
      rw [run_readBit, dif_pos stillInside]
      refine ⟨⟨rfl, ?_⟩, ?_⟩
      · simp only
        omega
      · exact congrArg (fun byte : UInt8 => Except.ok (byte.toNat >>> (reader.position % 8) % 2,
          { reader.extend more with position := reader.position + 1 })) same
    · cases h
  takes reader result after h := by
    rw [run_readBit] at h
    split at h <;> cases h
    exact Nat.le_refl _
  faults reader more within left h := by
    rw [run_readBit] at h
    split at h <;> cases h

theorem readBits_lasting (length : Nat) : Lasting bits 0 (readBits length) (readBits length) := by
  induction length generalizing bits with
  | zero => exact .pure 0
  | succ length ih =>
      have first : Lasting bits 0 readBit readBit := readBit_lasting.mono (Nat.le_refl _) (by omega)
      exact first.bind fun low => ih.bind fun high => .pure _

theorem alignToByte_lasting : Lasting bits 0 alignToByte alignToByte where
  carries reader result after more within h := by
    cases h
    refine ⟨⟨rfl, ?_⟩, rfl⟩
    simp only
    omega
  takes reader result after h := by
    cases h
    simp only
    omega
  faults reader more within left h := by cases h

theorem orThrow_lasting (code : Option Huffman) :
    Lasting bits 0 (orThrow code) (orThrow code) := by
  cases code with
  | none => exact .throw
  | some code => exact .pure code

theorem readFrom_lasting (code : Huffman) (tries length value first index : Nat) :
    Lasting bits 1 (code.readFrom tries length value first index)
      (code.readFrom tries length value first index) := by
  induction tries generalizing bits length value first index with
  | zero => exact .throw
  | succ tries ih =>
      refine readBit_lasting.bind fun bit => ?_
      simp only
      split
      · split
        · exact .pure _
        · exact .throw
      · exact (ih _ _ _ _).mono (Nat.le_refl _) (Nat.zero_le _)

theorem read_lasting (code : Huffman) : Lasting bits 1 code.read code.read :=
  readFrom_lasting code maxCodeLength 1 0 0 0

theorem readBased_lasting (table : List (Nat × Nat)) (symbol : Nat) :
    Lasting bits 0 (readBased table symbol) (readBased table symbol) := by
  unfold readBased
  split
  · exact .throw
  · exact (readBits_lasting _).bind fun extra => .pure _

/-! ## Blocks -/

/-- Every symbol takes a bit, so that bits run out before the fuel does. -/
theorem readCodes_lasting (literals distances : Huffman) {fuel more : Nat} (h : fuel ≤ more)
    (output : Array UInt8) :
    Lasting fuel 0 (readCodes literals distances fuel output)
      (readCodes literals distances more output) := by
  induction fuel generalizing more output with
  | zero => exact .spent
  | succ fuel ih =>
      cases more with
      | zero => cases h
      | succ more =>
          have further := fun output => ih (Nat.le_of_succ_le_succ h) output
          have symbols : Lasting (fuel + 1) 1 literals.read literals.read := read_lasting literals
          have offsets : Lasting fuel 0 distances.read distances.read :=
            (read_lasting distances).mono (Nat.le_refl _) (Nat.zero_le _)
          unfold readCodes
          refine (symbols.bind fun symbol => ?_).mono (Nat.le_refl _) (Nat.zero_le _)
          split
          · exact further _
          · split
            · exact .pure output
            · refine (readBased_lasting _ _).bind fun length => ?_
              refine offsets.bind fun symbol => ?_
              refine (readBased_lasting _ _).bind fun distance => ?_
              split
              · exact .throw
              · exact further _

theorem readStoredBytes_lasting (length : Nat) (output : Array UInt8) :
    Lasting bits 0 (readStoredBytes length output) (readStoredBytes length output) := by
  induction length generalizing output with
  | zero => exact .pure output
  | succ length ih => exact (readBits_lasting 8).bind fun byte => ih _

theorem readStored_lasting (output : Array UInt8) :
    Lasting bits 0 (readStored output) (readStored output) := by
  refine alignToByte_lasting.bind fun _ => ?_
  refine (readBits_lasting 16).bind fun length => ?_
  refine (readBits_lasting 16).bind fun complement => ?_
  split
  · exact readStoredBytes_lasting length output
  · exact .throw

theorem readLengths_lasting (code : Huffman) (total fuel : Nat) (reversed : List Nat) :
    Lasting bits 0 (readLengths code total fuel reversed)
      (readLengths code total fuel reversed) := by
  induction fuel generalizing reversed with
  | zero => exact .throw
  | succ fuel ih =>
      have symbols : Lasting bits 0 code.read code.read :=
        (read_lasting code).mono (Nat.le_refl _) (Nat.zero_le _)
      unfold readLengths
      split
      · exact .throw
      split
      · exact .pure _
      refine symbols.bind fun symbol => ?_
      split
      · exact ih _
      split
      · split
        · exact .throw
        · exact (readBits_lasting 2).bind fun times => ih _
      · simp only
        split
        · exact ((readBits_lasting 3).map _).bind fun times => ih _
        · exact ((readBits_lasting 7).map _).bind fun times => ih _

theorem mapM_lasting (items : List Nat) (reading : Reading Nat)
    (h : Lasting bits 0 reading reading) :
    Lasting bits 0 (items.mapM fun _ => reading) (items.mapM fun _ => reading) := by
  induction items with
  | nil => exact .pure []
  | cons item rest ih =>
      rw [List.mapM_cons]
      exact h.bind fun first => ih.bind fun others => .pure _

theorem readDescribed_lasting {fuel more : Nat} (h : fuel ≤ more) (output : Array UInt8) :
    Lasting fuel 0 (readDescribed fuel output) (readDescribed more output) := by
  refine (readBits_lasting 5).bind fun literalCount => ?_
  refine (readBits_lasting 5).bind fun distanceCount => ?_
  refine (readBits_lasting 4).bind fun lengthCount => ?_
  refine (mapM_lasting _ _ (readBits_lasting 3)).bind fun written => ?_
  refine (orThrow_lasting _).bind fun lengthCode => ?_
  refine (readLengths_lasting _ _ _ _).bind fun all => ?_
  refine (orThrow_lasting _).bind fun literals => ?_
  refine (orThrow_lasting _).bind fun distances => ?_
  split
  · exact .throw
  · exact readCodes_lasting literals distances h output

theorem readBlock_lasting {fuel more : Nat} (h : fuel ≤ more) (output : Array UInt8) :
    Lasting fuel 1 (readBlock fuel output) (readBlock more output) := by
  refine readBit_lasting.bind fun last => ?_
  refine (readBits_lasting 2).bind fun kind => ?_
  have fewer : fuel - 1 ≤ fuel := Nat.sub_le fuel 1
  split
  · exact (readStored_lasting output).bind fun grown => .pure _
  · refine (orThrow_lasting _).bind fun literals => ?_
    refine (orThrow_lasting _).bind fun distances => ?_
    have codes := (readCodes_lasting literals distances h output).mono fewer (Nat.le_refl 0)
    exact codes.bind fun grown => .pure _
  · have described := (readDescribed_lasting h output).mono fewer (Nat.le_refl 0)
    exact described.bind fun grown => .pure _
  · exact .throw

theorem readBlocks_lasting {bits moreBits : Nat} (hbits : bits ≤ moreBits) {fuel more : Nat}
    (h : fuel ≤ more) (enough : fuel ≤ bits) (output : Array UInt8) :
    Lasting fuel 0 (readBlocks bits fuel output) (readBlocks moreBits more output) := by
  induction fuel generalizing more output with
  | zero => exact .spent
  | succ fuel ih =>
      cases more with
      | zero => cases h
      | succ more =>
          have block := (readBlock_lasting hbits output).mono enough (Nat.le_refl 1)
          refine (block.bind fun found => ?_).mono (Nat.le_refl _) (Nat.zero_le _)
          obtain ⟨isLast, grown⟩ := found
          simp only
          split
          · exact .pure grown
          · exact ih (Nat.le_of_succ_le_succ h) (Nat.le_of_succ_le enough) grown

def BitReader.start (data : Bytes) : BitReader := ⟨⟨data.toArray⟩, 0⟩

theorem BitReader.extend_start (data more : Bytes) :
    (start data).extend more = start (data ++ more) := by
  unfold extend start
  rw [List.append_toArray]

theorem readBlocks_append (data more : Bytes) :
    Lasting (8 * data.length + 1) 0 (readBlocks (8 * data.length + 1) (8 * data.length + 1) #[])
      (readBlocks (8 * (data ++ more).length + 1) (8 * (data ++ more).length + 1) #[]) := by
  have fuel : 8 * data.length + 1 ≤ 8 * (data ++ more).length + 1 := by
    rw [List.length_append]
    omega
  exact readBlocks_lasting fuel fuel (Nat.le_refl _) #[]

end Inflate

open Inflate

theorem inflate_eq (data : Bytes) : inflate data =
    (readBlocks (8 * data.length + 1) (8 * data.length + 1) #[]).run (.start data) >>= fun found =>
      .ok (found.1.toList, data.drop ((found.2.position + 7) / 8)) := rfl

/-- Data behind the last block is left where it is. -/
theorem inflate_append {data contents rest : Bytes} (h : inflate data = .ok (contents, rest))
    (more : Bytes) : inflate (data ++ more) = .ok (contents, rest ++ more) := by
  have lasting := readBlocks_append data more
  rw [inflate_eq] at h ⊢
  cases read : (readBlocks (8 * data.length + 1) (8 * data.length + 1) #[]).run (.start data) with
  | error halt =>
      rw [read] at h
      cases h
  | ok found =>
      obtain ⟨output, reader⟩ := found
      rw [read] at h
      cases h
      obtain ⟨⟨hdata, within⟩, carried⟩ :=
        lasting.carries _ output reader more (Nat.zero_le _) read
      rw [BitReader.extend_start] at carried
      rw [carried]
      have size : reader.data.size = data.length := by
        rw [hdata]
        exact List.size_toArray
      have bound : (reader.position + 7) / 8 ≤ data.length := by omega
      have dropped : (data ++ more).drop ((reader.position + 7) / 8) =
          data.drop ((reader.position + 7) / 8) ++ more := List.drop_append_of_le_length bound
      exact congrArg (fun rest => Except.ok (output.toList, rest)) dropped

theorem inflate_faults {data : Bytes} (h : inflate data = .error .corrupt) (more : Bytes) :
    inflate (data ++ more) = .error .corrupt := by
  have lasting := readBlocks_append data more
  rw [inflate_eq] at h ⊢
  cases read : (readBlocks (8 * data.length + 1) (8 * data.length + 1) #[]).run (.start data) with
  | ok found =>
      rw [read] at h
      cases h
  | error halt =>
      rw [read] at h
      cases h
      have bits : 8 * (BitReader.start data).data.size < 0 + (8 * data.length + 1) := by
        have size : (BitReader.start data).data.size = data.length := List.size_toArray
        omega
      have faulty := lasting.faults _ more (Nat.zero_le _) bits read
      rw [BitReader.extend_start] at faulty
      rw [faulty]
      rfl

end Outpost.Coding
