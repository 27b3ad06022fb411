import FragmentPipe.Proofs.Transfer.Records

/-!
What lies in the blob. A field that is accepted is stored behind the bytes of all fields before it;
as long as these and the bytes that are not given back go around the blob at most once, nothing that
is still to be read is lost. Main statements: `Roomy.change` and `Intact.change`, calls that keep to
this leave room for the unreleased bytes and these bytes as they were written.
-/

namespace FragmentPipe

namespace Session

/-- The bytes that are written and not given back, those of the open fragment included. -/
def unreleasedBytes (s : Session) : Nat :=
  ((s.written.drop s.released).map fun w => w.bytes.length).sum + s.current.bytes.length

end Session

/-- With all the bytes that an accepted field or a part of one may change, the unreleased bytes go
around the blob at most once. -/
def fitting (s : Session) (a : Action) : Prop :=
  a.OnPut fun w => (w.run s.pipe).1.isOk = true →
    s.unreleasedBytes + w.reach s.pipe ≤ s.pipe.store.config.blobSize

/-- Every field is accepted, and with all the bytes that it may change the unreleased ones go around
the blob at most once. -/
def lossless (s : Session) (a : Action) : Prop :=
  a.OnPut fun w => (w.run s.pipe).1.isOk = true ∧
    s.unreleasedBytes + w.reach s.pipe ≤ s.pipe.store.config.blobSize

/-- Every field is accepted. -/
def accepting (s : Session) (a : Action) : Prop := a.OnPut fun w => (w.run s.pipe).1.isOk = true

instance (s : Session) (a : Action) : Decidable (lossless s a) :=
  inferInstanceAs (Decidable (a.OnPut _))

instance (s : Session) (a : Action) : Decidable (accepting s a) :=
  inferInstanceAs (Decidable (a.OnPut _))

theorem fitting_of_lossless (s : Session) (a : Action) (kept : lossless s a) : fitting s a := by
  cases a with
  | put w => exact fun _ => kept.2
  | _ => trivial

namespace Written

theorem bytes_add (w : Written) (e : Entry) : (w.add e).bytes = w.bytes ++ e.bytesIn := by
  simp [bytes, add]

theorem length_bytes (w : Written) :
    w.bytes.length = (w.entries.map fun e => e.bytesIn.length).sum := by
  simp [bytes, List.length_flatMap]

end Written

/-- Short fields take as many bytes as they have. -/
theorem Entry.taken_eq {e : Entry} (short : e.bytesIn.length ≤ 1 <<< maxBits) :
    e.taken = e.bytesIn.length := by
  have small : (1 <<< maxBits) ≤ 0x7FFFFFFF := by decide
  rw [taken]
  omega

theorem Entry.sum_taken_eq {es : List Entry} (short : ∀ e ∈ es, e.bytesIn.length ≤ 1 <<< maxBits) :
    (es.map taken).sum = (es.map fun e => e.bytesIn.length).sum :=
  congrArg List.sum (List.map_congr_left fun e inside => taken_eq (short e inside))

theorem Written.taken_eq {w : Written}
    (short : ∀ e ∈ w.entries, e.bytesIn.length ≤ 1 <<< maxBits) : w.taken = w.bytes.length := by
  rw [taken, length_bytes, Entry.sum_taken_eq short]

namespace Session

/-- No field is longer than a blob can be. -/
abbrev Short (s : Session) : Prop := s.Every fun e => e.bytesIn.length ≤ 1 <<< maxBits

variable {s t : Session}

theorem blobAt_mono (s : Session) {j k : Nat} (h : j ≤ k) : s.blobAt j ≤ s.blobAt k := by
  have split := List.take_append_drop j (s.written.take k)
  rw [List.take_take, Nat.min_eq_left h] at split
  rw [blobAt, blobAt, ← split, List.map_append, List.sum_append]
  omega

/-- The unreleased bytes lie side by side behind those that are given back. -/
theorem unreleasedBytes_eq (short : s.Short) :
    (s.unreleasedBytes : Int) =
      s.blobAt s.written.length + s.current.taken - s.blobAt s.released := by
  have current := Written.taken_eq short.current
  have rest : ((s.written.drop s.released).map fun w => w.bytes.length) =
      (s.written.drop s.released).map Written.taken :=
    List.map_congr_left fun w member =>
      (Written.taken_eq (short.written w (List.mem_of_mem_drop member))).symm
  have whole := congrArg (fun ws => (ws.map Written.taken).sum)
    (List.take_append_drop s.released s.written)
  simp only [List.map_append, List.sum_append] at whole
  rw [unreleasedBytes, rest, blobAt, blobAt, List.take_length]
  omega

theorem unreleasedBytes_le (extra : Nat) (short : s.Short) (short' : t.Short)
    (start : t.blobStart = s.blobStart) (grows : s.released ≤ t.released)
    (same : t.written.take s.released = s.written.take s.released)
    (ends : t.blobAt t.written.length + t.current.taken ≤
      s.blobAt s.written.length + s.current.taken + extra) :
    t.unreleasedBytes ≤ s.unreleasedBytes + extra := by
  have before := unreleasedBytes_eq short
  have after := unreleasedBytes_eq short'
  have place := blobAt_eq_of_take start same (Nat.le_refl _)
  have later := t.blobAt_mono grows
  omega

/-! ## The bytes that are not given back -/

/-- How far a call of the writer moves the end of the bytes: behind a field that it adds, and
elsewhere no further. -/
theorem WriterChange.blobEnd_le {a : Action} (h : s.WriterAt s.published)
    (change : s.WriterChange a t) :
    t.blobAt t.written.length + t.current.taken ≤ s.blobAt s.written.length + s.current.taken ∨
      ∃ w e blob, a = .put w ∧ w.Stores s.pipe e blob ∧
        t.blobAt t.written.length + t.current.taken =
          s.blobAt s.written.length + s.current.taken + e.taken := by
  cases change with
  | asked => exact .inl (Int.le_refl _)
  | begun idle =>
    rw [current_of_idle idle]
    exact .inl (Int.le_refl _)
  | nested idle =>
    rw [current_of_idle idle]
    exact .inl (Int.le_refl _)
  | @put w e d blob isOpen draft unconfirmed fits stores =>
    refine .inr ⟨w, e, blob, rfl, stores, ?_⟩
    rw [current_of_draft draft]
    show s.blobAt s.written.length + ((d.content.add e).taken : Int) = _
    rw [Written.taken_add]
    omega
  | aside => exact .inl (Int.le_refl _)
  | confirmed draft =>
    rw [current_of_draft draft]
    exact .inl (Int.le_refl _)
  | @published d draft =>
    have last := (blobAt_append (s := s) (t := { s with
      pipe := s.pipe.putByteCount.publishBatched
      written := s.written ++ [d.content]
      draft := none }) rfl rfl).2
    rw [last, current_of_draft draft]
    exact .inl (Int.le_of_eq (Int.add_zero _))
  | flushed => exact .inl (Int.le_refl _)
  | abandoned =>
    have last : s.abandonAll.blobAt s.abandonAll.written.length = s.blobAt s.published := by
      rw [h.length_abandonAll]
      exact blobAt_eq_of_take rfl s.take_abandonAll (Nat.le_refl _)
    have before := s.blobAt_mono h.visible_le
    have empty : (s.abandonAll.current.taken : Int) = 0 := rfl
    rw [last, empty]
    exact .inl (by omega)
  | finished idle =>
    have last := (blobAt_append (s := s) (t := { s with
      pipe := s.pipe.ended
      written := s.written ++ [Written.endMark] }) rfl rfl).2
    have empty : (Written.endMark.taken : Int) = 0 := rfl
    rw [last, empty, Int.add_zero]
    exact .inl (Int.le_refl _)

/-- The unreleased bytes go around the blob at most once. -/
structure Roomy (s : Session) : Prop where
  short : s.Short
  room : s.unreleasedBytes ≤ s.pipe.store.blob.size

theorem Roomy.change {a : Action} (i : s.Roomy) (h : s.Recorded) (change : s.Change a t)
    (kept : fitting s a) : t.Roomy := by
  have size := change.sameCapacity.blob
  have start := change.sameCapacity.blobStart
  have grows := (h.aligned.change change).2
  have room := i.room
  have common : t.written.take s.released = s.written.take s.released :=
    take_eq_of_take (h.aligned.front change).2
      (Nat.le_trans h.aligned.2.given_le h.aligned.2.received_le)
  rcases change with writes | reads
  · have short : t.Short := by
      refine i.short.change writes ?_
      rintro w e blob rfl stores
      have fits := kept stores.accepted
      have inside := stores.length_le
      have small := s.pipe.store.config.blobSize_le
      omega
    refine ⟨short, ?_⟩
    rcases writes.blobEnd_le h.aligned.1 with same | ⟨w, e, blob, rfl, stores, same⟩
    · have total := unreleasedBytes_le 0 i.short short start grows common (by omega)
      omega
    · have fits := kept stores.accepted
      have inside := stores.length_le
      have small := s.pipe.store.config.blobSize_le
      have taken := Entry.taken_eq (e := e) (by omega)
      have total := unreleasedBytes_le _ i.short short start grows common (Int.le_of_eq same)
      rw [size, h.size]
      omega
  · have side := reads.sameWriter
    have short := i.short.of_read side
    have total := unreleasedBytes_le 0 i.short short start grows common
      (by rw [side.blobAt, side.written, side.current]; omega)
    exact ⟨short, by omega⟩

/-! ## The bytes in the blob -/

/-- The bytes of what is not given back lie in the blob as they were written. -/
structure Intact (s : Session) : Prop where
  records : ∀ k w, s.written[k]? = some w → s.released ≤ k →
    s.pipe.store.blob.Holds (s.blobAt k) w.bytes
  opening : s.pipe.store.blob.Holds (s.blobAt s.written.length) s.current.bytes

/-- The blob head is right behind the bytes of the open fragment. -/
theorem Recorded.head_emod (h : s.Recorded) :
    s.pipe.producer.blobHead % (s.pipe.store.blob.size : Int) =
      (s.blobAt s.written.length + s.current.taken) % (s.pipe.store.blob.size : Int) := by
  rw [h.blob.head, Int.emod_emod_of_dvd _ h.turn]

/-- What is stored behind what is recorded, within one turn of the released bytes, touches none of
the bytes that are not given back. -/
theorem get_of_sameOutside {byte : Int} {blob : Ring UInt8} {reach : Nat}
    (head : s.pipe.producer.blobHead % (s.pipe.store.blob.size : Int) =
      byte % (s.pipe.store.blob.size : Int))
    (behind : s.blobAt s.written.length + s.current.taken ≤ byte)
    (room : byte + reach ≤ s.blobAt s.released + s.pipe.store.blob.size)
    (within : s.pipe.store.blob.SameOutside blob s.pipe.producer.blobHead reach) :
    ∀ x, s.blobAt s.released ≤ x → x < s.blobAt s.written.length + s.current.taken →
      blob.get x = s.pipe.store.blob.get x := by
  intro x low high
  exact within.get_of_before head (by omega) (by omega)

theorem Recorded.get_of_sameOutside {blob : Ring UInt8} {reach : Nat} (h : s.Recorded)
    (short : s.Short) (fits : s.unreleasedBytes + reach ≤ s.pipe.store.blob.size)
    (within : s.pipe.store.blob.SameOutside blob s.pipe.producer.blobHead reach) :
    ∀ x, s.blobAt s.released ≤ x → x < s.blobAt s.written.length + s.current.taken →
      blob.get x = s.pipe.store.blob.get x := by
  have bytes_eq := unreleasedBytes_eq short
  exact Session.get_of_sameOutside h.head_emod (Int.le_refl _) (by omega) within

/-- The bytes of a fragment that is not given back lie before the end of the open one. -/
theorem bytes_within {k : Nat} {w : Written} (short : s.Short) (found : s.written[k]? = some w)
    (behind : s.released ≤ k) :
    s.blobAt s.released ≤ s.blobAt k ∧
      s.blobAt k + w.bytes.length ≤ s.blobAt s.written.length + s.current.taken := by
  obtain ⟨inside, -⟩ := List.getElem?_eq_some_iff.mp found
  have ends := blobAt_succ found
  have later : s.blobAt (k + 1) ≤ s.blobAt s.written.length := s.blobAt_mono inside
  have length := Written.taken_eq (short.written w (List.mem_of_getElem? found))
  exact ⟨s.blobAt_mono behind, by omega⟩

/-- The fragments that are not given back keep their bytes. -/
theorem Intact.kept (i : s.Intact) (short : s.Short) {blob : Ring UInt8}
    (same : ∀ x, s.blobAt s.released ≤ x → x < s.blobAt s.written.length + s.current.taken →
      blob.get x = s.pipe.store.blob.get x) {k : Nat} {w : Written}
    (found : s.written[k]? = some w) (behind : s.released ≤ k) : blob.Holds (s.blobAt k) w.bytes := by
  obtain ⟨lower, upper⟩ := bytes_within short found behind
  exact (i.records k w found behind).of_same fun x low high =>
    same x (Int.le_trans lower low) (Int.lt_of_lt_of_le high upper)

/-- So does the open one. -/
theorem Intact.opened (i : s.Intact) (short : s.Short) (aligned : s.Aligned) {blob : Ring UInt8}
    (same : ∀ x, s.blobAt s.released ≤ x → x < s.blobAt s.written.length + s.current.taken →
      blob.get x = s.pipe.store.blob.get x) :
    blob.Holds (s.blobAt s.written.length) s.current.bytes := by
  have before := s.blobAt_mono aligned.released_le
  have length := Written.taken_eq short.current
  exact i.opening.of_same fun x low high => same x (by omega) (by omega)

/-- A finished fragment lies in the blob behind the ones before it. -/
theorem Intact.append {w : Written} (i : s.Intact) (start : t.blobStart = s.blobStart)
    (written : t.written = s.written ++ [w]) (closed : t.draft = none)
    (blob : t.pipe.store.blob = s.pipe.store.blob) (grows : s.released ≤ t.released)
    (last : s.pipe.store.blob.Holds (s.blobAt s.written.length) w.bytes) : t.Intact := by
  obtain ⟨place, -⟩ := blobAt_append start written
  constructor
  · intro k w' found behind
    rw [blob]
    rw [written] at found
    rcases getElem?_append_singleton found with ⟨inside, before⟩ | ⟨rfl, rfl⟩
    · rw [place k (Nat.le_of_lt inside)]
      exact i.records k w' before (Nat.le_trans grows behind)
    · rw [place _ (Nat.le_refl _)]
      exact last
  · rw [current_of_idle closed]
    exact Ring.holds_nil _ _

theorem Intact.write {a : Action} (i : s.Intact) (short : s.Short) (h : s.Recorded)
    (change : s.WriterChange a t) (kept : lossless s a) : t.Intact := by
  have grows := (h.aligned.change (.inl change)).2
  have opening := i.opening
  have records : ∀ k w, s.written[k]? = some w → t.released ≤ k →
      s.pipe.store.blob.Holds (s.blobAt k) w.bytes :=
    fun k w found behind => i.records k w found (Nat.le_trans grows behind)
  cases change with
  | asked => exact ⟨records, opening⟩
  | begun idle => exact ⟨records, Ring.holds_nil _ _⟩
  | nested idle => exact ⟨records, Ring.holds_nil _ _⟩
  | @put w e d blob isOpen draft unconfirmed space stores =>
    have fits : s.unreleasedBytes + w.reach s.pipe ≤ s.pipe.store.blob.size := by
      rw [h.size]
      exact kept.2
    have same := h.get_of_sameOutside short fits stores.within
    have before := i.opened short h.aligned same
    have current := Written.taken_eq short.current
    have size := stores.within.size
    have inside := stores.length_le
    have added := (stores.held (by omega)).congr (size ▸ h.head_emod)
    rw [current] at added
    rw [current_of_draft draft] at before added
    refine ⟨fun k w found behind => i.kept short same found (Nat.le_trans grows behind), ?_⟩
    show Ring.Holds _ _ (d.content.add e).bytes
    rw [Written.bytes_add]
    exact Ring.holds_append.mpr ⟨before, added⟩
  | @aside w blob average isOpen events cause within moved =>
    have fits : s.unreleasedBytes + w.reach s.pipe ≤ s.pipe.store.blob.size := by
      rw [h.size]
      exact kept.2
    have same := h.get_of_sameOutside short fits within
    rw [Pipe.withField_nil] at grows ⊢
    exact ⟨fun k w found behind => i.kept short same found (Nat.le_trans grows behind),
      i.opened short h.aligned same⟩
  | confirmed draft =>
    rw [current_of_draft draft] at opening
    exact ⟨records, opening⟩
  | published draft =>
    rw [current_of_draft draft] at opening
    refine i.append rfl rfl rfl ?_ grows opening
    obtain ⟨_, _, _, _, _, _, moved⟩ := s.pipe.putByteCount.publishBatched_eq
    rw [moved]
    rfl
  | flushed =>
    obtain ⟨_, _, moved⟩ := s.pipe.flushPublished_eq
    rw [moved] at records ⊢
    exact ⟨records, opening⟩
  | abandoned =>
    refine ⟨?_, Ring.holds_nil _ _⟩
    intro k w found behind
    obtain ⟨inside, before⟩ := getElem?_abandonAll found
    have place : s.abandonAll.blobAt k = s.blobAt k :=
      blobAt_eq_of_take rfl s.take_abandonAll (Nat.le_of_lt inside)
    rw [place]
    exact records k w before behind
  | finished idle => exact i.append rfl rfl idle rfl grows (Ring.holds_nil _ _)

theorem Intact.of_read (i : s.Intact) (side : s.SameWriter t) (grows : s.released ≤ t.released) :
    t.Intact := by
  constructor
  · intro k w found behind
    rw [side.blob, side.blobAt]
    rw [side.written] at found
    exact i.records k w found (Nat.le_trans grows behind)
  · rw [side.blob, side.blobAt, side.written, side.current]
    exact i.opening

theorem Intact.change {a : Action} (i : s.Intact) (short : s.Short) (h : s.Recorded)
    (change : s.Change a t) (kept : lossless s a) : t.Intact := by
  have grows := (h.aligned.change change).2
  rcases change with writes | reads
  · exact i.write short h writes kept
  · exact i.of_read reads.sameWriter grows

end Session

end FragmentPipe
