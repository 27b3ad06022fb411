import FragmentPipe.Proofs.Transfer.Unreleased

/-!
The room of a streamed field. The room is counted once, when the field is opened, from the positions
of the pipe on the circle of the blob. Whatever is written then goes through one store that checks the
room, so what is written and what can still be written add up to it. Main statement:
`stream_spares_iff`, a streamed field spares the unreleased bytes if and only if they do not fill the
blob when it is opened: a full blob passes for an empty one.
-/

namespace FragmentPipe

namespace FieldWriter

/-- The stream after several writes, of which each may fail. -/
def writeAll (w : FieldWriter) (chunks : List Chunk) : FieldWriter := chunks.foldl Chunk.write w

/-! ## Within the room -/

/-- All that writing comes to: bytes are stored behind those written before, within the room. -/
structure Within (w v : FieldWriter) : Prop where
  grows : w.Extends v
  written_le : v.written ≤ v.room

variable {w v : FieldWriter} {p q : Pipe}

theorem Within.put (h : w.Within v) (bytes : List UInt8) : w.Within (v.put bytes).2 := by
  refine ⟨h.grows.trans (v.extends_put bytes), ?_⟩
  have inside := h.written_le
  unfold FieldWriter.put
  split
  · exact inside
  · next fits =>
    unfold remaining at fits
    show v.written + bytes.length ≤ v.room
    omega

theorem Within.writeAll (h : w.Within v) (chunks : List Chunk) : w.Within (v.writeAll chunks) := by
  induction chunks generalizing v with
  | nil => exact h
  | cons chunk rest ih => exact ih (chunk.write_induction (fun _ bytes h => h.put bytes) h)

/-! ## The room -/

/-- A stream that is opened at the blob head, with room for all but one of the bytes that the pipe
takes for free. -/
structure OpensOn (w : FieldWriter) (p : Pipe) : Prop where
  blob : w.pipe.store.blob = p.store.blob
  tail : w.pipe.store.blobTail = p.store.blobTail
  head : w.pipe.producer.blobHead = p.producer.blobHead
  start : w.start = p.producer.blobHead
  written : w.written = 0
  room : (w.room : Int) + p.bytesOfContent + 1 = p.store.blob.size

theorem opensOn_of_openStream (opened : p.openStream = (.ok w, q)) : w.OpensOn p := by
  obtain ⟨rfl, rfl⟩ := Pipe.openStream_ok opened
  refine ⟨rfl, rfl, rfl, rfl, rfl, ?_⟩
  obtain ⟨low, high⟩ := p.bytesOfContent_bounds
  show ((p.store.blob.size - (p.bytesOfContent.toNat + 1) : Nat) : Int) + p.bytesOfContent + 1 = _
  omega

theorem OpensOn.begun (o : w.OpensOn p) : w.Within w :=
  ⟨.refl w, by rw [o.written]; exact Nat.zero_le _⟩

/-- What is written fits in the room. -/
theorem Within.length_le {bytes : List UInt8} (o : w.OpensOn p) (within : w.Within (w.stored bytes)) :
    bytes.length ≤ w.room := by
  have inside : w.written + bytes.length ≤ w.room := within.written_le
  rwa [o.written, Nat.zero_add] at inside

end FieldWriter

namespace Pipe.Unreleased

variable {p r : Pipe} {w v : FieldWriter} {released reached n : Int}

/-- The pipe counts its unreleased bytes up to whole turns. -/
theorem bytesOfContent_eq (u : p.Unreleased released reached) :
    p.bytesOfContent = (reached - released) % (p.store.blob.size : Int) := by
  rw [Pipe.bytesOfContent_eq, Int.sub_emod, u.head, u.tail, ← Int.sub_emod]

/-- The room ends one byte before the unreleased bytes begin again, unless they fill the blob. -/
theorem room_eq (u : p.Unreleased released reached) (o : w.OpensOn p)
    (part : reached - released < p.store.blob.size) :
    (w.room : Int) = p.store.blob.size - (reached - released) - 1 := by
  have le := u.le
  have room := o.room
  rw [u.bytesOfContent_eq, Int.emod_eq_of_lt (by omega) part] at room
  omega

/-- In a full blob the room is that of an empty one. -/
theorem room_eq_of_full (u : p.Unreleased released reached) (o : w.OpensOn p)
    (full : reached - released = p.store.blob.size) : w.room + 1 = p.store.blob.size := by
  have room := o.room
  rw [u.bytesOfContent_eq, full, Int.emod_self] at room
  omega

/-- What stays within the room spares the unreleased bytes of a blob that is not full. -/
theorem get_of_within (u : p.Unreleased released reached) (o : w.OpensOn p)
    (part : reached - released < p.store.blob.size) (within : w.Within v) {x : Int}
    (low : released ≤ x) (high : x < reached) : v.pipe.store.blob.get x = p.store.blob.get x := by
  have room := u.room_eq o part
  obtain ⟨bytes, rfl⟩ := within.grows
  have fits := within.length_le o
  have stored := p.store.blob.sameOutside_setList p.producer.blobHead bytes
  show (w.pipe.store.blob.setList (w.start + w.written) bytes).get x = _
  rw [o.blob, o.start, o.written, Int.natCast_zero, Int.add_zero]
  exact stored.get_of_before u.head high (by omega)

/-- In a full blob of more than one byte the first byte that is written is the first unreleased
one. -/
theorem get_of_full (u : p.Unreleased released reached) (o : w.OpensOn p)
    (full : reached - released = p.store.blob.size) (more : 1 < p.store.blob.size) (byte : UInt8) :
    (w.put [byte]).2.pipe.store.blob.get released = byte := by
  have room := u.room_eq_of_full o full
  have written := o.written
  have fits : ¬w.remaining < [byte].length := by
    show ¬w.room - w.written < 1
    omega
  rw [FieldWriter.put, if_neg fits]
  show (w.pipe.store.blob.set (w.start + w.written) byte).get released = byte
  refine w.pipe.store.blob.get_set_self byte ?_
  -- A full turn leads from the first unreleased byte to the blob head.
  have turn : reached = released + p.store.blob.size := by omega
  rw [Ring.index_eq_iff, o.blob, o.start, o.written, Int.natCast_zero, Int.add_zero, u.head, turn,
    Int.add_emod_right]

/-- A blob of one byte has no room at all. -/
theorem blob_of_single (o : w.OpensOn p) (single : p.store.blob.size = 1) (within : w.Within v) :
    v.pipe.store.blob = p.store.blob := by
  obtain ⟨bytes, rfl⟩ := within.grows
  have fits := within.length_le o
  have content := p.bytesOfContent_bounds.1
  have room := o.room
  rw [List.eq_nil_of_length_eq_zero (by omega : bytes.length = 0)]
  exact o.blob

/-- A finished stream leaves its bytes unreleased. -/
theorem finish (u : p.Unreleased released reached) (small : p.store.blob.bits ≤ maxBits)
    (o : w.OpensOn p) (within : w.Within v) (finished : v.finish = (.ok n, r)) :
    n = v.written ∧ r.store.blob.size = p.store.blob.size ∧ r.Unreleased released (reached + n) := by
  obtain ⟨bytes, rfl⟩ := within.grows
  obtain ⟨rfl, -, rfl⟩ := Pipe.finish_ok finished
  have size : (w.pipe.store.blob.setList (w.start + w.written) bytes).size = p.store.blob.size := by
    rw [Ring.size_setList, o.blob]
  refine ⟨rfl, size, u.advance (Ring.size_dvd_blobSpan small) size o.tail ?_⟩
  show (w.pipe.producer.blobHead + _) % blobSpan = _
  rw [o.head]

end Pipe.Unreleased

/-! ## Streams and unreleased bytes -/

/-- What is written to a stream and what still can be written add up to the room. Nothing that is
written changes an unreleased byte, exactly if the unreleased bytes do not fill the blob when the
stream is opened, or fill one of a single byte, which leaves no room. A finished stream leaves a byte
free exactly if there was one. -/
theorem stream_spares_iff {p q : Pipe} {w : FieldWriter} {released reached : Int}
    (small : p.store.blob.bits ≤ maxBits) (u : p.Unreleased released reached)
    (fits : reached - released ≤ p.store.blob.size) (opened : p.openStream = (.ok w, q)) :
    (∀ chunks, (w.writeAll chunks).written ≤ (w.writeAll chunks).room ∧
      (w.writeAll chunks).written + (w.writeAll chunks).remaining = w.room) ∧
    ((∀ chunks x, released ≤ x → x < reached →
        (w.writeAll chunks).pipe.store.blob.get x = p.store.blob.get x) ↔
      reached - released < p.store.blob.size ∨ p.store.blob.size = 1) ∧
    ∀ chunks n r, (w.writeAll chunks).finish = (.ok n, r) →
      r.Unreleased released (reached + n) ∧
        (reached + n - released < r.store.blob.size ↔
          reached - released < p.store.blob.size) := by
  have o := FieldWriter.opensOn_of_openStream opened
  have within := fun chunks => o.begun.writeAll chunks
  refine ⟨?_, ?_, ?_⟩
  · intro chunks
    obtain ⟨bytes, stored⟩ := (within chunks).grows
    have inside := (within chunks).written_le
    rw [stored] at inside ⊢
    exact ⟨inside, Nat.add_sub_cancel' inside⟩
  · constructor
    · intro spared
      have positive := p.store.blob.size_pos
      refine Decidable.byContradiction fun full => ?_
      have kept := fun byte => spared [.item (.bytes [byte])] released (Int.le_refl _) (by omega)
      have hit := u.get_of_full o (by omega) (by omega)
      -- Two different bytes can not both be the one that lay there.
      exact absurd ((hit 0).symm.trans ((kept 0).trans ((kept 1).symm.trans (hit 1)))) (by decide)
    · rintro (part | single) chunks x low high
      · exact u.get_of_within o part (within chunks) low high
      · rw [Pipe.Unreleased.blob_of_single o single (within chunks)]
  · intro chunks n r finished
    obtain ⟨rfl, size, after⟩ := u.finish small o (within chunks) finished
    refine ⟨after, ?_⟩
    rw [size]
    constructor
    · intro part
      omega
    · intro part
      have room := u.room_eq o part
      obtain ⟨bytes, stored⟩ := (within chunks).grows
      have inside := (within chunks).written_le
      rw [stored] at inside ⊢
      change (w.stored bytes).written ≤ w.room at inside
      omega

/-- Behind 3 unreleased bytes of 64 a stream may be written as one likes, behind 64 it may not. -/
theorem stream_spares_iff_sample :
    ∃ s t w v, play anyCall (Session.start notePipe) (noteSample 3) = some s ∧
      play anyCall (Session.start notePipe) (noteSample 64) = some t ∧
      s.pipe.openStream.1 = .ok w ∧ t.pipe.openStream.1 = .ok v ∧
      (∀ chunks x, 0 ≤ x → x < 3 →
        (w.writeAll chunks).pipe.store.blob.get x = s.pipe.store.blob.get x) ∧
      ¬∀ chunks x, 0 ≤ x → x < 64 →
        (v.writeAll chunks).pipe.store.blob.get x = t.pipe.store.blob.get x := by
  have evaluated : ∀ count ∈ [3, 64],
      (play anyCall (Session.start notePipe) (noteSample count)).any fun s =>
        s.blobAt s.released = 0 ∧
        s.blobAt s.written.length + (s.current.taken : Int) = (count : Int) ∧
        s.pipe.store.blob.size = 64 ∧ s.pipe.store.blob.bits ≤ maxBits ∧
        s.pipe.openStream.1.toOption.isSome := by decide +kernel
  obtain ⟨s, played, checked⟩ := (Option.any_eq_true ..).mp (evaluated 3 (by decide))
  obtain ⟨t, played', checked'⟩ := (Option.any_eq_true ..).mp (evaluated 64 (by decide))
  obtain ⟨low, high, size, small, fine⟩ := of_decide_eq_true checked
  obtain ⟨low', high', size', small', fine'⟩ := of_decide_eq_true checked'
  obtain ⟨w, opens⟩ := Option.isSome_iff_exists.mp fine
  obtain ⟨v, opens'⟩ := Option.isSome_iff_exists.mp fine'
  have opened := eq_ok_of_toOption opens
  have opened' := eq_ok_of_toOption opens'
  have u := Session.unreleased_of_reaches (.opened open?_note) (Reaches.of_play played)
  have u' := Session.unreleased_of_reaches (.opened open?_note) (Reaches.of_play played')
  rw [low, high] at u
  rw [low', high'] at u'
  obtain ⟨-, spares, -⟩ := stream_spares_iff small u (by rw [size]; decide) (Prod.ext opened rfl)
  obtain ⟨-, spares', -⟩ :=
    stream_spares_iff small' u' (by rw [size']; decide) (Prod.ext opened' rfl)
  rw [size] at spares
  rw [size'] at spares'
  exact ⟨s, t, w, v, played, played', opened, opened', spares.mpr (by decide),
    fun spared => absurd (spares'.mp spared) (by decide)⟩

/-- Where 64 unreleased bytes fill the blob, a stream still has room for 63. A byte that is written to
it changes the first unreleased one, and the stream is finished with 65 bytes unreleased. -/
theorem full_blob_has_room :
    (play anyCall (Session.start notePipe) (noteSample 64)).any fun s =>
      s.released = 0 ∧ s.blobAt s.written.length + (s.current.taken : Int) = 64 ∧
      s.pipe.store.blob.size = 64 ∧ s.pipe.store.blob.get 0 = 1 ∧
      s.pipe.openStream.1.toOption.any fun w =>
        w.remaining = 63 ∧ (w.writeAll [.item (.bytes [9])]).pipe.store.blob.get 0 = 9 ∧
        (w.writeAll [.item (.bytes [9])]).finish.1.toOption = some 1 := by
  decide +kernel

end FragmentPipe
