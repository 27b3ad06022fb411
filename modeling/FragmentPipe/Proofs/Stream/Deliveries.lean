import FragmentPipe.Proofs.Stream.Fetches

/-!
Fields whose bytes come from outside: in pieces, from a stream, or from a view of another pipe. Main
statements: `Pipe.putFromStreamBy_eq`, how many bytes a stream is asked for at a time makes no
difference, and `put_however_delivered`, a field is the same as if its bytes had been at hand.
-/

namespace FragmentPipe

namespace Pipe

/-! ## What a stream delivers -/

namespace Delivery

/-- The bytes that a stream delivers, and what ends it: a failure that it reports, or that nothing
more comes. To ask to be called again ends nothing. -/
def content : List Delivery → List UInt8 × StreamFault
  | [] => ([], .unexpectedEnd)
  | .data bytes :: rest => (bytes ++ (content rest).1, (content rest).2)
  | .interrupted :: rest => content rest
  | .failure message :: _ => ([], .reported message)

end Delivery

variable {source rest : List Delivery} {count : Nat}

/-- What is taken are the first bytes, as far as there are any. -/
theorem takeFrom_fst (source : List Delivery) (count : Nat) :
    (takeFrom source count).1 = (Delivery.content source).1.take count := by
  fun_induction takeFrom source count with
  | case1 source => rfl
  | case2 count wanted => exact List.take_nil.symm
  | case3 count wanted rest ih => exact ih
  | case4 count wanted message rest => exact List.take_nil.symm
  | case5 count wanted bytes rest short =>
    exact (List.take_append_of_le_length (Nat.le_of_lt short)).symm
  | case6 count wanted bytes rest long more ih =>
    rw [Delivery.content, List.take_append, List.take_of_length_le (Nat.le_of_not_lt long)]
    exact congrArg (bytes ++ ·) ih

/-- A failure is what ends a stream of too few bytes. -/
theorem takeFrom_fault (source : List Delivery) (count : Nat) :
    (takeFrom source count).2.1 =
      if count ≤ (Delivery.content source).1.length then none
      else some (Delivery.content source).2 := by
  fun_induction takeFrom source count with
  | case1 source => exact (if_pos (Nat.zero_le _)).symm
  | case2 count wanted => exact (if_neg (Nat.not_le_of_lt (Nat.pos_of_ne_zero wanted))).symm
  | case3 count wanted rest ih => exact ih
  | case4 count wanted message rest =>
    exact (if_neg (Nat.not_le_of_lt (Nat.pos_of_ne_zero wanted))).symm
  | case5 count wanted bytes rest short =>
    rw [Delivery.content, List.length_append, if_pos (by omega)]
  | case6 count wanted bytes rest long more ih =>
    have reach : count - bytes.length ≤ (Delivery.content rest).1.length ↔
        count ≤ bytes.length + (Delivery.content rest).1.length := Nat.sub_le_iff_le_add'
    simp only [reach] at ih
    rw [Delivery.content, List.length_append]
    exact ih

/-- Exactly the bytes asked for are taken from a stream that has as many; it goes on with the others
and ends as before. -/
theorem content_takeFrom (enough : count ≤ (Delivery.content source).1.length) :
    Delivery.content (takeFrom source count).2.2 =
      ((Delivery.content source).1.drop count, (Delivery.content source).2) := by
  fun_induction takeFrom source count with
  | case1 source => rfl
  | case2 count wanted => exact absurd (Nat.le_zero.mp enough) wanted
  | case3 count wanted rest ih => exact ih enough
  | case4 count wanted message rest => exact absurd (Nat.le_zero.mp enough) wanted
  | case5 count wanted bytes rest short =>
    rw [Delivery.content, Delivery.content, List.drop_append_of_le_length (Nat.le_of_lt short)]
  | case6 count wanted bytes rest long more ih =>
    rw [Delivery.content, List.length_append] at enough
    rw [Delivery.content, List.drop_append, List.drop_of_length_le (Nat.le_of_not_lt long),
      List.nil_append]
    exact ih (Nat.sub_le_iff_le_add'.mpr enough)

/-! ## Requests -/

namespace Delivery

/-- Asks a stream for at most `want` bytes: what it does, and what it has left. It hands out no more
than its first data, empty ones passed over, and none only at its end. -/
def ask (want : Nat) : List Delivery → Delivery × List Delivery
  | [] => (.data [], [])
  | .data [] :: rest => ask want rest
  | .data (b :: bytes) :: rest =>
    if want < (b :: bytes).length then
      (.data ((b :: bytes).take want), .data ((b :: bytes).drop want) :: rest)
    else (.data (b :: bytes), rest)
  | .interrupted :: rest => (.interrupted, rest)
  | .failure message :: rest => (.failure message, rest)

/-- That no bytes come means the end of the stream. -/
theorem eq_nil_of_ask {want : Nat} (positive : 0 < want) {source rest : List Delivery}
    (asked : ask want source = (.data [], rest)) : rest = [] := by
  fun_induction ask want source with
  | case1 =>
    cases asked
    rfl
  | case2 later ih => exact ih asked
  | case3 b bytes later short =>
    have part : (b :: bytes).take want = [] := Delivery.data.inj (congrArg Prod.fst asked)
    cases List.take_eq_nil_iff.mp part with
    | inl zero => omega
    | inr nothing => cases nothing
  | case4 b bytes later long => cases asked
  | case5 later => cases asked
  | case6 message later => cases asked

/-- A stream asks only so often to be called again. -/
theorem length_ask_lt {want : Nat} {source rest : List Delivery}
    (asked : ask want source = (.interrupted, rest)) : rest.length < source.length := by
  fun_induction ask want source with
  | case1 => cases asked
  | case2 later ih => exact Nat.lt_succ_of_lt (ih asked)
  | case3 b bytes later short => cases asked
  | case4 b bytes later long => cases asked
  | case5 later =>
    cases asked
    exact Nat.lt_succ_self _
  | case6 message later => cases asked

/-- No more bytes come than asked for. -/
theorem length_le_of_ask {want : Nat} {source rest : List Delivery} {bytes : List UInt8}
    (asked : ask want source = (.data bytes, rest)) : bytes.length ≤ want := by
  fun_induction ask want source with
  | case1 =>
    cases asked
    exact Nat.zero_le _
  | case2 later ih => exact ih asked
  | case3 b more later short =>
    cases asked
    exact List.length_take_le ..
  | case4 b more later long =>
    cases asked
    exact Nat.le_of_not_lt long
  | case5 later => cases asked
  | case6 message later => cases asked

end Delivery

/-- Stores from a position on what a stream delivers, until `remaining` bytes have come, and asks for
at most `most` of them at a time: what ended the stream too early, if anything did, what it has left,
and the blob. -/
def storeRequests (most : Nat) (blob : Ring UInt8) (position : Int) (remaining : Nat)
    (source : List Delivery) : Option StreamFault × List Delivery × Ring UInt8 :=
  if remaining = 0 then (none, source, blob)
  else
    match _ : Delivery.ask (min remaining most) source with
    | (.data [], rest) => (some .unexpectedEnd, rest, blob)
    | (.data (b :: bytes), rest) =>
      storeRequests most (ByteStore.putList blob position (b :: bytes))
        (position + (b :: bytes).length) (remaining - (b :: bytes).length) rest
    | (.interrupted, rest) => storeRequests most blob position remaining rest
    | (.failure message, rest) => (some (.reported message), rest, blob)
-- Bytes that come count down what remains; a request made again finds a shorter stream.
termination_by (remaining, source.length)
decreasing_by
  · exact Prod.Lex.left _ _ (by rw [List.length_cons]; omega)
  · exact Prod.Lex.right _ (Delivery.length_ask_lt (by assumption))

/-- Writes a field of `count` bytes from a stream that is asked for at most `most` bytes at a time. -/
def putFromStreamBy (most : Nat) (p : Pipe) (source : List Delivery) (count : Nat) :
    Except PipeError Unit × List Delivery × Pipe :=
  match p.checkLength (fieldLength count) with
  | (.error e, p) => (.error e, source, p)
  | (.ok _, p) =>
    let (fault, rest, blob) := storeRequests most p.store.blob p.producer.blobHead count source
    let p := { p with store.blob := blob }
    match fault with
    | some fault => (.error (.stream fault), rest, p)
    | none => (.ok (), rest, p.commitField (fieldLength count))

/-! ## Taking by requests -/

theorem takeFrom_data_of_lt {bytes : List UInt8} (rest : List Delivery)
    (short : count < bytes.length) :
    takeFrom (.data bytes :: rest) count = (bytes.take count, none, .data (bytes.drop count) :: rest) := by
  by_cases unwanted : count = 0
  · rw [takeFrom, if_pos unwanted, unwanted, List.take_zero, List.drop_zero]
  · rw [takeFrom, if_neg unwanted, if_pos short]

theorem takeFrom_data_of_le {bytes : List UInt8} (rest : List Delivery) (wanted : count ≠ 0)
    (long : bytes.length ≤ count) :
    takeFrom (.data bytes :: rest) count =
      (bytes ++ (takeFrom rest (count - bytes.length)).1,
        (takeFrom rest (count - bytes.length)).2) := by
  rw [takeFrom, if_neg wanted, if_neg (Nat.not_lt.mpr long)]

theorem takeFrom_data_nil (rest : List Delivery) (wanted : count ≠ 0) :
    takeFrom (.data [] :: rest) count = takeFrom rest count :=
  @takeFrom_data_of_le count [] rest wanted (Nat.zero_le _)

/-- Bytes are taken alike in one part and in two. -/
theorem takeFrom_split {front back : List UInt8} (rest : List Delivery) (wanted : count ≠ 0)
    (within : front.length ≤ count) (more : back ≠ []) :
    takeFrom (.data front :: .data back :: rest) count =
      takeFrom (.data (front ++ back) :: rest) count := by
  rw [takeFrom_data_of_le _ wanted within]
  -- Either the taking stops within the second part, or it goes past both.
  by_cases short : count < (front ++ back).length
  · have behind : count - front.length < back.length := by
      rw [List.length_append] at short
      omega
    rw [takeFrom_data_of_lt rest short, takeFrom_data_of_lt rest behind, List.take_append,
      List.drop_append, List.take_of_length_le within, List.drop_of_length_le within,
      List.nil_append]
  · have both := Nat.le_of_not_lt short
    have length : (front ++ back).length = front.length + back.length := List.length_append
    have positive := List.length_pos_iff.mpr more
    rw [takeFrom_data_of_le rest wanted both, takeFrom_data_of_le rest (by omega) (by omega), length,
      Nat.sub_sub, List.append_assoc]

/-- Bytes are taken alike from a stream that was asked for no more of them before. -/
theorem takeFrom_of_ask {want : Nat} {d : Delivery} (asked : Delivery.ask want source = (d, rest))
    (wanted : count ≠ 0) (within : want ≤ count) :
    takeFrom source count = takeFrom (d :: rest) count := by
  fun_induction Delivery.ask want source with
  | case1 =>
    cases asked
    exact (takeFrom_data_nil [] wanted).symm
  | case2 later ih => rw [← ih asked, takeFrom_data_nil later wanted]
  | case3 b bytes later short =>
    -- The data are more than asked for and are put back in two parts.
    cases asked
    have part : ((b :: bytes).take want).length ≤ count := by
      rw [List.length_take_of_le (Nat.le_of_lt short)]
      exact within
    have more : (b :: bytes).drop want ≠ [] := by
      rw [ne_eq, List.drop_eq_nil_iff]
      omega
    rw [takeFrom_split later wanted part more, List.take_append_drop]
  | case4 b bytes later long =>
    cases asked
    rfl
  | case5 later =>
    cases asked
    rfl
  | case6 message later =>
    cases asked
    rfl

/-- Requests store what is taken, however few bytes each of them is for. -/
theorem storeRequests_eq {most : Nat} (positive : 0 < most) (blob : Ring UInt8) (position : Int)
    (remaining : Nat) (source : List Delivery) :
    storeRequests most blob position remaining source =
      ((takeFrom source remaining).2.1, (takeFrom source remaining).2.2,
        ByteStore.putList blob position (takeFrom source remaining).1) := by
  fun_induction storeRequests most blob position remaining source with
  | case1 blob position source =>
    unfold takeFrom
    rfl
  | case2 blob position remaining source left rest asked =>
    obtain rfl := Delivery.eq_nil_of_ask (by omega) asked
    rw [takeFrom_of_ask asked left (Nat.min_le_left ..), takeFrom_data_nil [] left, takeFrom,
      if_neg left]
    rfl
  | case3 blob position remaining source left b bytes rest asked ih =>
    have within := Nat.le_trans (Delivery.length_le_of_ask asked) (Nat.min_le_left remaining most)
    rw [ih, takeFrom_of_ask asked left (Nat.min_le_left ..), takeFrom_data_of_le rest left within,
      ByteStore.putList_append]
  | case4 blob position remaining source left rest asked ih =>
    rw [ih, takeFrom_of_ask asked left (Nat.min_le_left ..), takeFrom, if_neg left]
  | case5 blob position remaining source left message rest asked =>
    rw [takeFrom_of_ask asked left (Nat.min_le_left ..), takeFrom, if_neg left]
    rfl

/-- How many bytes a stream is asked for at a time makes no difference. -/
theorem putFromStreamBy_eq {most : Nat} (positive : 0 < most) (p : Pipe) (source : List Delivery)
    (count : Nat) : p.putFromStreamBy most source count = p.putFromStream source count := by
  unfold putFromStreamBy putFromStream
  cases p.checkLength (fieldLength count) with
  | mk checked p =>
    cases checked with
    | error e => rfl
    | ok u =>
      -- What is stored and left is the same, so the two ways agree on whether the stream failed.
      have requested := storeRequests_eq positive p.store.blob p.producer.blobHead count source
      dsimp only
      generalize storeRequests most p.store.blob p.producer.blobHead count source = result
        at requested ⊢
      subst requested
      generalize takeFrom source count = taken
      obtain ⟨bytes, fault, rest⟩ := taken
      cases fault with
      | none => rfl
      | some fault => rfl

/-! ## Fields as if of bytes at hand -/

/-- The pieces that bytes come in make no difference to the field, and none are left over. -/
theorem putPieces_eq (p : Pipe) {pieces : List (List UInt8)} (nonempty : pieces.flatten ≠ []) :
    p.putPieces (some pieces) =
      ((p.putBytes pieces.flatten).1, if (p.putBytes pieces.flatten).1.isOk then [] else pieces,
        (p.putBytes pieces.flatten).2) := by
  have positive : pieces.flatten.length ≠ 0 := fun empty => nonempty (List.eq_nil_of_length_eq_zero empty)
  unfold putPieces putBytes putField
  simp only [Option.getD_some, if_neg positive, storePieces_eq, Ring.putList_eq_setList]
  cases p.checkLength (fieldLength pieces.flatten.length) with
  | mk checked p =>
    cases checked with
    | error e => rfl
    | ok u => rfl

/-- A field of as many bytes as a stream delivers, or fewer, is one of its first bytes. -/
theorem putFromStream_of_le {p : Pipe}
    (allowed : p.nextAverage (fieldLength count) ≤ p.store.config.maxAverage)
    (enough : count ≤ (Delivery.content source).1.length) :
    p.putFromStream source count = (.ok (), (takeFrom source count).2.2,
        (p.putBytes ((Delivery.content source).1.take count)).2) ∧
      (p.putBytes ((Delivery.content source).1.take count)).1 = .ok () := by
  have length : ((Delivery.content source).1.take count).length = count :=
    List.length_take_of_le enough
  have fault : (takeFrom source count).2.1 = none := by rw [takeFrom_fault, if_pos enough]
  have taken : takeFrom source count =
      ((Delivery.content source).1.take count, none, (takeFrom source count).2.2) :=
    Prod.ext (takeFrom_fst source count) (Prod.ext fault rfl)
  unfold putFromStream putBytes putField
  dsimp only
  rw [length, checkLength_of_le allowed, taken]
  exact ⟨rfl, rfl⟩

/-- A field of more bytes than a stream delivers is given up for what ends the stream. -/
theorem putFromStream_of_lt {p : Pipe}
    (allowed : p.nextAverage (fieldLength count) ≤ p.store.config.maxAverage)
    (few : (Delivery.content source).1.length < count) :
    (p.putFromStream source count).1 = .error (.stream (Delivery.content source).2) := by
  have fault : (takeFrom source count).2.1 = some (Delivery.content source).2 := by
    rw [takeFrom_fault, if_neg (Nat.not_le_of_lt few)]
  have taken : takeFrom source count = ((Delivery.content source).1.take count,
      some (Delivery.content source).2, (takeFrom source count).2.2) :=
    Prod.ext (takeFrom_fst source count) (Prod.ext fault rfl)
  unfold putFromStream
  rw [checkLength_of_le allowed, taken]

end Pipe

namespace FieldView

/-- A view that was opened and may have been read from or joined with more since. Its length is a
signed 32 bit number. -/
inductive InUse : FieldView → Prop
  | field (p : Pipe) : InUse (openField p).2.1
  | run (backing : Backing) (position : Int) {length : Int} (word : length ≤ Pipe.maxInt) :
    InUse (ofRun backing position length)
  | joined {v : FieldView} (inUse : v.InUse) (p : Pipe)
    (word : (v.addField p).2.1.length ≤ Pipe.maxInt) : InUse (v.addField p).2.1
  | moved {v : FieldView} (inUse : v.InUse) (count : Nat) : InUse (v.advance count)

variable {v : FieldView} {s : Store} {left : List UInt8}

theorem length_openField_le (p : Pipe) : (openField p).2.1.length ≤ Pipe.maxInt := by
  obtain ⟨backing, position, view⟩ := openField_view p
  have word := (p.takeInt.2.takeInt.1).toInt_lt
  rw [view]
  show (p.takeInt.2.takeInt.1).toInt ≤ Pipe.maxInt
  unfold Pipe.maxInt
  omega

/-- A view never has more left than its length. -/
theorem InUse.remaining_le (inUse : v.InUse) :
    v.remaining ≤ v.length.toNat ∧ v.length ≤ Pipe.maxInt := by
  induction inUse with
  | field p => exact ⟨Nat.le_of_eq (FieldView.Opened.field p).remaining_eq, length_openField_le p⟩
  | run backing position word => exact ⟨Nat.le_refl _, word⟩
  | @joined v inUse p word ih =>
    refine ⟨?_, word⟩
    unfold addField
    split
    · exact Nat.le_of_eq (FieldView.Opened.field p).remaining_eq
    · dsimp only
      split
      · show v.remaining + p.takeDescriptor.1.length.toNat ≤
          (v.length + p.takeDescriptor.1.length).toNat
        omega
      · exact ih.1
  | moved inUse count ih => exact ⟨Nat.le_trans (Nat.sub_le ..) ih.1, ih.2⟩

/-- What a view has left shows in it. -/
theorem shows_bytes (turn : (s.blob.size : Int) ∣ wordSpan) (v : FieldView) :
    v.Shows s (v.bytes s v.remaining) :=
  ⟨turn, (length_bytes v s v.remaining).symm, by rw [length_bytes]⟩

/-- A copy is a field of the next bytes, as many as are asked for and there. -/
theorem Shows.copyInto_eq (h : v.Shows s left) (short : (left.length : Int) ≤ Pipe.maxInt)
    (p : Pipe) (limit : Nat) :
    v.copyInto s p limit =
      ((p.putBytes (left.take limit)).1.map fun _ => min limit v.remaining,
        if (p.putBytes (left.take limit)).1.isOk then v.advance (min limit v.remaining) else v,
        (p.putBytes (left.take limit)).2) := by
  have bytes : v.bytes s (min limit v.remaining) = left.take limit := h.read_eq limit
  have length : Pipe.fieldLength (left.take limit).length = (min limit v.remaining : Nat) := by
    rw [List.length_take, ← h.remaining]
    rw [← h.remaining] at short
    unfold Pipe.fieldLength
    omega
  unfold copyInto Pipe.putBytes Pipe.putField
  simp only [bytes, length]
  cases p.checkLength (min limit v.remaining : Nat) with
  | mk checked p =>
    cases checked with
    | error e => rfl
    | ok u => rfl

/-- Behind what is copied lies the rest. -/
theorem Shows.advance_min (h : v.Shows s left) (limit : Nat) :
    (v.advance (min limit v.remaining)).Shows s (left.drop limit) := by
  rw [h.remaining, ← List.length_take]
  exact Shows.advance (by rwa [List.take_append_drop])

end FieldView

/-- It makes no difference how the bytes of a field come, whatever the state of the pipe. Pieces that
are not all empty are written as their bytes at once, and none is left over unless the field is
refused. A stream gives a field of an allowed length exactly if it delivers as many bytes before what
ends it, however few it is asked for at a time; it is the field of the first bytes, and what the
stream has left goes on with the next one. A copy from a view of another pipe is the field of the next
bytes of the view, as many as are asked for and there, which are then behind the view. -/
theorem put_however_delivered (p : Pipe) :
    (∀ pieces : List (List UInt8), pieces.flatten ≠ [] →
      let whole := p.putBytes pieces.flatten
      p.putPieces (some pieces) = (whole.1, if whole.1.isOk then [] else pieces, whole.2)) ∧
    (∀ (source : List Pipe.Delivery) (count : Nat),
      p.nextAverage (Pipe.fieldLength count) ≤ p.store.config.maxAverage →
      let content := Pipe.Delivery.content source
      let written := p.putFromStream source count
      (∀ most : Nat, 0 < most → p.putFromStreamBy most source count = written) ∧
        (written.1 = .ok () ↔ count ≤ content.1.length) ∧
        (written.1 ≠ .ok () → written.1 = .error (.stream content.2)) ∧
        (written.1 = .ok () →
          (written.1, written.2.2) = p.putBytes (content.1.take count) ∧
            Pipe.Delivery.content written.2.1 = (content.1.drop count, content.2))) ∧
    (∀ (v : FieldView) (s : Store) (limit : Nat), v.InUse → s.blob.bits ≤ 32 →
      let left := v.bytes s v.remaining
      let count := min limit v.remaining
      let whole := p.putBytes (left.take limit)
      v.copyInto s p limit =
          (whole.1.map fun _ => count, if whole.1.isOk then v.advance count else v, whole.2) ∧
        (v.advance count).Shows s (left.drop limit)) := by
  refine ⟨fun pieces nonempty => p.putPieces_eq nonempty, ?_, ?_⟩
  · intro source count allowed content written
    refine ⟨fun most positive => Pipe.putFromStreamBy_eq positive p source count, ?_⟩
    by_cases enough : count ≤ content.1.length
    · obtain ⟨stored, whole⟩ := Pipe.putFromStream_of_le allowed enough
      have answer : written.1 = .ok () := congrArg Prod.fst stored
      have pipe : written.2.2 = (p.putBytes (content.1.take count)).2 :=
        congrArg (fun result => result.2.2) stored
      have rest : written.2.1 = (Pipe.takeFrom source count).2.2 :=
        congrArg (fun result => result.2.1) stored
      refine ⟨iff_of_true answer enough, fun failed => absurd answer failed, fun _ => ⟨?_, ?_⟩⟩
      · rw [answer, pipe, ← whole]
      · rw [rest, Pipe.content_takeFrom enough]
    · have answer : written.1 = .error (.stream content.2) :=
        Pipe.putFromStream_of_lt allowed (Nat.lt_of_not_le enough)
      have failed : written.1 ≠ .ok () := by
        rw [answer]
        exact nofun
      exact ⟨iff_of_false failed enough, fun _ => answer, fun stored => absurd stored failed⟩
  · intro v s limit inUse small
    have shown := FieldView.shows_bytes (Ring.size_dvd small) v
    have short : ((v.bytes s v.remaining).length : Int) ≤ Pipe.maxInt := by
      have bound := inUse.remaining_le
      rw [FieldView.length_bytes]
      unfold Pipe.maxInt at bound ⊢
      omega
    exact ⟨shown.copyInto_eq short p limit, shown.advance_min limit⟩

/-- Five bytes that go around the ring, once in pieces, once from a stream that is interrupted and
goes on behind them, and once from a view of a pipe that has one more. -/
theorem put_however_delivered_sample :
    let p := samplePipe
    let s := { p.store with blob := ByteStore.putList p.store.blob 29 [1, 2, 3, 4, 5, 6] }
    let v := FieldView.ofRun .blob 29 6
    let source : List Pipe.Delivery :=
      [.data [1, 2], .interrupted, .data [], .data [3, 4, 5, 6], .failure "gone"]
    let whole := p.putBytes [1, 2, 3, 4, 5]
    whole.1 = .ok () ∧
      p.putPieces (some [[1, 2], [3], [4, 5]]) = (whole.1, [], whole.2) ∧
      (p.putFromStreamBy 2 source 5).1 = .ok () ∧ (p.putFromStreamBy 2 source 5).2.2 = whole.2 ∧
      Pipe.Delivery.content (p.putFromStreamBy 2 source 5).2.1 = ([6], .reported "gone") ∧
      v.copyInto s p 5 = (.ok 5, v.advance 5, whole.2) ∧ (v.advance 5).Shows s [6] := by
  intro p s v source whole
  obtain ⟨pieces, stream, view⟩ := put_however_delivered p
  obtain ⟨requests, answer, -, stored⟩ := stream source 5 (by decide +kernel)
  have taken := answer.mpr (by decide +kernel)
  obtain ⟨field, rest⟩ := stored taken
  have made : whole.1 = .ok () := (congrArg Prod.fst field).symm.trans taken
  obtain ⟨copied, shown⟩ := view v s 5 (.run .blob 29 (by decide)) (by decide +kernel)
  have left : v.bytes s v.remaining = [1, 2, 3, 4, 5, 6] := by decide +kernel
  rw [left] at copied shown
  change v.copyInto s p 5 =
    (whole.1.map fun _ => 5, if whole.1.isOk then v.advance 5 else v, whole.2) at copied
  rw [made] at copied
  refine ⟨made, ?_, ?_, ?_, ?_, ?_, shown⟩
  · have joined : p.putPieces (some [[1, 2], [3], [4, 5]]) =
        (whole.1, if whole.1.isOk then [] else [[1, 2], [3], [4, 5]], whole.2) := pieces _ nofun
    rw [made] at joined ⊢
    exact joined
  · rw [requests 2 (by decide), taken]
  · rw [requests 2 (by decide)]
    exact congrArg Prod.snd field
  · rw [requests 2 (by decide), rest]
    rfl
  · exact copied

end FragmentPipe
