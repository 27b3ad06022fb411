import FragmentPipe.Proofs.Deferral.Eased
import FragmentPipe.Proofs.Layout.FieldReads

/-!
The bases of the two sides. The places in the descriptors of a fragment count from where its bytes
begin, which the writer and the reader find on their own: the writer as it finishes the fragment
before, and the reader from the byte count that ends it. `Session.logAlong` keeps the account that
the writer had of every fragment, its base and its count. Main statement: `bases_in_step`, in every
run both sides have the same base and the same count for a fragment, and at its end a reader that
has read each field once stands where the count takes it.
-/

namespace FragmentPipe

/-- A fragment with fewer bytes than the circle of positions takes as many as it has. -/
theorem Written.taken_eq_of_lt {w : Written} (few : (w.bytes.length : Int) < blobSpan) :
    w.taken = w.bytes.length := by
  rw [taken, length_bytes]
  refine congrArg List.sum (List.map_congr_left fun e inside => ?_)
  obtain ⟨j, entry⟩ := List.getElem?_of_mem inside
  obtain ⟨rest, split⟩ := Entry.bytes_split entry
  rw [bytes, split, List.length_append, List.length_append] at few
  unfold blobSpan at few
  rw [Entry.taken]
  omega

namespace Session

variable {s t : Session} {c : Call}

/-! ## The bytes that the reader has passed -/

/-- With releases in any order the reader is behind the bytes that it has passed. -/
theorem Passing.call (h : s.Passing) (e : s.Ease) (change : s.CallChange c t) : t.Passing := by
  have after := e.call change
  have ended (idle : t.reading = none)
      (tail : t.pipe.consumer.blobTail = t.pipe.consumer.readBase) : t.Passing := by
    refine .of_idle idle ?_
    rw [tail]
    exact after.recorded.base
  have kept {q : Pipe} (keeps : s.pipe.Keeps q) : Passing { s with pipe := q } := by
    unfold Passing
    rw [keeps.blobTail, keeps.blob]
    exact h
  cases change with
  | quiet change quiet =>
    have moved := (change.eased quiet e.recorded.aligned e.trails).1
    exact Passing.change (s := s.eased) (t := t.eased) h e.recorded moved
  | released =>
    have keeps := s.pipe.takeByteCount.2.keeps_releaseBatched
      s.pipe.takeByteCount.2.consumer.slabTail s.pipe.takeByteCount.2.consumer.blobTail
    exact ended rfl (keeps.blobTail.trans keeps.readBase.symm)
  | deferred => exact ended rfl rfl
  | flushed => exact kept s.pipe.keeps_flushReleased
  | releasedToHere => exact kept s.pipe.keeps_releaseToHere
  | releasedDeferred => exact kept s.pipe.keeps_releaseDeferred
  | releasedAll => exact kept s.pipe.keeps_releaseAllDeferred
  | releasedBytes count => exact kept (s.pipe.keeps_releaseBytes _ _)
  | batched => exact kept { Pipe.Keeps.refl s.pipe with }

theorem passing_of_prepares {registry : Registry} {config : Config} {slab blob : Int} {p : Pipe}
    (prepared : registry.Prepares config slab blob p) : (Session.start p).Passing := by
  obtain ⟨q, publish, release, events, opened, rfl⟩ := prepared.eq_inBatches
  have here : (Session.start q).Passing := passing_of_open? opened
  exact here

end Session

/-! ## The writer's account -/

/-- What the writer has for a fragment that it finishes: the base that its fields count from, and
the count that it answers. -/
structure Account where
  base : Int
  count : Int
  deriving DecidableEq

namespace Session

variable {s t : Session} {a : Action} {c : Call} {w : Written} {log : List Account}

/-- The account of a fragment that a call finishes. The end mark counts no bytes. -/
def account (s : Session) (c : Call) : Account where
  base := s.pipe.producer.writeBase
  count :=
    match c with
    | .plain .publish => s.pipe.publishFragment.1
    | _ => 0

/-- The accounts after a call: one more if it finishes a fragment, and none of those that it gives
up. -/
def logAfter (s : Session) (c : Call) (t : Session) (log : List Account) : List Account :=
  if s.written.length < t.written.length then log ++ [s.account c] else log.take t.written.length

/-- The accounts after calls one after the other. -/
def logAlong (s : Session) (log : List Account) (calls : List Call) : List Account :=
  s.along logAfter log calls

/-- The accounts are right: each base is where the bytes of the fragment begin, and each count is
the number of its bytes, which the reader has found too. -/
structure Accounted (s : Session) (log : List Account) : Prop where
  length : log.length = s.written.length
  accounts : ∀ (k : Nat) (w : Written) (x : Account), s.written[k]? = some w → log[k]? = some x →
    x = ⟨s.blobAt k % blobSpan, (w.taken : Int) % blobSpan⟩
  received : ∀ (k : Nat) (w : Written) (r : Receipt), s.written[k]? = some w →
    s.received[k]? = some r → r.count = (w.taken : Int) % blobSpan

/-- Fragments that are given up take their accounts with them. -/
theorem Accounted.front (h : s.Accounted log) (start : t.blobStart = s.blobStart)
    (written : t.written = s.written.take t.written.length) (received : t.received = s.received) :
    t.Accounted (log.take t.written.length) := by
  have common : t.written.take t.written.length = s.written.take t.written.length := by
    rw [List.take_length]
    exact written
  have before {k : Nat} {w : Written} (found : t.written[k]? = some w) :
      k < t.written.length ∧ s.written[k]? = some w := by
    obtain ⟨inside, -⟩ := List.getElem?_eq_some_iff.mp found
    exact ⟨inside, (getElem?_eq_of_take common inside).symm.trans found⟩
  have upto := congrArg List.length written
  rw [List.length_take] at upto
  constructor
  · rw [List.length_take, h.length]
    exact upto.symm
  · intro k w x found noted
    obtain ⟨inside, there⟩ := before found
    rw [List.getElem?_take_of_lt inside] at noted
    rw [blobAt_eq_of_take start common (Nat.le_of_lt inside)]
    exact h.accounts k w x there noted
  · intro k w r found got
    rw [received] at got
    exact h.received k w r (before found).2 got

/-- A fragment that is finished is accounted for behind the ones before it. -/
theorem Accounted.append (h : s.Accounted log) (start : t.blobStart = s.blobStart)
    (written : t.written = s.written ++ [w]) (received : t.received = s.received)
    (behind : s.received.length ≤ s.written.length) :
    t.Accounted (log ++ [⟨s.blobAt s.written.length % blobSpan, (w.taken : Int) % blobSpan⟩]) := by
  obtain ⟨place, -⟩ := blobAt_append start written
  constructor
  · rw [written, List.length_append, List.length_append, h.length]
    rfl
  · intro k w' x found noted
    rw [written] at found
    rcases getElem?_append_singleton found with ⟨inside, there⟩ | ⟨rfl, rfl⟩
    · rw [List.getElem?_append_left (h.length ▸ inside)] at noted
      rw [place k (Nat.le_of_lt inside)]
      exact h.accounts k w' x there noted
    · rw [List.getElem?_append_right (Nat.le_of_eq h.length), h.length, Nat.sub_self] at noted
      rw [place _ (Nat.le_refl _)]
      exact (Option.some.inj noted).symm
  · intro k w' r found got
    rw [received] at got
    obtain ⟨inside, -⟩ := List.getElem?_eq_some_iff.mp got
    rw [written, List.getElem?_append_left (Nat.lt_of_lt_of_le inside behind)] at found
    exact h.received k w' r found got

/-- A call that finishes nothing keeps the accounts. -/
theorem logAfter_of_same (h : s.Accounted log) (written : t.written = s.written) :
    s.logAfter c t log = log := by
  rw [logAfter, written, if_neg (Nat.lt_irrefl _), ← h.length, List.take_length]

theorem Accounted.same (h : s.Accounted log) (start : t.blobStart = s.blobStart)
    (written : t.written = s.written) (received : t.received = s.received) :
    t.Accounted (s.logAfter c t log) := by
  have all := h.front start (by rw [written, List.take_length]) received
  rw [written, ← h.length, List.take_length] at all
  rw [logAfter_of_same h written]
  exact all

theorem Accounted.of_written (h : s.Accounted log) (b : s.BlobAt)
    (behind : s.received.length ≤ s.written.length) (change : s.WriterChange a t) :
    t.Accounted (s.logAfter (.plain a) t log) := by
  have longer {w : Written} (written : t.written = s.written ++ [w])
      (start : t.blobStart = s.blobStart) (received : t.received = s.received)
      (count : (s.account (.plain a)).count = (w.taken : Int) % blobSpan) :
      t.Accounted (s.logAfter (.plain a) t log) := by
    have more : s.written.length < t.written.length := by
      rw [written, List.length_append]
      exact Nat.lt_succ_self _
    have told : s.account (.plain a) =
        ⟨s.blobAt s.written.length % blobSpan, (w.taken : Int) % blobSpan⟩ := by
      rw [← b.base, ← count]
      rfl
    rw [logAfter, if_pos more, told]
    exact h.append start written received behind
  cases change with
  | published draft =>
    have count := b.uncounted
    rw [current_of_draft draft] at count
    exact longer rfl rfl rfl count
  | finished => exact longer rfl rfl rfl rfl
  | abandoned =>
    have short : ¬s.written.length < s.abandonAll.written.length := by
      show ¬s.written.length < (s.written.take s.published).length
      rw [List.length_take]
      omega
    rw [logAfter, if_neg short]
    refine h.front rfl ?_ rfl
    show s.written.take s.published = s.written.take (s.written.take s.published).length
    rw [List.length_take]
    exact List.take_eq_take_min
  | _ => exact h.same rfl rfl rfl

/-- A fragment that is read to its end is received with the count that the writer had for it. -/
theorem Accounted.ended {r : Reading} (h : s.Accounted log) (e : s.Ease)
    (reading : s.reading = some r) (closed : r.confirmed = true)
    (start : t.blobStart = s.blobStart) (written : t.written = s.written)
    (received : t.received = s.received ++ [⟨r.number, r.fields, s.pipe.takeByteCount.1⟩]) :
    t.Accounted (s.logAfter c t log) := by
  obtain ⟨w, next, -, count⟩ := takeByteCount_fst (s := s.eased) e.recorded.records
    e.recorded.aligned reading closed
  have found : s.written[s.received.length]? = some w := next
  have place (k : Nat) : t.blobAt k = s.blobAt k := by rw [blobAt, blobAt, start, written]
  rw [logAfter_of_same h written]
  constructor
  · rw [written]
    exact h.length
  · intro k w' x there noted
    rw [written] at there
    rw [place]
    exact h.accounts k w' x there noted
  · intro k w' r' there got
    rw [written] at there
    rw [received] at got
    rcases getElem?_append_singleton got with ⟨-, before⟩ | ⟨rfl, rfl⟩
    · exact h.received k w' r' there before
    · rw [found, Option.some.injEq] at there
      subst there
      exact count

theorem Accounted.call (h : s.Accounted log) (e : s.Ease) (change : s.CallChange c t) :
    t.Accounted (s.logAfter c t log) := by
  cases change with
  | quiet change quiet =>
    have received := change.same_received quiet
    have behind : s.received.length ≤ s.written.length :=
      Nat.le_trans e.recorded.aligned.2.received_le e.recorded.aligned.1.visible_le
    rcases change with writes | reads
    · exact h.of_written { e.recorded.blob with } behind writes
    · exact h.same reads.sameWriter.blobStart reads.sameWriter.written received
  | released reading closed => exact h.ended e reading closed rfl rfl rfl
  | deferred reading closed => exact h.ended e reading closed rfl rfl rfl
  | flushed | releasedToHere | releasedDeferred | releasedAll | releasedBytes | batched =>
    exact h.same rfl rfl rfl

/-! ## Runs with releases in any order -/

/-- Every call that the protocol allows, with the releases in any order. -/
def inAnyOrder (_ : Session) (_ : Call) (_ : Session) : Prop := True

instance (s : Session) (c : Call) (t : Session) : Decidable (inAnyOrder s c t) := .isTrue trivial

/-- The state of a run with releases in any order, and the accounts of the writer. -/
structure Audited (s : Session) (log : List Account) : Prop where
  ease : s.Ease
  passing : s.Passing
  accounted : s.Accounted log

theorem Audited.call (g : s.Audited log) (call : s.call c = some t) :
    t.Audited (s.logAfter c t log) := by
  have change := callChange_of_call call
  exact ⟨g.ease.call change, g.passing.call g.ease change, g.accounted.call g.ease change⟩

theorem audited_of_prepares {registry : Registry} {config : Config} {slab blob : Int} {p : Pipe}
    (prepared : registry.Prepares config slab blob p) : (Session.start p).Audited [] :=
  ⟨ease_of_prepares prepared, passing_of_prepares prepared, rfl, nofun, nofun⟩

/-! ## The end of a fragment -/

/-- Looks take the fields that are left of the fragment that is read, each as a kind that it has,
and any other looks stand between them. -/
def Completes (s : Session) (looks : List (Sigma Look)) : Prop :=
  ∃ r w kinds, s.reading = some r ∧ s.next? = some w ∧ Look.Takes kinds looks ∧
    List.Forall₂ (fun e kind => e.fits kind = true) (w.entries.drop r.fields.length) kinds

variable {looks : List (Sigma Look)}

/-- Looks that complete a fragment come by the bytes that are left of it, and then by its count. -/
theorem Ease.completed (e : s.Ease) (completes : s.Completes looks) :
    ∃ w, s.next? = some w ∧
      s.passedBytes + ((s.pipe.meetsAlong looks).map Descriptor.moves).sum = w.taken ∧
      (s.pipe.lookAll looks).takeByteCount.1 = (w.taken : Int) % blobSpan := by
  obtain ⟨r, w, kinds, reading, next, taken, fits⟩ := completes
  have cells := e.recorded.rest_of_reading (s := s.eased) reading next
  have stands : s.pipe.LooksAt ((w.entries.take r.fields.length).map Entry.taken).sum
      (w.entries.drop r.fields.length) [Int32.ofInt ((w.taken : Int) % blobSpan)] :=
    ⟨cells, fun f inside => e.recorded.sound.written w (List.mem_of_getElem? next) f
      (List.mem_of_mem_drop inside)⟩
  obtain ⟨moves, count⟩ := stands.all taken fits
  refine ⟨w, next, ?_, ?_⟩
  · rw [passedBytes_of_reading reading next, moves, ← List.sum_append, ← List.map_append,
      List.take_append_drop]
    rfl
  · show ((s.pipe.lookAll looks).takeInt.1).toInt = _
    rw [Pipe.takeInt_fst count, toInt_count]

/-- A reader that reads each field of its fragment once is then where the count of the bytes takes
it. -/
theorem Passing.completed (h : s.Passing) (e : s.Ease) (completes : s.Completes looks)
    (once : s.pipe.ReadsOnce looks) :
    (s.pipe.lookAll looks).consumer.blobTail % (s.pipe.store.blob.size : Int) =
      (s.pipe.lookAll looks).takeByteCount.2.consumer.blobTail %
        (s.pipe.store.blob.size : Int) := by
  obtain ⟨w, -, whole, count⟩ := e.completed completes
  obtain ⟨width, on⟩ := s.pipe.looksOn_lookAll looks
  have base : s.pipe.consumer.readBase % (s.pipe.store.blob.size : Int) =
      s.blobAt s.received.length % (s.pipe.store.blob.size : Int) := e.recorded.base
  have turn : (s.pipe.store.blob.size : Int) ∣ blobSpan := e.recorded.turn
  have read : (s.pipe.lookAll looks).consumer.blobTail % (s.pipe.store.blob.size : Int) =
      (s.blobAt s.received.length + w.taken) % (s.pipe.store.blob.size : Int) := by
    rw [s.pipe.blobTail_lookAll looks, once.sum_moves, ← whole, Int.natCast_add, ← Int.add_assoc]
    exact Int.add_emod_eq_add_emod_right _ h
  have told : (s.pipe.lookAll looks).takeByteCount.2.consumer.blobTail =
      (s.pipe.consumer.readBase + (s.pipe.lookAll looks).takeByteCount.1) %
        (s.pipe.store.blob.size : Int) := by
    show ((s.pipe.lookAll looks).consumer.readBase + _) %
      ((s.pipe.lookAll looks).store.blob.size : Int) = _
    rw [on.readBase, on.blob]
    rfl
  rw [read, told, count, Int.emod_emod, Int.add_emod, ← base, Int.add_emod s.pipe.consumer.readBase,
    Int.emod_emod_of_dvd _ turn]

/-! ## Both sides -/

/-- The two sides are in step, with the accounts that the writer had. -/
structure InStep (s : Session) (log : List Account) : Prop where
  /-- Each finished fragment has its account, and with it each received one. -/
  accounts : log.length = s.written.length
  received : s.received.length ≤ log.length
  counts : ∀ (k : Nat) (w : Written) (x : Account), s.written[k]? = some w → log[k]? = some x →
    (w.bytes.length : Int) < blobSpan → x.count = w.bytes.length
  answers : ∀ (k : Nat) (x : Account) (r : Receipt), log[k]? = some x → s.received[k]? = some r →
    r.count = x.count
  bases : ∀ x, log[s.received.length]? = some x →
    s.pipe.consumer.readBase % (s.pipe.store.config.blobSize : Int) =
      x.base % (s.pipe.store.config.blobSize : Int)
  /-- A reader that has received all stands at the base that the writer has now. -/
  level : s.received.length = s.written.length →
    s.pipe.consumer.readBase % (s.pipe.store.config.blobSize : Int) =
      s.pipe.producer.writeBase % (s.pipe.store.config.blobSize : Int)
  /-- However the rest of a fragment is taken, its count is found behind it. -/
  found : ∀ looks x ending, s.Completes looks → log[s.received.length]? = some x →
    ((s.pipe.lookAll looks).endFragment ending).1 = x.count
  tails : ∀ looks ending, s.Completes looks → s.pipe.ReadsOnce looks →
    (s.pipe.lookAll looks).consumer.blobTail % (s.pipe.store.config.blobSize : Int) =
      ((s.pipe.lookAll looks).endFragment ending).2.consumer.blobTail %
        (s.pipe.store.config.blobSize : Int)

theorem Audited.inStep (g : s.Audited log) : s.InStep log := by
  obtain ⟨e, passing, h⟩ := g
  have size : s.pipe.store.blob.size = s.pipe.store.config.blobSize := e.recorded.size
  have turn : (s.pipe.store.config.blobSize : Int) ∣ blobSpan := size ▸ e.recorded.turn
  have behind : s.received.length ≤ s.written.length :=
    Nat.le_trans e.recorded.aligned.2.received_le e.recorded.aligned.1.visible_le
  have base : s.pipe.consumer.readBase % (s.pipe.store.config.blobSize : Int) =
      s.blobAt s.received.length % (s.pipe.store.config.blobSize : Int) := size ▸ e.recorded.base
  have there {k : Nat} {x : Account} (noted : log[k]? = some x) :
      ∃ w, s.written[k]? = some w ∧ x = ⟨s.blobAt k % blobSpan, (w.taken : Int) % blobSpan⟩ := by
    obtain ⟨inside, -⟩ := List.getElem?_eq_some_iff.mp noted
    have found := List.getElem?_eq_getElem (h.length ▸ inside)
    exact ⟨_, found, h.accounts k _ x found noted⟩
  constructor
  · exact h.length
  · rw [h.length]
    exact behind
  · intro k w x found noted few
    rw [h.accounts k w x found noted, Written.taken_eq_of_lt few]
    exact Int.emod_eq_of_lt (Int.natCast_nonneg _) few
  · intro k x r noted got
    obtain ⟨w, found, rfl⟩ := there noted
    exact h.received k w r found got
  · intro x noted
    obtain ⟨w, found, rfl⟩ := there noted
    rw [base]
    exact (Int.emod_emod_of_dvd _ turn).symm
  · intro all
    have start : s.pipe.producer.writeBase = s.blobAt s.written.length % blobSpan :=
      e.recorded.blob.base
    rw [base, start, all]
    exact (Int.emod_emod_of_dvd _ turn).symm
  · intro looks x ending completes noted
    obtain ⟨w, found, rfl⟩ := there noted
    obtain ⟨w', next, -, count⟩ := e.completed completes
    obtain rfl : w = w' := Option.some.inj (found.symm.trans next)
    rw [Pipe.endFragment_fst]
    exact count
  · intro looks ending completes once
    rw [Pipe.endFragment_blobTail, ← size]
    exact passing.completed e completes once

end Session

/-- Both sides are in step. Wherever the blob begins, in every run of any length, with the releases
at once or put off, in any order and in batches of any size, with fragments given up and end marks:
the count that the writer answers for a fragment is the number of its bytes, if it has fewer than
the circle of positions, and the count that the reader answers is the same. The base of the reader
is the one that the writer had for the fragment that it stands at, up to whole turns of the blob.
And when the fields of this fragment are read once each, in any order and by any calls, the blob
position of the reader is the one that the count leads to, up to whole turns. -/
theorem bases_in_step {registry : Registry} {config : Config} {slab blob : Int} {p : Pipe}
    {s : Session} {calls : List Call} (prepared : registry.Prepares config slab blob p)
    (run : Session.perform Session.inAnyOrder (Session.start p) calls = some s) :
    s.pipe.store.config = config ∧ s.InStep ((Session.start p).logAlong [] calls) := by
  have same := Session.config_of_prepares prepared (Session.Runs.refl.of_perform run)
  have audited : s.Audited ((Session.start p).logAlong [] calls) :=
    Session.along_of_perform (fun g call _ => Session.Audited.call g call)
      (Session.audited_of_prepares prepared) run
  exact ⟨same, audited.inStep⟩

/-- A message that is given up, two that are flushed, the first of them read with its release put
off, and of the second the number and the first field. -/
def withinSecond : List Call :=
  (writeSample none [9]).map .plain ++ [.plain .abandon] ++ twoMessages ++ deferSample ++
    [.plain .receive, .plain (.take .optionalInt)]

/-- The descriptor of the last field first, and then its bytes. -/
def readApart : List (Sigma Look) := [⟨_, .takeDescriptor⟩, ⟨_, .readBytes ⟨.blob 0, 2⟩⟩]

/-- The first message begins at byte 30 and the second one at byte 33, which is byte 1 of the blob.
Its two bytes lead to byte 3, as the count does. -/
theorem bases_in_step_sample :
    ∃ s, Session.perform Session.inAnyOrder (Session.start samplePipe) withinSecond = some s ∧
      (Session.start samplePipe).logAlong [] withinSecond = [⟨30, 3⟩, ⟨33, 2⟩] ∧
      s.pipe.consumer.readBase = 1 ∧ s.InStep [⟨30, 3⟩, ⟨33, 2⟩] ∧
      s.Completes readApart ∧ s.pipe.ReadsOnce readApart ∧
      (s.pipe.lookAll readApart).consumer.blobTail = 3 ∧
      ((s.pipe.lookAll readApart).endFragment .release).2.consumer.blobTail % 32 = 3 := by
  have evaluated :
      (Session.perform Session.inAnyOrder (Session.start samplePipe) withinSecond).any fun s =>
        s.pipe.consumer.readBase = 1 ∧ s.pipe.ReadsOnce readApart ∧
          (s.pipe.lookAll readApart).consumer.blobTail = 3 ∧
          s.reading.any fun r => s.next?.any fun w =>
            (w.entries.drop r.fields.length).map (·.fits .bytes) = [true] := by decide +kernel
  obtain ⟨s, performed, checked⟩ := (Option.any_eq_true ..).mp evaluated
  obtain ⟨base, once, tail, left⟩ := of_decide_eq_true checked
  obtain ⟨r, reading, left⟩ := (Option.any_eq_true ..).mp left
  obtain ⟨w, next, left⟩ := (Option.any_eq_true ..).mp left
  have completes : s.Completes readApart := by
    obtain ⟨e, last, fits⟩ := List.map_eq_singleton_iff.mp (of_decide_eq_true left)
    exact ⟨r, w, [.bytes], reading, next, .field rfl (.aside rfl .nil),
      last ▸ .cons fits .nil⟩
  have log : (Session.start samplePipe).logAlong [] withinSecond = [⟨30, 3⟩, ⟨33, 2⟩] := by
    decide +kernel
  obtain ⟨config, inStep⟩ := bases_in_step (.opened open?_sample) performed
  rw [log] at inStep
  have tails := inStep.tails readApart .release completes once
  rw [config, tail] at tails
  exact ⟨s, performed, log, base, inStep, completes, once, tail, tails.symm⟩

end FragmentPipe
