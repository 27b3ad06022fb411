import FragmentPipe.Proofs.Deferral.Settled

/-!
The published tails while releases are put off. Fragments that are put off are given back in the
order in which they were read; as long as no later fragment is released before them, the tails only
go forward and stay before what is put off. `Session.Owes` is the invariant: what is put off are the
last fragments received, and the tails that are published and held back lie before them. Main
statement: `tails_advance`, with every release in turn the tails go forward, and any release out of
turn lets them pass a fragment that is put off.
-/

namespace FragmentPipe

/-- Whether a call releases what was read last, a fragment or the place of the reader. -/
def Call.releasesLast : Call → Bool
  | .plain .release | .plain .releaseToHere => true
  | _ => false

/-- A call releases what was read last only where nothing is put off. -/
def inTurn (s : Session) (c : Call) (_ : Session) : Prop :=
  c.releasesLast = true → s.pipe.consumer.deferred = []

instance (s : Session) (c : Call) (t : Session) : Decidable (inTurn s c t) :=
  inferInstanceAs (Decidable (_ → _))

namespace Session

/-! ## What is put off -/

/-- The fragments that are put off, from a fragment on up to the last one received: each with its
end and with the bytes of it that are still to be given back. -/
inductive Queued (s : Session) : Nat → List Deferred → Prop where
  | nil : Queued s s.received.length []
  | cons {k : Nat} {entry : Deferred} {rest : List Deferred}
    (cell : entry.slabTail = s.slabAt (k + 1))
    (byte : entry.blobTail % (s.pipe.store.blob.size : Int) =
      s.blobAt (k + 1) % (s.pipe.store.blob.size : Int))
    (counted : 0 ≤ entry.length) (fits : s.blobAt k ≤ s.blobAt (k + 1) - entry.length)
    (later : Queued s (k + 1) rest) : Queued s k (entry :: rest)

/-- Where the bytes begin that are put off. -/
def owedFrom (s : Session) (k : Nat) : List Deferred → Int
  | [] => s.blobAt k
  | entry :: _ => s.blobAt (k + 1) - entry.length

/-- A pipe has given back `r` fragments and so many bytes, `x` along all bytes; fragments from `k`
on are put off, and a batch holds back what lies between. -/
structure Owes (s : Session) (p : Pipe) (r k : Nat) (queue : List Deferred) (x y : Int) :
    Prop where
  queued : s.Queued k queue
  given : p.store.slabTail = s.slabAt r
  given_le : r ≤ k
  byte : p.store.blobTail % (s.pipe.store.blob.size : Int) = x % (s.pipe.store.blob.size : Int)
  low : s.blobAt r ≤ x
  high : x ≤ s.owedFrom k queue
  held_le : p.consumer.heldSlab ≤ s.slabAt k
  held : r < k → p.consumer.heldSlab = s.slabAt k ∧
    p.consumer.heldBlob % (s.pipe.store.blob.size : Int) = y % (s.pipe.store.blob.size : Int) ∧
    x ≤ y ∧ s.blobAt k ≤ y ∧ y ≤ s.owedFrom k queue

variable {s t : Session} {p : Pipe} {r k : Nat} {queue rest : List Deferred} {entry : Deferred}
  {x y : Int}

theorem Queued.blobAt_le (h : s.Queued k queue) : s.blobAt k ≤ s.owedFrom k queue := by
  cases h with
  | nil => exact Int.le_refl _
  | cons _ _ _ fits => exact fits

theorem Queued.length (h : s.Queued k queue) : k + queue.length = s.received.length := by
  induction h with
  | nil => rfl
  | cons _ _ _ _ _ ih =>
    rw [List.length_cons]
    omega

theorem Queued.owedFrom_le (h : s.Queued k queue) :
    s.owedFrom k queue ≤ s.blobAt s.received.length := by
  cases h with
  | nil => exact Int.le_refl _
  | @cons k entry rest _ _ some _ later =>
    have length := later.length
    have upto := s.blobAt_mono (j := k + 1) (k := s.received.length) (by omega)
    show s.blobAt (k + 1) - entry.length ≤ _
    omega

/-- What is known of a fragment that is put off. -/
theorem Queued.mem (h : s.Queued k queue) (member : entry ∈ queue) :
    ∃ j, k ≤ j ∧ j < s.received.length ∧ entry.slabTail = s.slabAt (j + 1) ∧
      0 ≤ entry.length ∧ s.blobAt j ≤ s.blobAt (j + 1) - entry.length ∧
      s.owedFrom k queue ≤ s.blobAt (j + 1) - entry.length := by
  induction h with
  | nil => cases member
  | @cons k first rest cell byte some fits later ih =>
    rcases List.mem_cons.mp member with rfl | behind
    · have length := later.length
      exact ⟨k, Nat.le_refl k, by omega, cell, some, fits, Int.le_refl _⟩
    · obtain ⟨j, after, inside, cell', some', fits', owed⟩ := ih behind
      refine ⟨j, by omega, inside, cell', some', fits', ?_⟩
      have next := later.blobAt_le
      show s.blobAt (k + 1) - first.length ≤ _
      omega

/-! ## Giving back -/

/-- A batch holds back no more than it has to: what is given back, and the fragments before those
that are put off. -/
def HeldTo (s : Session) (k : Nat) (x y : Int) : Prop := y = max x (s.blobAt k)

/-- A batch that is complete gives the oldest fragment back, and otherwise holds it back. -/
theorem Owes.releaseBatched (o : s.Owes p r k (entry :: rest) x y) :
    ∃ r', r ≤ r' ∧ s.HeldTo (k + 1) (max x (s.blobAt r')) (s.blobAt (k + 1)) ∧
      s.Owes (p.releaseBatched entry.slabTail entry.blobTail) r' (k + 1) rest
        (max x (s.blobAt r')) (s.blobAt (k + 1)) := by
  obtain ⟨queued, given, given_le, byte, low, high, held_le, held⟩ := o
  cases queued with
  | cons cell place some fits later =>
    have next := later.blobAt_le
    have forward := s.slabAt_mono (Nat.le_succ k)
    have before : x ≤ s.blobAt (k + 1) := by
      change x ≤ s.blobAt (k + 1) - entry.length at high
      omega
    by_cases complete : p.consumer.countdown - 1 ≤ 0
    · rw [Pipe.releaseBatched_of_complete complete]
      have far : max x (s.blobAt (k + 1)) = s.blobAt (k + 1) := Int.max_eq_right before
      refine ⟨k + 1, by omega, ?_⟩
      rw [far]
      refine ⟨(Int.max_self _).symm, ?_⟩
      refine ⟨later, cell, Nat.le_refl _, place, Int.le_refl _, next, ?_, ?_⟩
      · exact Int.le_trans held_le forward
      · intro short
        exact absurd short (Nat.lt_irrefl _)
    · rw [Pipe.releaseBatched_of_partial complete]
      have still : max x (s.blobAt r) = x := Int.max_eq_left low
      refine ⟨r, Nat.le_refl r, ?_, ?_⟩
      · rw [still]
        exact (Int.max_eq_right before).symm
      · rw [still]
        refine ⟨later, given, by omega, byte, low, Int.le_trans before next, ?_, ?_⟩
        · exact Int.le_of_eq cell
        · intro _
          exact ⟨cell, place, before, Int.le_refl _, next⟩

/-- Bytes that end within the oldest fragment move the blob tails alone. -/
theorem Owes.releasePart (o : s.Owes p r k (entry :: rest) x y)
    (size : p.store.blob.size = s.pipe.store.blob.size) {count : Int} (asked : 0 < count)
    (few : count < entry.length) (queue : List Deferred) :
    x ≤ s.blobAt (k + 1) - (entry.length - count) ∧
      s.Owes
        { p with
          store.blobTail := (entry.blobTail - (entry.length - count)) % p.store.blob.size
          consumer.heldBlob := (entry.blobTail - (entry.length - count)) % p.store.blob.size
          consumer.deferred := queue }
        r k ({ entry with length := entry.length - count } :: rest)
        (s.blobAt (k + 1) - (entry.length - count))
        (s.blobAt (k + 1) - (entry.length - count)) := by
  obtain ⟨queued, given, given_le, byte, low, high, held_le, held⟩ := o
  cases queued with
  | cons cell place positive fits later =>
    change x ≤ s.blobAt (k + 1) - entry.length at high
    have part : (entry.blobTail - (entry.length - count)) % (p.store.blob.size : Int) %
        (s.pipe.store.blob.size : Int) =
        (s.blobAt (k + 1) - (entry.length - count)) % (s.pipe.store.blob.size : Int) := by
      rw [size, Int.emod_emod, Int.sub_emod, place, ← Int.sub_emod]
    refine ⟨by omega, ⟨.cons cell place (by show 0 ≤ entry.length - count; omega) ?_ later, given,
      given_le, part, by omega, Int.le_refl _, held_le, ?_⟩⟩
    · show s.blobAt k ≤ s.blobAt (k + 1) - (entry.length - count)
      omega
    · intro behind
      exact ⟨(held behind).1, part, Int.le_refl _, by omega, Int.le_refl _⟩

/-- A flush gives back what the batch held back. -/
theorem Owes.flushReleased (o : s.Owes p r k queue x y) (inside : k ≤ s.written.length) :
    ∃ x', x ≤ x' ∧ s.Owes p.flushReleased k k queue x' y ∧
      (s.HeldTo k x y → s.HeldTo k x' y ∧ x' = max x (s.blobAt k)) := by
  have given := o.given
  have held_le := o.held_le
  unfold Pipe.flushReleased
  rcases Nat.lt_or_eq_of_le o.given_le with part | rfl
  · obtain ⟨held, place, grows, low, high⟩ := o.held part
    have far := slabAt_lt part inside
    rw [if_pos (by omega)]
    refine ⟨y, grows, ⟨o.queued, held, Nat.le_refl k, place, low, high, held_le, ?_⟩,
      fun heldTo => ⟨(Int.max_eq_left low).symm, heldTo⟩⟩
    intro short
    exact absurd short (Nat.lt_irrefl _)
  · rw [if_neg (by omega)]
    exact ⟨x, Int.le_refl x, { o with }, fun heldTo => ⟨heldTo, (Int.max_eq_left o.low).symm⟩⟩

/-- All that is put off is given back, but for what the batch holds back of it. -/
theorem Owes.releaseEntries (o : s.Owes p r k queue x y) :
    ∃ r' y', r ≤ r' ∧
      s.Owes (p.releaseEntries queue) r' s.received.length [] (max x (s.blobAt r')) y' ∧
      (s.HeldTo k x y → s.HeldTo s.received.length (max x (s.blobAt r')) y') := by
  induction queue generalizing p r k x y with
  | nil =>
    have length := o.queued.length
    rw [List.length_nil, Nat.add_zero] at length
    refine ⟨r, y, Nat.le_refl r, ?_, ?_⟩
    · rw [Int.max_eq_left o.low, ← length]
      exact o
    · rw [Int.max_eq_left o.low, ← length]
      exact id
  | cons entry rest ih =>
    obtain ⟨r₁, grows, held, o₁⟩ := o.releaseBatched
    obtain ⟨r₂, y₂, grows', o₂, held₂⟩ := ih o₁
    have later := s.blobAt_mono grows'
    rw [Int.max_assoc, Int.max_eq_right later] at o₂ held₂
    exact ⟨r₂, y₂, Nat.le_trans grows grows', o₂, fun _ => held₂ held⟩

/-- Bytes that end where a fragment ends give back as many fragments. -/
theorem Owes.releaseBytes (o : s.Owes p r k queue x y)
    (size : p.store.blob.size = s.pipe.store.blob.size) (count : Int) :
    ∃ r' k' x' y', r ≤ r' ∧ x ≤ x' ∧
      s.Owes (p.releaseBytes count queue) r' k' (p.releaseBytes count queue).consumer.deferred x'
        y' ∧
      (s.HeldTo k x y → s.HeldTo k' x' y' ∧
        x' = if Deferred.stopsInside count queue
          then s.owedFrom k' (p.releaseBytes count queue).consumer.deferred
          else max x (s.blobAt r')) := by
  induction queue generalizing p r k x y count with
  | nil =>
    exact ⟨r, k, x, y, Nat.le_refl r, Int.le_refl x, { o with },
      fun heldTo => ⟨heldTo, (Int.max_eq_left o.low).symm⟩⟩
  | cons entry rest ih =>
    unfold Pipe.releaseBytes Deferred.stopsInside
    by_cases nothing : count ≤ 0
    · rw [if_pos nothing, if_pos nothing]
      exact ⟨r, k, x, y, Nat.le_refl r, Int.le_refl x, { o with },
        fun heldTo => ⟨heldTo, (Int.max_eq_left o.low).symm⟩⟩
    · rw [if_neg nothing, if_neg nothing]
      by_cases all : entry.length ≤ count
      · rw [if_pos all, if_pos all]
        have size' := (congrArg Ring.size
          (p.keeps_releaseBatched entry.slabTail entry.blobTail).blob).trans size
        obtain ⟨r₁, grows, held, o₁⟩ := o.releaseBatched
        obtain ⟨r₂, k₂, x₂, y₂, grows', forward, o₂, heldTo⟩ := ih o₁ size' (count - entry.length)
        obtain ⟨held₂, place⟩ := heldTo held
        have later := s.blobAt_mono grows'
        rw [Int.max_assoc, Int.max_eq_right later] at place
        exact ⟨r₂, k₂, x₂, y₂, Nat.le_trans grows grows',
          Int.le_trans (Int.le_max_left ..) forward, o₂, fun _ => ⟨held₂, place⟩⟩
      · rw [if_neg all, if_neg all]
        obtain ⟨forward, o₁⟩ := o.releasePart size (Int.not_le.mp nothing) (Int.not_le.mp all)
          ({ entry with length := entry.length - count } :: rest)
        have before := o₁.queued.blobAt_le
        exact ⟨r, k, _, _, Nat.le_refl r, forward, o₁,
          fun _ => ⟨(Int.max_eq_left before).symm, rfl⟩⟩

/-! ## Other calls -/

theorem Queued.of_same (h : s.Queued k queue) (same : s.SameEnds t) : t.Queued k queue := by
  induction h with
  | nil =>
    rw [← same.received]
    exact .nil
  | @cons k entry rest cell byte some fits later ih =>
    have length := later.length
    have bytes := same.bytes (k + 1) (by omega)
    refine .cons ?_ ?_ some ?_ ih
    · rw [cell, same.cells (k + 1) (by omega)]
    · rw [same.size, bytes]
      exact byte
    · rw [bytes, same.bytes k (by omega)]
      exact fits

theorem Queued.owedFrom_eq (h : s.Queued k queue) (same : s.SameEnds t) :
    t.owedFrom k queue = s.owedFrom k queue := by
  cases h with
  | nil => exact same.bytes _ (Nat.le_refl _)
  | cons _ _ _ _ later =>
    have length := later.length
    exact congrArg (· - _) (same.bytes (k + 1) (by omega))

/-- Only the tails of the pipe matter, and only the ends of the fragments received. -/
theorem Owes.of_same {q : Pipe} (o : s.Owes p r k queue x y) (ends : s.SameEnds t)
    (tails : p.SameTails q) : t.Owes q r k queue x y := by
  have length := o.queued.length
  have given_le := o.given_le
  have owed := o.queued.owedFrom_eq ends
  have cell := ends.cells k (by omega)
  constructor
  · exact o.queued.of_same ends
  · rw [tails.slabTail, ends.cells r (by omega)]
    exact o.given
  · exact given_le
  · rw [tails.blobTail, ends.size]
    exact o.byte
  · rw [ends.bytes r (by omega)]
    exact o.low
  · rw [owed]
    exact o.high
  · rw [tails.heldSlab, cell]
    exact o.held_le
  · rw [tails.heldSlab, tails.heldBlob, ends.size, cell, ends.bytes k (by omega), owed]
    exact o.held

theorem Queued.append (h : s.Queued k queue) (cells : ∀ k, t.slabAt k = s.slabAt k)
    (bytes : ∀ k, t.blobAt k = s.blobAt k)
    (size : t.pipe.store.blob.size = s.pipe.store.blob.size)
    (last : t.Queued s.received.length [entry]) :
    t.Queued k (queue ++ [entry]) ∧ s.owedFrom k queue ≤ t.owedFrom k (queue ++ [entry]) := by
  induction h with
  | nil =>
    have before := last.blobAt_le
    rw [bytes] at before
    exact ⟨last, before⟩
  | @cons k first rest cell byte some fits later ih =>
    refine ⟨.cons ?_ ?_ some ?_ ih.1, ?_⟩
    · rw [cells]
      exact cell
    · rw [size, bytes]
      exact byte
    · rw [bytes, bytes]
      exact fits
    · have same := bytes (k + 1)
      show s.blobAt (k + 1) - first.length ≤ t.blobAt (k + 1) - first.length
      omega

/-- The fragment that the reader comes to the end of, put off. -/
def lastDeferred (s : Session) : Deferred :=
  ⟨s.pipe.takeByteCount.2.consumer.slabTail, s.pipe.takeByteCount.2.consumer.blobTail,
    s.pipe.takeByteCount.1⟩

/-- A fragment that is read to its end is put off behind the others. -/
theorem Owes.ended {q : Pipe} {c : Reading} (o : s.Owes s.pipe r k queue x y)
    (h : s.settled.Recorded) (reading : s.reading = some c) (closed : c.confirmed = true)
    (size : q.store.blob.size = s.pipe.store.blob.size) (receipt : Receipt) :
    Owes { s with pipe := q, received := s.received ++ [receipt], reading := none } s.pipe r k
      (queue ++ [s.lastDeferred]) x y := by
  obtain ⟨w, next, count, cell, byte⟩ := after_byteCount h reading closed
  have length : (s.received ++ [receipt]).length = s.received.length + 1 := by simp
  have ends := blobAt_succ (s := s) (k := s.received.length) next
  have bounds : 0 ≤ s.pipe.takeByteCount.1 ∧ s.pipe.takeByteCount.1 ≤ w.taken := by
    rw [count, blobSpan]
    omega
  have last : Queued { s with pipe := q, received := s.received ++ [receipt], reading := none }
      s.received.length [s.lastDeferred] := by
    refine .cons cell ?_ bounds.1 ?_ (length ▸ .nil)
    · show _ % (q.store.blob.size : Int) = _ % (q.store.blob.size : Int)
      rw [size]
      exact byte
    · show s.blobAt s.received.length ≤ s.blobAt (s.received.length + 1) - s.pipe.takeByteCount.1
      omega
  obtain ⟨queued, owed⟩ := Queued.append
    (t := { s with pipe := q, received := s.received ++ [receipt], reading := none }) o.queued
    (fun _ => rfl) (fun _ => rfl) size last
  constructor
  · exact queued
  · exact o.given
  · exact o.given_le
  · show _ % (q.store.blob.size : Int) = _ % (q.store.blob.size : Int)
    rw [size]
    exact o.byte
  · exact o.low
  · exact Int.le_trans o.high owed
  · exact o.held_le
  · intro behind
    obtain ⟨held, place, grows, low, high⟩ := o.held behind
    refine ⟨held, ?_, grows, low, Int.le_trans high owed⟩
    show _ % (q.store.blob.size : Int) = _ % (q.store.blob.size : Int)
    rw [size]
    exact place

/-- With nothing put off, the place where the reader stands may be published. -/
theorem Owes.releaseToHere (o : s.Owes s.pipe r k [] x y) (h : s.settled.Recorded)
    (idle : s.reading = none) (here : s.pipe.consumer.blobTail = s.pipe.consumer.readBase) :
    r ≤ s.received.length ∧ x ≤ s.blobAt s.received.length ∧
      s.Owes s.pipe.releaseToHere s.received.length s.received.length []
        (s.blobAt s.received.length) (s.blobAt s.received.length) := by
  have length := o.queued.length
  rw [List.length_nil, Nat.add_zero] at length
  obtain ⟨tail, -⟩ := h.aligned.2.idle idle
  have base := h.base
  have given_le := o.given_le
  have high := o.high
  rw [length] at given_le high
  refine ⟨given_le, high, .nil, tail, Nat.le_refl _, ?_, Int.le_refl _, Int.le_refl _,
    Int.le_of_eq tail, ?_⟩
  · show s.pipe.consumer.blobTail % _ = _
    rw [here]
    exact base
  · intro short
    exact absurd short (Nat.lt_irrefl _)

/-! ## Releases in turn -/

variable {c : Call}

/-- The tails stand right, with `r` fragments given back and the blob tail `x` along the bytes. -/
def Stands (s : Session) (r : Nat) (x : Int) : Prop :=
  ∃ k y, s.Owes s.pipe r k s.pipe.consumer.deferred x y

theorem Owes.of_keeps {q : Pipe} (o : s.Owes q r k q.consumer.deferred x y)
    (keeps : s.pipe.Keeps q) : Owes { s with pipe := q } q r k q.consumer.deferred x y :=
  o.of_same (sameEnds_of_keeps keeps) (.refl q)

theorem Owes.release {a : Reading} (o : s.Owes s.pipe r k [] x y) (h : s.settled.Recorded)
    (reading : s.reading = some a) (closed : a.confirmed = true) :
    ∃ r', r ≤ r' ∧ (s.releaseNext a).HeldTo (k + 1) (max x (s.blobAt r')) (s.blobAt (k + 1)) ∧
      (s.releaseNext a).Owes (s.releaseNext a).pipe r' (k + 1) [] (max x (s.blobAt r'))
        (s.blobAt (k + 1)) := by
  have keeps : s.pipe.takeByteCount.2.Keeps (s.releaseNext a).pipe := Pipe.keeps_releaseBatched ..
  have alone := o.ended h reading closed (congrArg Ring.size keeps.blob)
    ⟨a.number, a.fields, s.pipe.takeByteCount.1⟩
  have counted : (s.releaseNext a).Owes s.pipe.takeByteCount.2 r k [s.lastDeferred] x y :=
    { alone with }
  exact counted.releaseBatched

theorem Owes.defer {a : Reading} (o : s.Owes s.pipe r k s.pipe.consumer.deferred x y)
    (h : s.settled.Recorded) (reading : s.reading = some a) (closed : a.confirmed = true) :
    (s.deferNext a).Owes (s.deferNext a).pipe r k (s.deferNext a).pipe.consumer.deferred x y := by
  have more := o.ended (q := (s.deferNext a).pipe) h reading closed rfl
    ⟨a.number, a.fields, s.pipe.deferRelease.1⟩
  exact { more with }

theorem Owes.releaseDeferred (o : s.Owes s.pipe r k s.pipe.consumer.deferred x y) :
    ∃ r' k' y', r ≤ r' ∧
      s.Owes s.pipe.releaseDeferred.2 r' k' s.pipe.releaseDeferred.2.consumer.deferred
        (max x (s.blobAt r')) y' ∧
      (s.HeldTo k x y → s.HeldTo k' (max x (s.blobAt r')) y') := by
  unfold Pipe.releaseDeferred
  split
  · refine ⟨r, k, y, Nat.le_refl r, ?_, ?_⟩
    · rw [Int.max_eq_left o.low]
      exact o
    · rw [Int.max_eq_left o.low]
      exact id
  · next entry rest queue =>
    rw [queue] at o
    have popped : s.Owes { s.pipe with consumer.deferred := rest } r k (entry :: rest) x y :=
      { o with }
    obtain ⟨r', grows, held, after⟩ := popped.releaseBatched
    have left : (Pipe.releaseBatched { s.pipe with consumer.deferred := rest } entry.slabTail
        entry.blobTail).consumer.deferred = rest := Pipe.deferred_releaseBatched ..
    refine ⟨r', k + 1, s.blobAt (k + 1), grows, ?_, fun _ => held⟩
    show s.Owes _ _ _ (Pipe.consumer _).deferred _ _
    rw [left]
    exact after

/-- With every release in turn a call gives back from the oldest fragment on. The blob tail comes to
the end of what is given back then, if it is not further already, and within a fragment only where
bytes of it are given back. -/
theorem Owes.call (o : s.Owes s.pipe r k s.pipe.consumer.deferred x y) (h : s.settled.Recorded)
    (m : s.Marked false) (change : s.CallChange c t) (turn : inTurn s c t) :
    ∃ r' k' x' y', r ≤ r' ∧ x ≤ x' ∧ t.Owes t.pipe r' k' t.pipe.consumer.deferred x' y' ∧
      (s.HeldTo k x y → t.HeldTo k' x' y' ∧ (c.Whole s → x' = max x (t.blobAt r'))) := by
  have still : x = max x (s.blobAt r) := (Int.max_eq_left o.low).symm
  have further (j : Nat) : x ≤ max x (s.blobAt j) := Int.le_max_left ..
  cases change with
  | quiet change quiet =>
    have tails := change.sameTails quiet
    have ends := change.sameEnds h quiet
    have length := o.queued.length
    have given_le := o.given_le
    refine ⟨r, k, x, y, Nat.le_refl r, Int.le_refl x, ?_, ?_⟩
    · rw [tails.deferred]
      exact o.of_same ends tails
    · unfold HeldTo
      rw [ends.bytes k (by omega), ends.bytes r (by omega)]
      exact fun held => ⟨held, fun _ => still⟩
  | @released a reading closed =>
    have nothing : s.pipe.consumer.deferred = [] := turn rfl
    rw [nothing] at o
    obtain ⟨r', grows, held, after⟩ := o.release h reading closed
    have left : (s.releaseNext a).pipe.consumer.deferred = [] :=
      (Pipe.deferred_releaseBatched ..).trans nothing
    rw [← left] at after
    exact ⟨r', k + 1, _, _, grows, further r', after, fun _ => ⟨held, fun _ => rfl⟩⟩
  | flushed =>
    have inside : k ≤ s.written.length := by
      have length := o.queued.length
      have upto := h.aligned.2.received_le
      have visible : s.published ≤ s.written.length := h.aligned.1.visible_le
      change s.received.length ≤ s.published at upto
      omega
    obtain ⟨x', forward, after, place⟩ := o.flushReleased inside
    rw [← s.pipe.deferred_flushReleased] at after
    exact ⟨k, k, x', y, o.given_le, forward, after.of_keeps s.pipe.keeps_flushReleased,
      fun held => ⟨(place held).1, fun _ => (place held).2⟩⟩
  | releasedToHere idle =>
    have nothing : s.pipe.consumer.deferred = [] := turn rfl
    rw [nothing] at o
    obtain ⟨grows, forward, after⟩ := o.releaseToHere h idle (m.here idle)
    rw [← nothing] at after
    exact ⟨_, _, _, _, grows, forward, after.of_keeps s.pipe.keeps_releaseToHere,
      fun _ => ⟨(Int.max_self _).symm, fun _ => (Int.max_eq_right forward).symm⟩⟩
  | deferred reading closed =>
    exact ⟨r, k, x, y, Nat.le_refl r, Int.le_refl x, o.defer h reading closed,
      fun held => ⟨held, fun _ => still⟩⟩
  | releasedDeferred =>
    obtain ⟨r', k', y', grows, after, held⟩ := o.releaseDeferred
    exact ⟨r', k', _, y', grows, further r', after.of_keeps s.pipe.keeps_releaseDeferred,
      fun before => ⟨held before, fun _ => rfl⟩⟩
  | releasedAll =>
    have emptied :
        s.Owes { s.pipe with consumer.deferred := [] } r k s.pipe.consumer.deferred x y :=
      { o with }
    obtain ⟨r', y', grows, after, held⟩ := emptied.releaseEntries
    change s.Owes s.pipe.releaseAllDeferred _ _ _ _ _ at after
    have nothing : s.pipe.releaseAllDeferred.consumer.deferred = [] :=
      Pipe.deferred_releaseEntries _ _
    rw [← nothing] at after
    exact ⟨r', s.received.length, _, y', grows, further r',
      after.of_keeps s.pipe.keeps_releaseAllDeferred, fun before => ⟨held before, fun _ => rfl⟩⟩
  | releasedBytes count =>
    obtain ⟨r', k', x', y', grows, forward, after, place⟩ := o.releaseBytes rfl count
    refine ⟨r', k', x', y', grows, forward, after.of_keeps (s.pipe.keeps_releaseBytes _ _), ?_⟩
    intro held
    obtain ⟨held', place⟩ := place held
    refine ⟨held', fun whole => ?_⟩
    rwa [show Deferred.stopsInside count s.pipe.consumer.deferred = false from whole] at place
  | batched =>
    exact ⟨r, k, x, y, Nat.le_refl r, Int.le_refl x,
      Owes.of_keeps { o with } { Pipe.Keeps.refl s.pipe with }, fun held => ⟨held, fun _ => still⟩⟩

theorem Stands.call (st : s.Stands r x) (h : s.settled.Recorded) (m : s.Marked false)
    (change : s.CallChange c t) (turn : inTurn s c t) :
    ∃ r' x', r ≤ r' ∧ x ≤ x' ∧ t.Stands r' x' := by
  obtain ⟨k, y, o⟩ := st
  obtain ⟨r', k', x', y', grows, forward, after, -⟩ := o.call h m change turn
  exact ⟨r', x', grows, forward, k', y', after⟩

/-! ## Runs -/

/-- The published tails spare what is put off: the slab tail is where a fragment ends, the blob tail
has come `x` bytes far, not short of that end, and neither lies behind the part of a fragment that
is put off and not given back. -/
structure SparesDeferred (s : Session) (x : Int) : Prop where
  cell : s.pipe.store.slabTail = s.slabAt s.released
  byte : s.pipe.store.blobTail % (s.pipe.store.config.blobSize : Int) =
    x % (s.pipe.store.config.blobSize : Int)
  low : s.blobAt s.released ≤ x
  high : x ≤ s.blobAt s.received.length
  deferred : ∀ e ∈ s.pipe.consumer.deferred, ∃ k w, k < s.received.length ∧
    s.written[k]? = some w ∧ e.slabTail = s.slabAt (k + 1) ∧ e.length ≤ w.taken ∧
      s.pipe.store.slabTail ≤ s.slabAt k ∧ x ≤ s.blobAt (k + 1) - e.length

/-- Through calls the tails spare what is put off, and none of them takes a tail back: `x` is how
far the blob tail has come along the bytes. -/
def Advances (s : Session) (x : Int) : List Call → Prop
  | [] => s.SparesDeferred x
  | c :: rest =>
    s.SparesDeferred x ∧ ∀ t, s.call c = some t →
      s.pipe.store.slabTail ≤ t.pipe.store.slabTail ∧ ∃ y, x ≤ y ∧ t.Advances y rest

/-- The state of a run with every release in turn. -/
structure Orderly (s : Session) (r : Nat) (x : Int) : Prop where
  recorded : s.settled.Recorded
  marked : s.Marked false
  stands : s.Stands r x

/-- The slab tail tells how many fragments are given back. -/
theorem Owes.released_eq (o : s.Owes s.pipe r k queue x y) (h : s.settled.Recorded) :
    s.released = r := by
  have visible : s.published ≤ s.written.length := h.aligned.1.visible_le
  have received : s.received.length ≤ s.published := h.aligned.2.received_le
  have length := o.queued.length
  have given_le := o.given_le
  exact released_of_given o.given (by omega)

theorem Orderly.sparesDeferred (g : s.Orderly r x) : s.SparesDeferred x := by
  obtain ⟨h, m, k, y, o⟩ := g
  have visible : s.published ≤ s.written.length := h.aligned.1.visible_le
  have received : s.received.length ≤ s.published := h.aligned.2.received_le
  have same := o.released_eq h
  have size : s.pipe.store.blob.size = s.pipe.store.config.blobSize := h.size
  have byte := o.byte
  have high := o.high
  have given := o.given
  rw [size] at byte
  refine ⟨same ▸ o.given, byte, same ▸ o.low, ?_, ?_⟩
  · exact Int.le_trans o.high o.queued.owedFrom_le
  · intro e member
    obtain ⟨j, after, inside, cell, some, fits, owed⟩ := o.queued.mem member
    have before := s.slabAt_mono (Nat.le_trans o.given_le after)
    have found := List.getElem?_eq_getElem (l := s.written) (i := j) (by omega)
    have ends := blobAt_succ found
    exact ⟨j, _, inside, found, cell, by omega, by omega, by omega⟩

theorem Orderly.call (g : s.Orderly r x) (call : s.call c = some t) (turn : inTurn s c t) :
    s.pipe.store.slabTail ≤ t.pipe.store.slabTail ∧ ∃ r' x', x ≤ x' ∧ t.Orderly r' x' := by
  obtain ⟨h, m, stands⟩ := g
  have change := callChange_of_call call
  obtain ⟨r', x', grows, forward, after⟩ := stands.call h m change turn
  have marked := m.call h change nofun
  have later : s.pipe.store.slabTail ≤ t.pipe.store.slabTail := by
    obtain ⟨k, y, o⟩ := stands
    obtain ⟨k', y', o'⟩ := after
    have length := o.queued.length
    have given_le := o.given_le
    have before := t.slabAt_mono grows
    rw [o.given, o'.given, ← change.slabAt_eq h (by omega)]
    exact before
  exact ⟨later, r', x', forward, h.moves (settled_call h change marked.givesEnd later), marked,
    after⟩

theorem Orderly.advances {calls : List Call} (g : s.Orderly r x)
    (run : perform inTurn s calls = some t) : s.Advances x calls ∧ ∃ r' x', t.Orderly r' x' := by
  induction calls generalizing s r x with
  | nil =>
    cases run
    exact ⟨g.sparesDeferred, r, x, g⟩
  | cons c rest ih =>
    rw [perform, Option.bind_eq_some_iff] at run
    obtain ⟨u, call, later⟩ := run
    split at later
    · next turn =>
      obtain ⟨cells, r', x', bytes, after⟩ := g.call call turn
      obtain ⟨advances, last⟩ := ih after later
      refine ⟨⟨g.sparesDeferred, ?_⟩, last⟩
      intro v call'
      rw [call] at call'
      cases call'
      exact ⟨cells, x', bytes, advances⟩
    · cases later

/-- A prepared pipe owes nothing. -/
theorem owes_of_prepares {registry : Registry} {config : Config} {slab blob : Int} {p : Pipe}
    (prepared : registry.Prepares config slab blob p) :
    (Session.start p).Owes p 0 0 p.consumer.deferred p.store.blobHead p.store.blobHead := by
  obtain ⟨q, publish, release, events, opened, rfl⟩ := prepared.eq_inBatches
  rw [Registry.eq_of_open? opened]
  have place := (slabAt_zero (Session.start (.start
    ((Store.empty registry.created config false).moveTo slab (blob % blobSpan))))).symm
  refine ⟨.nil, place, Nat.le_refl 0, rfl, ?_, ?_, Int.le_of_eq place, ?_⟩
  · exact Int.le_of_eq (Int.add_zero _)
  · exact Int.le_of_eq (Int.add_zero _).symm
  · intro short
    exact absurd short (Nat.lt_irrefl 0)

theorem orderly_of_prepares {registry : Registry} {config : Config} {slab blob : Int} {p : Pipe}
    (prepared : registry.Prepares config slab blob p) :
    (Session.start p).Orderly 0 p.store.blobHead := by
  have recorded := (batched_of_prepares prepared).recorded
  exact ⟨(passes_settled recorded.aligned).recorded recorded, marked_of_prepares prepared, 0, _,
    owes_of_prepares prepared⟩

theorem orderly_of_open? {registry : Registry} {config : Config} {slab blob : Int} {p : Pipe}
    (opened : registry.open? config slab blob = some p) :
    (Session.start p).Orderly 0 p.store.blobHead := orderly_of_prepares (.opened opened)

/-! ## Releases out of turn -/

/-- What a batch holds back is published by a flush. -/
theorem le_slabTail_flushReleased {cell : Int}
    (held : cell ≤ p.store.slabTail ∨ cell ≤ p.consumer.heldSlab) :
    cell ≤ p.flushReleased.store.slabTail := by
  unfold Pipe.flushReleased
  split
  · show cell ≤ p.consumer.heldSlab
    omega
  · show cell ≤ p.store.slabTail
    omega

theorem le_slabTail_flush_releaseBatched (p : Pipe) (slabTail blobTail : Int) :
    slabTail ≤ (p.releaseBatched slabTail blobTail).flushReleased.store.slabTail := by
  refine le_slabTail_flushReleased ?_
  by_cases complete : p.consumer.countdown - 1 ≤ 0
  · rw [Pipe.releaseBatched_of_complete complete]
    exact .inl (Int.le_refl _)
  · rw [Pipe.releaseBatched_of_partial complete]
    exact .inr (Int.le_refl _)

/-- After a release of what was read last and a flush, the slab tail is behind all that was received
before. -/
theorem Orderly.passed (g : s.Orderly r x) (call : s.call c = some t)
    (last : c.releasesLast = true) :
    t.pipe.consumer.deferred = s.pipe.consumer.deferred ∧
      s.slabAt s.received.length ≤ t.pipe.flushReleased.store.slabTail := by
  have recorded := g.recorded
  cases c with
  | plain a =>
    cases a with
    | release =>
      obtain ⟨a, reading, closed, rfl⟩ := release_of_step (show s.step .release = some t from call)
      obtain ⟨-, -, -, cell, -⟩ := after_byteCount recorded reading closed
      have forward := s.slabAt_mono (Nat.le_succ s.received.length)
      refine ⟨Pipe.deferred_releaseBatched .., Int.le_trans forward ?_⟩
      rw [Nat.succ_eq_add_one, ← cell]
      exact le_slabTail_flush_releaseBatched ..
    | releaseToHere =>
      obtain ⟨idle, rfl⟩ := releaseToHere_of_step (show s.step .releaseToHere = some t from call)
      obtain ⟨tail, -⟩ := recorded.aligned.2.idle idle
      exact ⟨rfl, le_slabTail_flushReleased (.inl (Int.le_of_eq tail.symm))⟩
    | _ => cases last
  | _ => cases last

/-- A release out of turn lets the next flush publish a slab tail behind a fragment that is put
off. -/
theorem Orderly.not_sparesDeferred (g : s.Orderly r x) (call : s.call c = some t)
    (turn : ¬inTurn s c t) (x' : Int) :
    ¬SparesDeferred { t with pipe := t.pipe.flushReleased } x' := by
  intro spares
  have recorded := g.recorded
  obtain ⟨last, put⟩ := Classical.not_imp.mp turn
  obtain ⟨same, passed⟩ := g.passed call last
  obtain ⟨k, y, o⟩ := g.stands
  obtain ⟨e, member⟩ := List.exists_mem_of_ne_nil _ put
  have still : e ∈ t.pipe.flushReleased.consumer.deferred := by
    rw [Pipe.deferred_flushReleased, same]
    exact member
  obtain ⟨i, w, -, found, cell, -, before, -⟩ := spares.deferred e still
  obtain ⟨j, -, behind, cell', -⟩ := o.queued.mem member
  -- The fragment that is put off ends where some fragment was received, which the flush has passed.
  have far := s.slabAt_mono (show j + 1 ≤ s.received.length from behind)
  have next := slabAt_succ (s := { t with pipe := t.pipe.flushReleased }) found
  have positive : 0 < w.size := Nat.succ_pos _
  change t.pipe.flushReleased.store.slabTail ≤ _ at before
  omega

end Session

/-- With every release in turn, no call takes a published tail back, and the tails spare what is put
off, whichever fragments are released at once or later, whole or by bytes, and in batches of
whichever size. Any release out of turn lets the next flush publish a tail behind a fragment that
is put off. -/
theorem tails_advance {registry : Registry} {config : Config} {slab blob : Int} {p : Pipe}
    {s : Session} {calls : List Call} (opened : registry.open? config slab blob = some p)
    (run : Session.perform inTurn (Session.start p) calls = some s) :
    (Session.start p).Advances p.store.blobHead calls ∧
      ∀ c t, s.call c = some t → ¬inTurn s c t →
        ∀ x, ¬Session.SparesDeferred { t with pipe := t.pipe.flushReleased } x := by
  obtain ⟨advances, r, x, orderly⟩ := (Session.orderly_of_open? opened).advances run
  exact ⟨advances, fun c t call turn => orderly.not_sparesDeferred call turn⟩

/-- Both are put off and given back by bytes: four bytes are the first and half of the second. -/
def byBytes : List Call := twoMessages ++ deferSample ++ deferSample ++ [.releaseBytes 4]

theorem tails_advance_sample :
    ∃ s, Session.perform inTurn (Session.start samplePipe) byBytes = some s ∧
      s.pipe.store.slabTail = 8 ∧ s.pipe.store.blobTail = 2 ∧
      s.pipe.consumer.deferred = [⟨13, 3, 1⟩] ∧
      (Session.start samplePipe).Advances 30 byBytes := by
  have evaluated : (Session.perform inTurn (Session.start samplePipe) byBytes).any fun s =>
      s.pipe.store.slabTail = 8 ∧ s.pipe.store.blobTail = 2 ∧
        s.pipe.consumer.deferred = [⟨13, 3, 1⟩] := by decide +kernel
  obtain ⟨s, performed, checked⟩ := (Option.any_eq_true ..).mp evaluated
  obtain ⟨cell, byte, left⟩ := of_decide_eq_true checked
  obtain ⟨advances, -⟩ := tails_advance open?_sample performed
  exact ⟨s, performed, cell, byte, left, advances⟩

/-- The tails do not always go forward. The first of two messages is put off and the second one
released at once, so the tails are published behind the first one, which is still put off; when it
is released after that, both tails go back. -/
theorem tails_go_back :
    let calls : List Call := twoMessages ++ deferSample ++ readSample.map .plain
    let tails (s : Session) : Int × Int × List Deferred :=
      (s.pipe.store.slabTail, s.pipe.store.blobTail, s.pipe.consumer.deferred)
    (Session.perform (fun _ _ _ => True) (Session.start samplePipe) calls).map tails =
      some (13, 3, [⟨8, 1, 3⟩]) ∧
    (Session.perform (fun _ _ _ => True) (Session.start samplePipe)
      (calls ++ [.releaseDeferred])).map tails = some (8, 1, []) := by
  decide +kernel

end FragmentPipe
