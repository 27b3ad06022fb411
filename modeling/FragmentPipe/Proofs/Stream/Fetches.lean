import FragmentPipe.Proofs.Stream.Items
import FragmentPipe.Proofs.Stream.Slices
import FragmentPipe.Proofs.Transfer.Session

/-!
Reading a view bit by bit. A `Fetch` is a call that reads or passes bytes of a view and minds the end
of its field; `Fetch.answer` is its answer where certain bytes are left, and `Fetch.Tells` says what
an answer has to tell of the bytes gone past. Main statements: `FieldView.fetchAll_of_shows`, fetches
answer as the bytes in view alone have it, and `fetches_partition`, fetches of any kinds go past the
bytes of the field one after the other and stop at its end.
-/

namespace FragmentPipe

/-- A kind of number that takes the same number of bytes whatever its value. -/
inductive Fixed where
  | bool
  | byte
  | unsignedByte
  | short
  | unit
  | int
  | long
  | floatBits
  | doubleBits
  deriving DecidableEq, Repr

namespace Fixed

/-- The bytes of the number. -/
def width : Fixed → Nat
  | bool | byte | unsignedByte => 1
  | short | unit => 2
  | int | floatBits => 4
  | long | doubleBits => 8

/-- What the number is for its caller. -/
def Value : Fixed → Type
  | bool => Bool
  | byte => Int8
  | unsignedByte => UInt8
  | short => Int16
  | unit => UInt16
  | int => Int32
  | long => Int64
  | floatBits => UInt32
  | doubleBits => UInt64

/-- The value that bytes stand for, given the natural number they stand for. -/
def meaning : (k : Fixed) → Nat → k.Value
  | bool => (· != 0)
  | byte => Int8.ofNat
  | unsignedByte => UInt8.ofNat
  | short => Int16.ofNat
  | unit => UInt16.ofNat
  | int => Int32.ofNat
  | long => Int64.ofNat
  | floatBits => UInt32.ofNat
  | doubleBits => UInt64.ofNat

/-- Reads the number from a view. -/
def read (v : FieldView) (s : Store) : (k : Fixed) → Except StreamError k.Value × FieldView
  | bool => v.readBool s
  | byte => v.readByte s
  | unsignedByte => v.readUnsignedByte s
  | short => v.readShort s
  | unit => v.readUnit s
  | int => v.readInt s
  | long => v.readLong s
  | floatBits => v.readFloatBits s
  | doubleBits => v.readDoubleBits s

/-- All kinds are read alike: as many bytes as the number takes, the lowest one first. -/
theorem read_eq (v : FieldView) (s : Store) (k : Fixed) :
    read v s k = v.takeAs s k.width k.meaning := by
  cases k with
  | _ => rfl

end Fixed

/-- A call that reads or passes bytes of a view. -/
inductive Fetch where
  /-- One byte. -/
  | next
  /-- At most `limit` bytes, into a place that is told when none are left. -/
  | into (limit : Nat)
  /-- At most `limit` bytes, as any stream is read: no bytes when none are left. -/
  | stream (limit : Nat)
  /-- At most `limit` bytes, behind those that there are. -/
  | append (limit : Nat)
  /-- At most `count` bytes, which are not read. -/
  | skip (count : Nat)
  | number (k : Fixed)

namespace Fetch

/-- What the call answers with. -/
abbrev Answer : Fetch → Type
  | next => Option UInt8
  | into _ => Option (List UInt8)
  | stream _ | append _ => List UInt8
  | skip _ => Nat
  | number k => Except StreamError k.Value

/-- Makes the call. -/
def run (v : FieldView) (s : Store) : (c : Fetch) → c.Answer × FieldView
  | next => v.next? s
  | into limit => v.read? s limit
  | stream limit => ((v.read? s limit).1.getD [], (v.read? s limit).2)
  | append limit => v.read s limit
  | skip count => v.skip count
  | number k => k.read v s

/-! ## Fetches of a list of bytes -/

/-- The answer where these bytes are left. -/
def answer (left : List UInt8) : (c : Fetch) → c.Answer
  | next => left.head?
  | into limit => if left.length = 0 then none else some (left.take limit)
  | stream limit | append limit => left.take limit
  | skip count => (min count left.length : Nat)
  | number k =>
    if left.length < k.width then .error .unexpectedEnd
    else .ok (k.meaning (LittleEndian.decode (left.take k.width)))

/-- How many bytes the call goes past where `left` bytes are left: a number is read as a whole or not
at all, everything else as far as it is there. -/
def width (left : Nat) : Fetch → Nat
  | next => min 1 left
  | into limit | stream limit | append limit => min limit left
  | skip count => min count left
  | number k => if left < k.width then 0 else k.width

/-- What an answer has to tell where `left` bytes are left and the call goes past the bytes `part`:
the bytes, or how many they are, or what they mean, and where there are none, the end of the field. -/
def Tells (left : Nat) (part : List UInt8) : (c : Fetch) → c.Answer → Prop
  | next, answer => answer = part.head? ∧ (answer = none ↔ left = 0)
  | into _, answer => answer.getD [] = part ∧ (answer = none ↔ left = 0)
  | stream _, answer => answer = part
  | append _, answer => answer = part
  | skip _, answer => answer = part.length
  | number k, answer =>
    answer = if left < k.width then .error .unexpectedEnd
      else .ok (k.meaning (LittleEndian.decode part))

/-- The answers tell of these bytes, one part after the other, where `left` bytes are left at
first. -/
inductive Accounts : Nat → List (Σ c : Fetch, c.Answer) → List UInt8 → Prop
  | nil (left : Nat) : Accounts left [] []
  | cons {left : Nat} {part parts : List UInt8} {c : Fetch} {answer : c.Answer}
      {answers : List (Σ c : Fetch, c.Answer)} (width : part.length = c.width left)
      (tells : c.Tells left part answer) (later : Accounts (left - part.length) answers parts) :
      Accounts left (⟨c, answer⟩ :: answers) (part ++ parts)

/-- The answers to calls one after the other, where these bytes are left at first. -/
def answers (left : List UInt8) : List Fetch → List (Σ c : Fetch, c.Answer)
  | [] => []
  | c :: calls => ⟨c, c.answer left⟩ :: answers (left.drop (c.width left.length)) calls

/-- How many bytes the calls go past. -/
def passed (left : Nat) : List Fetch → Nat
  | [] => 0
  | c :: calls => c.width left + passed (left - c.width left) calls

theorem width_le (left : Nat) (c : Fetch) : c.width left ≤ left := by
  cases c with
  | number k =>
    rw [width]
    split
    · exact Nat.zero_le _
    · omega
  | _ => exact Nat.min_le_right ..

theorem passed_le (left : Nat) (calls : List Fetch) : passed left calls ≤ left := by
  induction calls generalizing left with
  | nil => exact Nat.zero_le _
  | cons c calls ih =>
    have first := c.width_le left
    have rest := ih (left - c.width left)
    rw [passed]
    omega

theorem take_min_length (left : List UInt8) (limit : Nat) :
    left.take (min limit left.length) = left.take limit := by
  rw [List.take_eq_take_min, Nat.min_assoc, Nat.min_self, ← List.take_eq_take_min]

/-- The bytes at the front are told, as many as the call goes past. -/
theorem tells_answer (left : List UInt8) (c : Fetch) :
    c.Tells left.length (left.take (c.width left.length)) (c.answer left) := by
  cases c with
  | next =>
    cases left with
    | nil => exact ⟨rfl, iff_of_true rfl rfl⟩
    | cons b left => exact ⟨by rw [width, take_min_length]; rfl, iff_of_false nofun nofun⟩
  | into limit =>
    by_cases atEnd : left.length = 0
    · have empty := List.length_eq_zero_iff.mp atEnd
      subst empty
      exact ⟨List.take_nil.symm, iff_of_true rfl rfl⟩
    · have told : (into limit).answer left = some (left.take limit) := if_neg atEnd
      rw [told]
      exact ⟨(take_min_length left limit).symm, iff_of_false nofun atEnd⟩
  | stream limit | append limit => exact (take_min_length left limit).symm
  | skip count =>
    show min count left.length = (left.take (min count left.length)).length
    rw [List.length_take_of_le (Nat.min_le_right ..)]
  | number k =>
    show (if left.length < k.width then _ else _) = if left.length < k.width then _ else _
    by_cases short : left.length < k.width
    · rw [if_pos short, if_pos short]
    · rw [if_neg short, if_neg short, width, if_neg short]

/-- All the answers account for the bytes that the calls go past, which are at the front. -/
theorem accounts_answers (left : List UInt8) (calls : List Fetch) :
    Accounts left.length (answers left calls) (left.take (passed left.length calls)) := by
  induction calls generalizing left with
  | nil => exact .nil _
  | cons c calls ih =>
    have length : (left.take (c.width left.length)).length = c.width left.length :=
      List.length_take_of_le (c.width_le _)
    have rest := ih (left.drop (c.width left.length))
    rw [List.length_drop] at rest
    rw [passed, List.take_add]
    exact .cons length (c.tells_answer left) (length.symm ▸ rest)

end Fetch

/-! ## Bytes one behind the other -/

namespace FieldView

variable {v : FieldView} {s : Store}

/-- Behind bytes come those that the moved cursor shows. -/
theorem bytes_add (turn : (s.blob.size : Int) ∣ wordSpan) (m n : Nat) :
    v.bytes s (m + n) = v.bytes s m ++ (v.advance m).bytes s n := by
  unfold bytes advance
  cases v.backing with
  | blob =>
    dsimp only
    rw [ByteStore.getList_add, (Pipe.folds_ring turn).getList]
  | constants =>
    dsimp only
    rw [ByteStore.getList_add, (Pipe.folds_buffer _).getList]

theorem bytes_one : v.bytes s 1 = [v.byteAt s v.position] := by
  unfold bytes byteAt
  cases v.backing with
  | _ => simp [ByteStore.getList]

/-- What the view has left are these bytes. A ring does not notice that positions are 32 bit words. -/
structure Shows (v : FieldView) (s : Store) (left : List UInt8) : Prop where
  turn : (s.blob.size : Int) ∣ wordSpan
  remaining : v.remaining = left.length
  bytes : v.bytes s left.length = left

variable {left front rest : List UInt8}

theorem Shows.split (h : v.Shows s (front ++ rest)) :
    v.bytes s front.length = front ∧ (v.advance front.length).bytes s rest.length = rest := by
  have whole := h.bytes
  rw [List.length_append, bytes_add h.turn] at whole
  exact List.append_inj whole (length_bytes v s front.length)

/-- Behind what a fetch goes past lies the rest. -/
theorem Shows.advance (h : v.Shows s (front ++ rest)) : (v.advance front.length).Shows s rest := by
  have remaining := h.remaining
  rw [List.length_append] at remaining
  refine ⟨h.turn, ?_, h.split.2⟩
  show v.remaining - front.length = rest.length
  omega

/-! ## Fetches of a view -/

theorem Shows.bytes_eq (h : v.Shows s left) {count : Nat} (within : count ≤ left.length) :
    v.bytes s count = left.take count := by
  rw [← List.take_append_drop count left] at h
  have bytes := h.split.1
  rwa [List.length_take_of_le within] at bytes

theorem Shows.next?_eq (h : v.Shows s left) : (v.next? s).1 = left.head? := by
  cases left with
  | nil =>
    have atEnd : v.remaining = 0 := h.remaining
    rw [next?, if_pos atEnd, List.head?_nil]
  | cons b left =>
    have more : v.remaining ≠ 0 := h.remaining ▸ Nat.succ_ne_zero _
    have byte : v.bytes s 1 = [b] := h.bytes_eq (Nat.succ_le_succ (Nat.zero_le _))
    rw [bytes_one, List.cons.injEq] at byte
    rw [next?, if_neg more, List.head?_cons, byte.1]

theorem Shows.read_eq (h : v.Shows s left) (limit : Nat) : (v.read s limit).1 = left.take limit := by
  show v.bytes s (min limit v.remaining) = _
  rw [h.remaining, h.bytes_eq (Nat.min_le_right ..), Fetch.take_min_length]

theorem Shows.read?_eq (h : v.Shows s left) (limit : Nat) :
    (v.read? s limit).1 = if left.length = 0 then none else some (left.take limit) := by
  rw [← h.read_eq, ← h.remaining, read?]
  split <;> rfl

theorem Shows.takeAs_eq {α : Type} (h : v.Shows s left) (width : Nat) (meaning : Nat → α) :
    (v.takeAs s width meaning).1 =
      if left.length < width then .error .unexpectedEnd
      else .ok (meaning (LittleEndian.decode (left.take width))) := by
  rw [takeAs, takeNumber, h.remaining]
  by_cases short : left.length < width
  · rw [if_pos short, if_pos short]
    rfl
  · rw [if_neg short, if_neg short, h.bytes_eq (Nat.le_of_not_lt short)]
    rfl

/-- A fetch answers as the bytes that are left have it. -/
theorem Shows.run_fst (h : v.Shows s left) (c : Fetch) : (c.run v s).1 = c.answer left := by
  cases c with
  | next => exact h.next?_eq
  | into limit => exact h.read?_eq limit
  | stream limit =>
    show (v.read? s limit).1.getD [] = left.take limit
    rw [h.read?_eq]
    split
    · next atEnd => rw [List.length_eq_zero_iff.mp atEnd, List.take_nil, Option.getD_none]
    · rfl
  | append limit => exact h.read_eq limit
  | skip count => exact congrArg (min count) h.remaining
  | number k =>
    show (k.read v s).1 = _
    rw [Fixed.read_eq]
    exact h.takeAs_eq k.width k.meaning

/-- What a fetch leaves of a view. -/
theorem run_snd (v : FieldView) (s : Store) (c : Fetch) :
    ((c.run v s).2 = v ∧ c.width v.remaining = 0) ∨
      (c.run v s).2 = v.advance (c.width v.remaining) := by
  have read? (limit : Nat) : ((v.read? s limit).2 = v ∧ min limit v.remaining = 0) ∨
      (v.read? s limit).2 = v.advance (min limit v.remaining) := by
    by_cases atEnd : v.remaining = 0
    · exact .inl ⟨by rw [FieldView.read?, if_pos atEnd], by rw [atEnd, Nat.min_zero]⟩
    · exact .inr (by rw [FieldView.read?, if_neg atEnd]; rfl)
  cases c with
  | next =>
    by_cases atEnd : v.remaining = 0
    · exact .inl ⟨by rw [Fetch.run, next?, if_pos atEnd], by rw [Fetch.width, atEnd, Nat.min_zero]⟩
    · have one : min 1 v.remaining = 1 := by omega
      exact .inr (by rw [Fetch.run, next?, if_neg atEnd, Fetch.width, one])
  | into limit | stream limit => exact read? limit
  | append limit => exact .inr rfl
  | skip count => exact .inr rfl
  | number k =>
    by_cases short : v.remaining < k.width
    · refine .inl ⟨?_, if_pos short⟩
      rw [Fetch.run, Fixed.read_eq, takeAs, takeNumber, if_pos short]
    · refine .inr ?_
      rw [Fetch.run, Fixed.read_eq, takeAs, takeNumber, if_neg short, Fetch.width, if_neg short]

theorem next?_eq_none (v : FieldView) (s : Store) : (v.next? s).1 = none ↔ v.remaining = 0 := by
  unfold next?
  split
  · next atEnd => exact iff_of_true rfl atEnd
  · next more => exact iff_of_false nofun more

theorem read?_eq_none (v : FieldView) (s : Store) (limit : Nat) :
    (v.read? s limit).1 = none ↔ v.remaining = 0 := by
  unfold read?
  split
  · next atEnd => exact iff_of_true rfl atEnd
  · next more => exact iff_of_false nofun more

theorem fixed_eq_error (v : FieldView) (s : Store) (k : Fixed) :
    (k.read v s).1 = .error .unexpectedEnd ↔ v.remaining < k.width := by
  rw [Fixed.read_eq, takeAs, takeNumber]
  by_cases short : v.remaining < k.width
  · rw [if_pos short]
    exact iff_of_true rfl short
  · rw [if_neg short]
    refine iff_of_false ?_ short
    intro failed
    cases failed

theorem remaining_run (v : FieldView) (s : Store) (c : Fetch) :
    (c.run v s).2.remaining = v.remaining - c.width v.remaining := by
  obtain ⟨same, still⟩ | moved := run_snd v s c
  · rw [same, still, Nat.sub_zero]
  · rw [moved]
    rfl

/-- Behind what a fetch goes past lies the rest, also in a pipe that has changed elsewhere since. -/
theorem Shows.after {s' : Store} (h : v.Shows s' (front ++ rest)) (c : Fetch)
    (width : front.length = c.width v.remaining) : (c.run v s).2.Shows s' rest := by
  obtain ⟨same, still⟩ | moved := run_snd v s c
  · have nothing : front = [] := List.length_eq_zero_iff.mp (width.trans still)
    rw [same]
    rwa [nothing] at h
  · rw [moved, ← width]
    exact h.advance

/-- Makes a fetch where the pipe stands at the time of the call; the answer tells which it was. -/
def fetchAt (v : FieldView) (call : Fetch × Store) : (Σ c : Fetch, c.Answer) × FieldView :=
  (⟨call.1, (call.1.run v call.2).1⟩, (call.1.run v call.2).2)

/-- Makes fetches one after the other. -/
def fetchAll (v : FieldView) (calls : List (Fetch × Store)) :
    List (Σ c : Fetch, c.Answer) × FieldView := v.readAll fetchAt calls

/-- Fetches answer as the bytes have it that the view shows at the time of each of them. -/
theorem fetchAll_of_shows {calls : List (Fetch × Store)} (remaining : v.remaining = left.length)
    (shows : ∀ call ∈ calls, v.Shows call.2 left) :
    (v.fetchAll calls).1 = Fetch.answers left (calls.map Prod.fst) ∧
      (v.fetchAll calls).2.remaining =
        left.length - Fetch.passed left.length (calls.map Prod.fst) := by
  induction calls generalizing v left with
  | nil => exact ⟨rfl, remaining⟩
  | cons call calls ih =>
    obtain ⟨c, s⟩ := call
    obtain ⟨here, later⟩ := List.forall_mem_cons.mp shows
    have length : (left.take (c.width left.length)).length = c.width v.remaining := by
      rw [List.length_take_of_le (c.width_le _), remaining]
    have rest : ∀ call ∈ calls, (c.run v s).2.Shows call.2 (left.drop (c.width left.length)) := by
      intro call inside
      have shown := later call inside
      rw [← List.take_append_drop (c.width left.length) left] at shown
      exact shown.after c length
    obtain ⟨answers, remains⟩ := ih (by rw [remaining_run, remaining, List.length_drop]) rest
    refine ⟨?_, ?_⟩
    · show (⟨c, (c.run v s).1⟩ : Σ c : Fetch, c.Answer) :: ((c.run v s).2.fetchAll calls).1 = _
      rw [answers, here.run_fst]
      rfl
    · show ((c.run v s).2.fetchAll calls).2.remaining = _
      rw [remains, List.length_drop, List.map_cons, Fetch.passed, Nat.sub_sub]

/-- Fetches of a pipe that stands still answer as the bytes have it that the view shows. -/
theorem Shows.fetchAll_fst (h : v.Shows s left) (fetches : List Fetch) :
    (v.fetchAll (fetches.map (·, s))).1 = Fetch.answers left fetches := by
  have shows : ∀ call ∈ fetches.map (·, s), v.Shows call.2 left := by
    intro call inside
    obtain ⟨c, -, rfl⟩ := List.mem_map.mp inside
    exact h
  have fetched : (fetches.map (·, s)).map Prod.fst = fetches := by
    rw [List.map_map]
    exact List.map_id _
  rw [(fetchAll_of_shows h.remaining shows).1, fetched]

end FieldView

/-! ## A field in view -/

/-- A view just opened: on a field, on a run of bytes, or on a field that adjoins it as well. -/
inductive FieldView.Opened : FieldView → Prop
  | field (p : Pipe) : Opened (openField p).2.1
  | run (backing : Backing) (position length : Int) : Opened (ofRun backing position length)
  | joined {v : FieldView} (opened : v.Opened) (p : Pipe) : Opened (v.addField p).2.1

/-- What comes in view of a field is a run of its length. -/
theorem FieldView.openField_view (p : Pipe) : ∃ backing position,
    (openField p).2.1 = ofRun backing position p.takeDescriptor.1.length := by
  unfold openField
  dsimp only
  split
  · exact ⟨_, _, rfl⟩
  · exact ⟨_, _, rfl⟩

/-- All that a view just opened has to read is the field, and of an absent field nothing. -/
theorem FieldView.Opened.remaining_eq {v : FieldView} (opened : v.Opened) :
    v.remaining = v.length.toNat := by
  have field (p : Pipe) : (openField p).2.1.remaining = (openField p).2.1.length.toNat := by
    obtain ⟨backing, position, view⟩ := openField_view p
    rw [view]
    rfl
  induction opened with
  | field p => exact field p
  | run backing position length => rfl
  | @joined v opened p ih =>
    unfold addField
    split
    · exact field p
    · dsimp only
      split
      · show v.remaining + p.takeDescriptor.1.length.toNat =
          (v.length + p.takeDescriptor.1.length).toNat
        omega
      · exact ih

/-- A view just opened shows the field, as long as the pipe has its bytes. -/
theorem FieldView.Opened.shows_field {v : FieldView} (opened : v.Opened) {s : Store}
    {field : List UInt8} (turn : (s.blob.size : Int) ∣ wordSpan)
    (found : v.bytes s v.length.toNat = field) : v.Shows s field := by
  have length : field.length = v.length.toNat := by rw [← found, length_bytes]
  exact ⟨turn, opened.remaining_eq.trans length.symm, by rw [length, found]⟩

/-- Fetches part a field. For every view just opened, wherever its bytes lie and whatever its length,
an absent field having no bytes: fetches of any kinds, in any order and with any arguments, each made
where the pipe still has the bytes of the field, go past these bytes one after the other, and those
gone past so far are the ones that are not left. No fetch makes more of what is left, one byte or
some can not be read exactly if nothing is left, and a number exactly if fewer bytes are left than it
takes. -/
theorem fetches_partition {v : FieldView} (opened : v.Opened) (s : Store)
    {calls : List (Fetch × Store)}
    (kept : ∀ call ∈ calls, call.2.blob.bits ≤ 32 ∧
      v.bytes call.2 v.length.toNat = v.bytes s v.length.toNat) :
    let w := (v.fetchAll calls).2
    w.remaining ≤ v.length.toNat ∧
      Fetch.Accounts v.length.toNat (v.fetchAll calls).1
        ((v.bytes s v.length.toNat).take (v.length.toNat - w.remaining)) ∧
      ∀ t : Store,
        (∀ c : Fetch, (c.run w t).2.remaining ≤ w.remaining) ∧
          ((w.next? t).1 = none ↔ w.remaining = 0) ∧
          (∀ limit, (w.read? t limit).1 = none ↔ w.remaining = 0) ∧
          ∀ k : Fixed, (k.read w t).1 = .error .unexpectedEnd ↔ w.remaining < k.width := by
  intro w
  have size := FieldView.length_bytes v s v.length.toNat
  obtain ⟨answers, left⟩ := FieldView.fetchAll_of_shows (opened.remaining_eq.trans size.symm)
    fun call inside => opened.shows_field (Ring.size_dvd (kept call inside).1) (kept call inside).2
  have told := Fetch.accounts_answers (v.bytes s v.length.toNat) (calls.map Prod.fst)
  have within := Fetch.passed_le v.length.toNat (calls.map Prod.fst)
  rw [size] at told left
  change w.remaining = _ at left
  have passed : Fetch.passed v.length.toNat (calls.map Prod.fst) =
      v.length.toNat - w.remaining := by omega
  exact ⟨by omega, by rw [answers, ← passed]; exact told, fun t =>
    ⟨fun c => by rw [FieldView.remaining_run]; exact Nat.sub_le .., w.next?_eq_none t,
      w.read?_eq_none t, w.fixed_eq_error t⟩⟩

/-- Six bytes that go around the ring: a number of two bytes, a byte, two of the bytes behind it, and
then one byte is left, which is too few for a number. -/
theorem fetches_partition_sample :
    let s := { samplePipe.store with
      blob := ByteStore.putList samplePipe.store.blob 29 [1, 2, 3, 4, 5, 6] }
    let v := FieldView.ofRun .blob 29 6
    let calls : List Fetch := [.number .short, .next, .into 2, .number .int]
    (v.fetchAll (calls.map (·, s))).2.remaining = 1 ∧
      Fetch.Accounts 6 (v.fetchAll (calls.map (·, s))).1 [1, 2, 3, 4, 5] := by
  intro s v calls
  have kept : ∀ call ∈ calls.map (·, s), call.2.blob.bits ≤ 32 ∧
      v.bytes call.2 v.length.toNat = v.bytes s v.length.toNat := by decide +kernel
  obtain ⟨-, told, -⟩ := fetches_partition (.run .blob 29 6) s kept
  have left : (v.fetchAll (calls.map (·, s))).2.remaining = 1 := by decide +kernel
  have passed : (v.bytes s v.length.toNat).take (v.length.toNat - 1) = [1, 2, 3, 4, 5] := by
    decide +kernel
  rw [left, passed] at told
  exact ⟨left, told⟩

end FragmentPipe
