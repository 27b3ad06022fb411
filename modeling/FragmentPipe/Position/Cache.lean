/-!
What each side of a pipe remembers of the other side's published position. A check first looks at
the remembered position and only when that does not suffice at the current one, which it then
remembers. Sizes are signed: a negative size asks for less than nothing, and confirming it takes back
what was confirmed. Positions and sizes are numbers without bound in place of 64 bit words, which
makes no difference to a pipe whose positions are in the range of `slab_sums_exact`. Main statements:
`reaches_answer`, with a peer that never goes back the answer is the one the current position gives,
and `sizeOfWord_of_lt`, small words mean themselves.
-/

namespace FragmentPipe

/-- The size that a 64 bit word means. The upper half of the words are the negative sizes. -/
def sizeOfWord (word : Nat) : Int := (word : Int).bmod 0x10000000000000000

theorem sizeOfWord_of_lt {word : Nat} (h : word < 0x8000000000000000) : sizeOfWord word = word := by
  unfold sizeOfWord
  rw [Int.bmod_eq_of_le] <;> omega

example : sizeOfWord 0xFFFFFFFFFFFFFFFC = -4 := by decide

/-- The outcome of a check: the answer, how often the current position was looked at, and what is
remembered afterwards. -/
structure Check (κ : Type) where
  answer : Bool
  looks : Nat
  cache : κ

/-- Whether the peer's position is at least `target`. The position `seen` is remembered, `current`
is what a look at the peer would give. -/
def reaches (seen target current : Int) : Check Int :=
  if target ≤ seen then ⟨true, 0, seen⟩ else ⟨decide (target ≤ current), 1, current⟩

theorem reaches_answer {seen target current : Int} (h : seen ≤ current) :
    (reaches seen target current).answer = decide (target ≤ current) := by
  unfold reaches
  split <;> simp
  omega

/-- A check remembers what it remembered before, or what it has just seen. -/
theorem cache_reaches (seen target current : Int) :
    (reaches seen target current).cache = seen ∨ (reaches seen target current).cache = current := by
  unfold reaches
  split
  · exact .inl rfl
  · exact .inr rfl

/-- The writer's view of the reader: the released position it saw last, and the position that must
be released before the next fragment may start. -/
structure RoomCache where
  tailSeen : Int
  target : Int
  deriving DecidableEq, Repr

namespace RoomCache

/-- Everything up to `position` is released. -/
def start (position slabSize : Int) : RoomCache := ⟨position, position - slabSize⟩

/-- Whether the released position is at least `target`. -/
def tailReaches (c : RoomCache) (target current : Int) : Check RoomCache :=
  let r := reaches c.tailSeen target current
  ⟨r.answer, r.looks, { c with tailSeen := r.cache }⟩

/-- Whether `size` more cells are free. -/
def hasRoom (c : RoomCache) (size current : Int) : Check RoomCache :=
  c.tailReaches (c.target + size) current

/-- Accounts for `size` cells as taken. -/
def confirm (c : RoomCache) (size : Int) : RoomCache := { c with target := c.target + size }

/-- Forgets everything taken after `position`. -/
def rewind (c : RoomCache) (position slabSize : Int) : RoomCache :=
  { c with target := position - slabSize }

end RoomCache

/-- The reader's view of the writer: the published position it saw last, and how far it has
confirmed its own reading. -/
structure ContentCache where
  headSeen : Int
  confirmed : Int
  deriving DecidableEq, Repr

namespace ContentCache

/-- Nothing after `position` is published. -/
def start (position : Int) : ContentCache := ⟨position, position⟩

/-- Whether at least `size` cells after the confirmed position are published, where a size of zero
asks that the published position is not behind the confirmed one. -/
def hasContentSized (c : ContentCache) (size current : Int) : Check ContentCache :=
  let r := reaches c.headSeen (c.confirmed + size) current
  ⟨r.answer, r.looks, { c with headSeen := r.cache }⟩

/-- Whether any cell after the confirmed position is published. -/
def hasContent (c : ContentCache) (current : Int) : Check ContentCache :=
  c.hasContentSized 1 current

/-- Accounts for `size` cells as read. -/
def confirm (c : ContentCache) (size : Int) : ContentCache :=
  { c with confirmed := c.confirmed + size }

/-- Moves the confirmed position. -/
def rewind (c : ContentCache) (position : Int) : ContentCache := { c with confirmed := position }

end ContentCache

end FragmentPipe
