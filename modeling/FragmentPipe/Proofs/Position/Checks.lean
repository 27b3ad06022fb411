import Mathlib.Data.List.Chain
import FragmentPipe.Position.Cache

/-!
A check against a remembered position answers as a look at the peer would. What is remembered is one
of the positions that the peer had published at an earlier call (`seen_mem`), and a peer that never
goes back is at least there now; the side's own account, which a confirmation moves forwards and a
rewinding moves back, is kept by the calls alone (`own_foldl`). Both facts hold through every list of
calls because one call keeps them. Positions, sizes and the accounts are numbers without bound;
`slab_sums_exact` says in which pipes 64 bit words are as good. Main statement: `checks_direct`.
-/

namespace FragmentPipe

/-! ## One check -/

theorem looks_reaches (seen target current : Int) :
    (reaches seen target current).looks = if target ≤ seen then 0 else 1 := by
  unfold reaches
  split <;> rfl

/-- A check against the remembered position `seen` that could as well have been made directly: it
answers whether the current position is at least `target`, and looks at that position once, or not
at all where the remembered one suffices. -/
structure Check.Direct {κ : Type} (check : Check κ) (seen target current : Int) : Prop where
  answer : check.answer = decide (target ≤ current)
  looks : check.looks = if target ≤ seen then 0 else 1

/-! ## Lists of calls -/

section Calls

variable {κ call : Type}

/-- The state after calls, each with the position that the peer has published at that moment. -/
def afterCalls (after : κ → call → Int → κ) (k : κ) (calls : List (call × Int)) : κ :=
  calls.foldl (fun k made => after k made.1 made.2) k

/-- What one call keeps or replaces by the position of its moment is after any calls the first value
or the position of one of the moments. -/
theorem seen_mem {after : κ → call → Int → κ} (seen : κ → Int)
    (step : ∀ k c current, seen (after k c current) = seen k ∨ seen (after k c current) = current)
    (k : κ) (calls : List (call × Int)) :
    seen (afterCalls after k calls) ∈ seen k :: calls.map Prod.snd := by
  induction calls generalizing k with
  | nil => exact List.mem_singleton_self _
  | cons made rest ih =>
    have later := ih (after k made.1 made.2)
    rw [List.map_cons]
    rcases List.mem_cons.mp later with same | moment
    · rw [afterCalls, List.foldl_cons, ← afterCalls, same]
      rcases step k made.1 made.2 with kept | new
      · rw [kept]
        exact List.mem_cons_self
      · rw [new]
        exact List.mem_cons_of_mem _ List.mem_cons_self
    · exact List.mem_cons_of_mem _ (List.mem_cons_of_mem _ moment)

/-- What every call changes in a way of its own, whatever the peer has published, the calls alone
tell. -/
theorem own_foldl {after : κ → call → Int → κ} (own : κ → Int) (account : Int → call → Int)
    (step : ∀ k c current, own (after k c current) = account (own k) c) (k : κ)
    (calls : List (call × Int)) :
    own (afterCalls after k calls) = (calls.map Prod.fst).foldl account (own k) := by
  induction calls generalizing k with
  | nil => rfl
  | cons made rest ih =>
    rw [List.map_cons, List.foldl_cons, ← step k made.1 made.2, ← ih]
    rfl

/-- Where the published position never goes back, every earlier one is at most the current one. -/
theorem le_of_isChain {start current seen : Int} {moments : List Int}
    (forward : List.IsChain (· ≤ ·) (start :: moments ++ [current]))
    (earlier : seen ∈ start :: moments) : seen ≤ current :=
  (List.pairwise_append.mp forward.pairwise).2.2 seen earlier current (List.mem_singleton_self _)

end Calls

/-! ## The writer's calls -/

/-- A call on what the writer remembers. -/
inductive RoomCall where
  | hasRoom (size : Int)
  | tailReaches (target : Int)
  | confirm (size : Int)
  | rewind (position slabSize : Int)
  deriving DecidableEq, Repr

namespace RoomCache

/-- The cache after a call that is made while the released position is `current`. -/
def after (c : RoomCache) : RoomCall → Int → RoomCache
  | .hasRoom size, current => (c.hasRoom size current).cache
  | .tailReaches target, current => (c.tailReaches target current).cache
  | .confirm size, _ => c.confirm size
  | .rewind position slabSize, _ => c.rewind position slabSize

/-- The position that must be released before the next fragment may start, without a cache. -/
def account (target : Int) : RoomCall → Int
  | .hasRoom _ => target
  | .tailReaches _ => target
  | .confirm size => target + size
  | .rewind position slabSize => position - slabSize

theorem tailSeen_after (c : RoomCache) (call : RoomCall) (current : Int) :
    (c.after call current).tailSeen = c.tailSeen ∨ (c.after call current).tailSeen = current := by
  cases call with
  | hasRoom size => exact cache_reaches _ _ _
  | tailReaches target => exact cache_reaches _ _ _
  | confirm size => exact .inl rfl
  | rewind position slabSize => exact .inl rfl

theorem target_after (c : RoomCache) (call : RoomCall) (current : Int) :
    (c.after call current).target = account c.target call := by
  cases call <;> rfl

theorem direct_tailReaches {c : RoomCache} {current : Int} (behind : c.tailSeen ≤ current)
    (target : Int) : (c.tailReaches target current).Direct c.tailSeen target current :=
  ⟨reaches_answer behind, looks_reaches _ _ _⟩

end RoomCache

/-! ## The reader's calls -/

/-- A call on what the reader remembers. -/
inductive ContentCall where
  | hasContent
  | hasContentSized (size : Int)
  | confirm (size : Int)
  | rewind (position : Int)
  deriving DecidableEq, Repr

namespace ContentCache

/-- The cache after a call that is made while the published position is `current`. -/
def after (c : ContentCache) : ContentCall → Int → ContentCache
  | .hasContent, current => (c.hasContent current).cache
  | .hasContentSized size, current => (c.hasContentSized size current).cache
  | .confirm size, _ => c.confirm size
  | .rewind position, _ => c.rewind position

/-- How far the reader has confirmed its own reading, without a cache. -/
def account (confirmed : Int) : ContentCall → Int
  | .hasContent => confirmed
  | .hasContentSized _ => confirmed
  | .confirm size => confirmed + size
  | .rewind position => position

theorem headSeen_after (c : ContentCache) (call : ContentCall) (current : Int) :
    (c.after call current).headSeen = c.headSeen ∨ (c.after call current).headSeen = current := by
  cases call with
  | hasContent => exact cache_reaches _ _ _
  | hasContentSized size => exact cache_reaches _ _ _
  | confirm size => exact .inl rfl
  | rewind position => exact .inl rfl

theorem confirmed_after (c : ContentCache) (call : ContentCall) (current : Int) :
    (c.after call current).confirmed = account c.confirmed call := by
  cases call <;> rfl

theorem direct_hasContentSized {c : ContentCache} {current : Int} (behind : c.headSeen ≤ current)
    (size : Int) :
    (c.hasContentSized size current).Direct c.headSeen (c.confirmed + size) current :=
  ⟨reaches_answer behind, looks_reaches _ _ _⟩

end ContentCache

/-! ## Every answer is the direct one -/

/-- A side that starts at `position`, whatever it then asks, confirms and rewinds, while what its peer
has published never goes back: the next question is answered as the peer's current position and the
side's own calls say, with at most one look at it and with none where the remembered position, which
is the first one or one of the moments, suffices. -/
theorem checks_direct (position current : Int) :
    (∀ (slabSize : Int) (calls : List (RoomCall × Int)),
      List.IsChain (· ≤ ·) (position :: calls.map Prod.snd ++ [current]) →
        let cache := afterCalls RoomCache.after (RoomCache.start position slabSize) calls
        let target := (calls.map Prod.fst).foldl RoomCache.account (position - slabSize)
        cache.tailSeen ∈ position :: calls.map Prod.snd ∧
          (∀ size, (cache.hasRoom size current).Direct cache.tailSeen (target + size) current) ∧
          ∀ goal, (cache.tailReaches goal current).Direct cache.tailSeen goal current) ∧
    (∀ calls : List (ContentCall × Int),
      List.IsChain (· ≤ ·) (position :: calls.map Prod.snd ++ [current]) →
        let cache := afterCalls ContentCache.after (ContentCache.start position) calls
        let confirmed := (calls.map Prod.fst).foldl ContentCache.account position
        cache.headSeen ∈ position :: calls.map Prod.snd ∧
          (cache.hasContent current).Direct cache.headSeen (confirmed + 1) current ∧
          ∀ size, (cache.hasContentSized size current).Direct cache.headSeen (confirmed + size)
            current) := by
  refine ⟨fun slabSize calls forward => ?_, fun calls forward => ?_⟩
  · intro cache target
    have remembered : cache.tailSeen ∈ position :: calls.map Prod.snd :=
      seen_mem RoomCache.tailSeen RoomCache.tailSeen_after _ calls
    have own : cache.target = target :=
      own_foldl RoomCache.target RoomCache.account RoomCache.target_after _ calls
    have behind := le_of_isChain forward remembered
    refine ⟨remembered, fun size => ?_, RoomCache.direct_tailReaches behind⟩
    rw [← own]
    exact RoomCache.direct_tailReaches behind _
  · intro cache confirmed
    have remembered : cache.headSeen ∈ position :: calls.map Prod.snd :=
      seen_mem ContentCache.headSeen ContentCache.headSeen_after _ calls
    have own : cache.confirmed = confirmed :=
      own_foldl ContentCache.confirmed ContentCache.account ContentCache.confirmed_after _ calls
    have behind := le_of_isChain forward remembered
    rw [← own]
    exact ⟨remembered, ContentCache.direct_hasContentSized behind 1,
      ContentCache.direct_hasContentSized behind⟩

/-- The writer gives up what it has taken and asks for more than is free, the reader goes back and
finds the rest: both look, and a smaller question is answered without a look. -/
theorem checks_direct_sample :
    let room := afterCalls RoomCache.after (RoomCache.start 0 8)
      [(.hasRoom 8, 0), (.confirm 8, 0), (.hasRoom 1, 3), (.confirm 4, 4), (.rewind 2 8, 5)]
    let content := afterCalls ContentCache.after (ContentCache.start 0)
      [(.hasContent, 2), (.hasContentSized 3, 3), (.confirm 3, 3), (.rewind 0, 5)]
    room.hasRoom 13 6 = ⟨false, 1, ⟨6, -6⟩⟩ ∧ (room.hasRoom 13 6).Direct 3 7 6 ∧
      room.tailReaches 3 6 = ⟨true, 0, ⟨3, -6⟩⟩ ∧ (room.tailReaches 3 6).Direct 3 3 6 ∧
      content.hasContentSized 4 6 = ⟨true, 1, ⟨6, 0⟩⟩ ∧ (content.hasContentSized 4 6).Direct 3 4 6 ∧
      content.hasContent 6 = ⟨true, 0, ⟨3, 0⟩⟩ ∧ (content.hasContent 6).Direct 3 1 6 := by
  intro room content
  obtain ⟨writing, reading⟩ := checks_direct 0 6
  obtain ⟨-, hasRoom, tailReaches⟩ := writing 8
    [(.hasRoom 8, 0), (.confirm 8, 0), (.hasRoom 1, 3), (.confirm 4, 4), (.rewind 2 8, 5)]
    (by decide)
  obtain ⟨-, hasContent, hasContentSized⟩ := reading
    [(.hasContent, 2), (.hasContentSized 3, 3), (.confirm 3, 3), (.rewind 0, 5)] (by decide)
  exact ⟨rfl, hasRoom 13, rfl, tailReaches 3, rfl, hasContentSized 4, rfl, hasContent⟩

end FragmentPipe
