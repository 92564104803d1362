/-
The byte buffers of mongoose.

An `mbuf` is an array with some room to spare.  Bytes are put in where there is
room, or after the array has been made larger, and are taken from the front by
moving the others; what is kept of it is its first `len` bytes.
-/

import DlcServer.Library.Memory
import DlcServer.HttpHandler

namespace DlcServer

open Library

/-- `struct mbuf`; `size` is the length of the array. -/
structure Mbuf where
  buf : List UInt8
  len : Nat

namespace Mbuf

/-- `mbuf_init(mbuf, 0)`. -/
def init : Mbuf := { buf := [], len := 0 }

def size (mbuf : Mbuf) : Nat :=
  mbuf.buf.length

def resize (a : Mbuf) (newSize : Nat) (grant : Grant) : Mbuf :=
  if a.size < newSize ∨ newSize < a.size ∧ a.len ≤ newSize then
    match grant with
    -- NULL is what an array of no bytes may be as well
    | none => if newSize = 0 then { a with buf := [] } else a
    | some fresh => { a with buf := realloc a.buf newSize fresh }
  else a

def trim (mbuf : Mbuf) (grant : Grant) : Mbuf :=
  mbuf.resize mbuf.len grant

/-- `MBUF_SIZE_MAX_HEADROOM`, the `BUFSIZ` of the C library. -/
def maxHeadroom : Nat := 8192

/-- How large an array is asked for. -/
def newSize (minSize : Nat) : Nat :=
  if maxHeadroom < minSize * 3 / 2 - minSize then minSize + maxHeadroom else minSize * 3 / 2

/-- The array that is got, at the first attempt or at the second one, which asks
for no more than is needed. -/
def enlarge (a : Mbuf) (minSize : Nat) (first second : Grant) : Option (List UInt8) :=
  match first with
  | some fresh => some (realloc a.buf (newSize minSize) fresh)
  | none => if newSize minSize ≠ minSize then second.map (realloc a.buf minSize) else none

/-- `mbuf_insert`, and how many bytes have been put in. -/
def insert (a : Mbuf) (off : Nat) (data : List UInt8) (first second : Grant) :
    Except Overstep (Mbuf × Nat) :=
  if a.len + data.length ≤ a.size then do
    let moved ← memmove a.buf (off + data.length) off (a.len - off)
    let buf ← memcpy moved off data
    return ({ buf := buf, len := a.len + data.length }, data.length)
  else
    match a.enlarge (a.len + data.length) first second with
    | none => .ok (a, 0)
    | some p => do
        let moved ← if off ≠ a.len then memmove p (off + data.length) off (a.len - off) else .ok p
        let buf ← memcpy moved off data
        return ({ buf := buf, len := a.len + data.length }, data.length)

def append (a : Mbuf) (data : List UInt8) (first second : Grant) : Except Overstep (Mbuf × Nat) :=
  a.insert a.len data first second

def remove (mb : Mbuf) (n : Nat) : Except Overstep Mbuf :=
  if 0 < n ∧ n ≤ mb.len then do
    let buf ← memmove mb.buf 0 n (mb.len - n)
    return { buf := buf, len := mb.len - n }
  else .ok mb

/-! ### What a buffer holds -/

/-- The bytes of a buffer are these. -/
structure Holds (mbuf : Mbuf) (content : List UInt8) : Prop where
  len : mbuf.len = content.length
  front : mbuf.buf.take content.length = content

namespace Holds

variable {mbuf : Mbuf} {content : List UInt8}

theorem init : Mbuf.init.Holds [] :=
  ⟨rfl, rfl⟩

theorem inside (holds : mbuf.Holds content) : content.length ≤ mbuf.size := by
  have lengths := congrArg List.length holds.front
  rw [List.length_take] at lengths
  unfold size
  omega

theorem resize (holds : mbuf.Holds content) {newSize : Nat} (enough : content.length ≤ newSize)
    (grant : Grant) : (mbuf.resize newSize grant).Holds content := by
  have inside := holds.inside
  unfold size at inside
  unfold Mbuf.resize
  split
  · cases grant with
    | none =>
        dsimp only
        split
        · next zero =>
            subst zero
            obtain rfl := List.eq_nil_of_length_eq_zero (Nat.le_zero.mp enough)
            exact ⟨holds.len, rfl⟩
        · exact holds
    | some fresh => exact ⟨holds.len, (realloc_take fresh enough inside).trans holds.front⟩
  · exact holds

theorem trim (holds : mbuf.Holds content) (grant : Grant) : (mbuf.trim grant).Holds content :=
  holds.resize holds.len.ge grant

private theorem newSize_le (minSize : Nat) : minSize ≤ newSize minSize := by
  unfold newSize
  split <;> omega

private theorem enlarge (holds : mbuf.Holds content) {minSize : Nat} (enough : content.length ≤ minSize)
    {first second : Grant} {p : List UInt8} (got : mbuf.enlarge minSize first second = some p) :
    minSize ≤ p.length ∧ p.take content.length = content := by
  have inside := holds.inside
  have larger := newSize_le minSize
  have front {size : Nat} (fresh : Nat → UInt8) (large : minSize ≤ size) :
      minSize ≤ (realloc mbuf.buf size fresh).length ∧
        (realloc mbuf.buf size fresh).take content.length = content := by
    rw [realloc_length, realloc_take fresh (by omega) inside]
    exact ⟨large, holds.front⟩
  unfold Mbuf.enlarge at got
  cases first with
  | some fresh =>
      cases got
      exact front fresh larger
  | none =>
      dsimp only at got
      split at got
      · obtain ⟨fresh, _, rfl⟩ := Option.map_eq_some_iff.mp got
        exact front fresh (le_refl _)
      · contradiction

/-- Bytes are put behind the others, or, when there is no memory, nowhere. -/
theorem append (holds : mbuf.Holds content) (data : List UInt8) (first second : Grant) :
    ∃ after stored, mbuf.append data first second = .ok (after, stored) ∧
      (stored = data.length ∧ after.Holds (content ++ data) ∨
        stored = 0 ∧ after.Holds content ∧ first = none ∧
          (newSize (content.length + data.length) = content.length + data.length ∨
            second = none)) := by
  obtain ⟨sameLen, front⟩ := holds
  have inside := Holds.inside ⟨sameLen, front⟩
  have copied {array : List UInt8} (room : content.length + data.length ≤ array.length)
      (kept : array.take content.length = content) :
      ∃ buf, memcpy array content.length data = .ok buf ∧
        Holds { buf := buf, len := content.length + data.length } (content ++ data) := by
    obtain ⟨buf, done, _, isFront⟩ := memcpy_inside room
    rw [kept] at isFront
    exact ⟨buf, done, by rw [List.length_append], by rw [List.length_append]; exact isFront⟩
  unfold Mbuf.append insert
  rw [sameLen]
  unfold size at inside ⊢
  split
  · next room =>
      obtain ⟨moved, isMoved, movedLength, movedFront⟩ := @memmove_inside mbuf.buf
        (content.length + data.length) content.length (content.length - content.length)
        (by omega) (by omega)
      have kept : moved.take content.length = content := by
        have whole := congrArg (List.take content.length) movedFront
        rw [Nat.sub_self, List.take_zero, List.append_nil, Nat.add_zero, List.take_take,
          List.take_take, min_eq_left (Nat.le_add_right _ _)] at whole
        exact whole.trans front
      obtain ⟨buf, isCopied, done⟩ := copied (movedLength ▸ room) kept
      rw [isMoved, overstep_bind_ok, isCopied, overstep_bind_ok]
      exact ⟨_, _, rfl, .inl ⟨rfl, done⟩⟩
  · next full =>
      cases got : mbuf.enlarge (content.length + data.length) first second with
      | none =>
          refine ⟨mbuf, 0, rfl, .inr ⟨rfl, ⟨sameLen, front⟩, ?_⟩⟩
          unfold Mbuf.enlarge at got
          cases first with
          | some fresh => cases got
          | none =>
              refine ⟨rfl, ?_⟩
              dsimp only at got
              split at got
              · exact .inr (Option.map_eq_none_iff.mp got)
              · next same => exact .inl (not_not.mp same)
      | some p =>
          obtain ⟨room, kept⟩ := Holds.enlarge ⟨sameLen, front⟩ (Nat.le_add_right _ _) got
          obtain ⟨buf, isCopied, done⟩ := copied room kept
          dsimp only
          rw [if_neg (fun different => different rfl), overstep_bind_ok, isCopied, overstep_bind_ok]
          exact ⟨_, _, rfl, .inl ⟨rfl, done⟩⟩

/-- What is removed is what the receive buffer of a handler loses. -/
theorem remove (holds : mbuf.Holds content) (n : Nat) :
    ∃ after, mbuf.remove n = .ok after ∧ after.Holds (mbufRemove content n) := by
  have inside := holds.inside
  unfold size at inside
  unfold Mbuf.remove mbufRemove
  rw [holds.len]
  split
  · next some_ =>
      obtain ⟨buf, moved, _, front⟩ := @memmove_inside mbuf.buf 0 n (content.length - n)
        (by omega) (by omega)
      have left : (mbuf.buf.drop n).take (content.length - n) = content.drop n := by
        have whole := congrArg (List.drop n) holds.front
        rwa [List.drop_take] at whole
      rw [Nat.zero_add, List.take_zero, List.nil_append, left] at front
      rw [moved, overstep_bind_ok]
      exact ⟨_, rfl, by rw [List.length_drop], by rw [List.length_drop]; exact front⟩
  · exact ⟨mbuf, rfl, holds⟩

end Holds

end Mbuf

end DlcServer
