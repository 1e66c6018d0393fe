import Mathlib.Data.List.Infix

/-!
# Records through a pipe

A sender writes records of one size into a pipe and a receiver reads them, both in pieces of any length: a
piece may end anywhere in a record. `Layout` is how a record lies in memory.

`Flow` says where the bytes are: the records that were sent and not received yet are what the receiver has
of the next one (`got`), what is in the pipe, and what is still to be written (`rest`). A new record
(`Flow.send`), a piece that is written (`Flow.write`) or read (`Flow.read`), and the last piece of a record
(`Flow.take`) keep it.

Headlines: `Flow.isPrefix`, nothing is lost, repeated or exchanged; `Flow.more`, a record that has been begun
is going on.
-/

namespace FreeProxy.Lib

variable {α β : Type}

/-- A `struct` that is written and read as `size` bytes, which say what it is. -/
structure Layout (α β : Type) where
  size : Nat
  bytes : α → List β
  value : List β → α
  size_pos : 0 < size
  length_bytes : ∀ a, (bytes a).length = size
  value_bytes : ∀ a, value (bytes a) = a

variable {layout : Layout α β} {sent received : List α} {rest pipe got piece : List β} {a : α}

/-- What was sent is received, with the receiver, in the pipe or with the sender. -/
structure Flow (layout : Layout α β) (sent : List α) (rest pipe got : List β) (received : List α) : Prop where
  pending : ∃ pending, sent = received ++ pending ∧ got ++ (pipe ++ rest) = pending.flatMap layout.bytes
  begun : got.length < layout.size

theorem flow_nil (layout : Layout α β) : Flow layout [] [] [] [] [] := ⟨⟨[], rfl, rfl⟩, layout.size_pos⟩

namespace Flow

theorem isPrefix (h : Flow layout sent rest pipe got received) : received <+: sent := by
  obtain ⟨pending, hsent, -⟩ := h.pending
  exact ⟨pending, hsent.symm⟩

/-- A record is to be written behind the others. -/
theorem send (h : Flow layout sent [] pipe got received) (a : α) :
    Flow layout (sent ++ [a]) (layout.bytes a) pipe got received := by
  obtain ⟨pending, hsent, hbytes⟩ := h.pending
  refine ⟨⟨pending ++ [a], by rw [hsent, List.append_assoc], ?_⟩, h.begun⟩
  rw [List.append_nil] at hbytes
  rw [← List.append_assoc, hbytes, List.flatMap_append, List.flatMap_singleton]

theorem write (h : Flow layout sent (piece ++ rest) pipe got received) :
    Flow layout sent rest (pipe ++ piece) got received := by
  obtain ⟨pending, hsent, hbytes⟩ := h.pending
  exact ⟨⟨pending, hsent, by rw [List.append_assoc, hbytes]⟩, h.begun⟩

theorem read (h : Flow layout sent rest (piece ++ pipe) got received)
    (hlt : (got ++ piece).length < layout.size) : Flow layout sent rest pipe (got ++ piece) received := by
  obtain ⟨pending, hsent, hbytes⟩ := h.pending
  refine ⟨⟨pending, hsent, ?_⟩, hlt⟩
  rw [← hbytes]
  simp only [List.append_assoc]

/-- **The piece that completes a record**: it is the next one that was sent. -/
theorem take (h : Flow layout sent rest (piece ++ pipe) got received)
    (hsize : (got ++ piece).length = layout.size) :
    Flow layout sent rest pipe [] (received ++ [layout.value (got ++ piece)]) := by
  obtain ⟨pending, hsent, hbytes⟩ := h.pending
  have hsplit : (got ++ piece) ++ (pipe ++ rest) = pending.flatMap layout.bytes := by
    rw [← hbytes]
    simp only [List.append_assoc]
  cases pending with
  | nil =>
    have hnil : got ++ piece = [] := (List.append_eq_nil_iff.mp hsplit).1
    rw [hnil] at hsize
    exact absurd hsize (Nat.ne_of_lt layout.size_pos)
  | cons a pending =>
    rw [List.flatMap_cons] at hsplit
    obtain ⟨hrecord, hrest⟩ := List.append_inj hsplit (by rw [hsize, layout.length_bytes])
    rw [hrecord, layout.value_bytes]
    exact ⟨⟨pending, by rw [hsent, List.append_assoc, List.singleton_append], hrest⟩, layout.size_pos⟩

/-- Everything has been received. -/
theorem drained (h : Flow layout sent rest pipe got sent) : got = [] ∧ pipe = [] ∧ rest = [] := by
  obtain ⟨pending, hsent, hbytes⟩ := h.pending
  obtain rfl : pending = [] := List.append_cancel_left (hsent.symm.trans (List.append_nil sent).symm)
  simpa using hbytes

theorem length_pending (h : Flow layout sent rest pipe got received) (hne : got ++ (pipe ++ rest) ≠ []) :
    layout.size ≤ (got ++ (pipe ++ rest)).length := by
  obtain ⟨pending, -, hbytes⟩ := h.pending
  cases pending with
  | nil => exact absurd hbytes hne
  | cons a pending =>
    rw [hbytes, List.flatMap_cons, List.length_append, layout.length_bytes]
    exact Nat.le_add_right _ _

/-- What is not received yet is at most what was sent. -/
theorem length_le (h : Flow layout sent rest pipe got received) :
    pipe.length + rest.length ≤ sent.length * layout.size := by
  obtain ⟨pending, hsent, hbytes⟩ := h.pending
  have hlength : (pending.flatMap layout.bytes).length = pending.length * layout.size := by
    rw [List.length_flatMap, List.map_congr_left fun a _ => layout.length_bytes a, List.map_const', List.sum_replicate_nat]
  rw [hsent, List.length_append, Nat.add_mul, ← hlength, ← hbytes]
  simp only [List.length_append]
  omega

/-- A record of which something has come is in the pipe, or is being written. -/
theorem more (h : Flow layout sent rest pipe got received) (hgot : got ≠ []) : pipe ≠ [] ∨ rest ≠ [] := by
  by_contra hnone
  rw [not_or, not_not, not_not] at hnone
  obtain ⟨rfl, rfl⟩ := hnone
  have hlength := h.length_pending (by simpa using hgot)
  have hbegun := h.begun
  rw [List.append_nil, List.append_nil] at hlength
  omega

end Flow

end FreeProxy.Lib
