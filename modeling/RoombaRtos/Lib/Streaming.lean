import Mathlib.Data.List.Basic

/-!
# Streams of messages

A receiver that collects symbols until what it has is a message.

* `feed` — one more symbol arrives;
* `decode` — the messages in a stream, and what is left of it;
* `Framed` — what was encoded is recognized when its last symbol arrives, and not before;
* `decode_flatMap` — a stream of encoded messages is decoded to these messages.
-/

namespace Streaming

variable {α β : Type*}

/-- The symbols in front of `x` are not a message yet. -/
def feed (complete : List α → Option β) (got : List α) (x : α) : Option β × List α :=
  match complete (got ++ [x]) with
  | some m => (some m, [])
  | none => (none, got ++ [x])

def decode (complete : List α → Option β) : List α → List α → List β × List α
  | got, [] => ([], got)
  | got, x :: xs =>
      let (m, got) := feed complete got x
      let (ms, left) := decode complete got xs
      (m.toList ++ ms, left)

/-- What was encoded is a message when it has arrived, and nothing is one before that. -/
structure Framed (complete : List α → Option β) (encode : β → List α) (m : β) : Prop where
  ne_nil : encode m ≠ []
  whole : complete (encode m) = some m
  early : ∀ p, p <+: encode m → p ≠ encode m → complete p = none

variable {complete : List α → Option β} {encode : β → List α} {m : β}

theorem decode_append (got xs ys : List α) : decode complete got (xs ++ ys) =
    ((decode complete got xs).1 ++ (decode complete (decode complete got xs).2 ys).1,
      (decode complete (decode complete got xs).2 ys).2) := by
  induction xs generalizing got with
  | nil => rfl
  | cons x xs ih =>
    simp only [List.cons_append, decode, ih, List.append_assoc]

/-- The last part of a message arrives. -/
theorem Framed.decode_rest (h : Framed complete encode m) {got xs : List α} (hxs : xs ≠ [])
    (hm : got ++ xs = encode m) : decode complete got xs = ([m], []) := by
  induction xs generalizing got with
  | nil => exact absurd rfl hxs
  | cons x xs ih =>
    cases xs with
    | nil =>
      have hfeed : feed complete got x = (some m, []) := by
        rw [feed, hm, h.whole]
      simp only [decode, hfeed]
      rfl
    | cons y ys =>
      have hsplit : got ++ [x] ++ y :: ys = encode m := by
        rw [List.append_assoc]
        exact hm
      have hnone : complete (got ++ [x]) = none := by
        refine h.early _ ⟨y :: ys, hsplit⟩ fun heq => ?_
        have hlen := congrArg List.length (hsplit.trans heq.symm)
        rw [List.length_append, List.length_cons] at hlen
        omega
      have hfeed : feed complete got x = (none, got ++ [x]) := by rw [feed, hnone]
      rw [decode, hfeed]
      simp only [ih (List.cons_ne_nil y ys) hsplit]
      rfl

/-- **A stream of messages is decoded.** -/
theorem decode_flatMap {ms : List β} (h : ∀ m ∈ ms, Framed complete encode m) :
    decode complete [] (ms.flatMap encode) = (ms, []) := by
  induction ms with
  | nil => rfl
  | cons m ms ih =>
    obtain ⟨hm, hms⟩ := List.forall_mem_cons.1 h
    rw [List.flatMap_cons, decode_append, hm.decode_rest hm.ne_nil rfl, ih hms]
    rfl

end Streaming
