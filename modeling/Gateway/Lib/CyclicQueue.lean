import Mathlib.Data.List.Induction
import Mathlib.Data.List.ReduceOption
import Mathlib.Logic.Function.Basic
import Gateway.Lib.Exec

/-!
# A bounded queue in a cyclic buffer

The abstract side is a queue of at most `cap` entries whose operations report success or failure
(`serve`); along every run of it the entries put in are the entries taken out followed by the
queue (`puts_eq`).

The concrete side is a buffer of `n` cells with two cursors below `n`. The queued entries are in
the cells from `tail` up to `head`, cyclically, so one cell stays free: the buffer is empty when
the cursors agree (`queue_eq_nil`) and full, with `n - 1` entries, when `head` is one cell behind
`tail` (`length_queue_full`). `queue_store`, `queue_push` and `queue_pop` are the three updates.
-/

namespace CyclicQueue

open Runs

variable {α : Type*}

/-! ## The bounded queue -/

/-- An operation on the queue together with its result. -/
inductive Event (α : Type*) where
  /-- `a` was put in. -/
  | put (a : α)
  /-- `a` was refused. -/
  | full (a : α)
  /-- `a` was taken out. -/
  | get (a : α)
  /-- There was nothing to take. -/
  | empty
  deriving DecidableEq

section Serve

variable [DecidableEq α] (cap : ℕ)

/-- The queue after the operation; `none` if a queue of capacity `cap` cannot give this result. -/
def serve (q : List α) : Event α → Option (List α)
  | .put a => if q.length < cap then some (q ++ [a]) else none
  | .full _ => if q.length = cap then some q else none
  | .get a => if q.head? = some a then some q.tail else none
  | .empty => if q = [] then some q else none

/-- The operations of several users; a step may also be none of them. -/
def serveBy {T : Type*} (q : List α) : Option (T × Event α) → Option (List α)
  | none => some q
  | some (_, e) => serve cap q e

end Serve

/-- The entries put in, in order. -/
def puts (es : List (Event α)) : List α := es.filterMap fun
  | .put a => some a
  | _ => none

/-- The entries taken out, in order. -/
def gets (es : List (Event α)) : List α := es.filterMap fun
  | .get a => some a
  | _ => none

theorem puts_append (es es' : List (Event α)) : puts (es ++ es') = puts es ++ puts es' :=
  List.filterMap_append

theorem gets_append (es es' : List (Event α)) : gets (es ++ es') = gets es ++ gets es' :=
  List.filterMap_append

/-- The operations of all users. -/
def events {T : Type*} (l : List (T × Event α)) : List (Event α) := l.map Prod.snd

/-- The operations of the user `t`. -/
def eventsOf {T : Type*} [DecidableEq T] (t : T) (l : List (T × Event α)) : List (T × Event α) :=
  l.filter fun e => e.1 = t

theorem serve_puts [DecidableEq α] {cap : ℕ} {q q' : List α} {e : Event α}
    (h : serve cap q e = some q') (hq : q.length ≤ cap) :
    q ++ puts [e] = gets [e] ++ q' ∧ q'.length ≤ cap := by
  cases e with
  | put a =>
    obtain ⟨hlt, h⟩ := Option.ite_none_right_eq_some.1 h
    obtain rfl := Option.some.inj h
    refine ⟨rfl, ?_⟩
    rw [List.length_append, List.length_singleton]
    omega
  | full a =>
    obtain ⟨-, h⟩ := Option.ite_none_right_eq_some.1 h
    obtain rfl := Option.some.inj h
    exact ⟨List.append_nil q, hq⟩
  | get a =>
    obtain ⟨hhead, h⟩ := Option.ite_none_right_eq_some.1 h
    obtain rfl := Option.some.inj h
    obtain ⟨rest, rfl⟩ := List.head?_eq_some_iff.1 hhead
    refine ⟨List.append_nil _, ?_⟩
    rw [List.length_cons] at hq
    show rest.length ≤ cap
    omega
  | empty =>
    obtain ⟨-, h⟩ := Option.ite_none_right_eq_some.1 h
    obtain rfl := Option.some.inj h
    exact ⟨List.append_nil q, hq⟩

/-- **First in, first out.** Whatever its users do, the entries put in are those taken out,
followed by those in the queue, of which there are at most `cap`. -/
theorem puts_eq [DecidableEq α] {cap : ℕ} {T : Type*} {l : List (Option (T × Event α))}
    {q : List α} (h : exec (serveBy cap) [] l = some q) :
    puts (events l.reduceOption) = gets (events l.reduceOption) ++ q ∧ q.length ≤ cap := by
  induction l using List.reverseRecOn generalizing q with
  | nil =>
    obtain rfl := Option.some.inj h
    exact ⟨rfl, Nat.zero_le _⟩
  | append_singleton l e ih =>
    obtain ⟨q₁, h₁, h⟩ := exec_concat_eq_some.1 h
    obtain ⟨heq, hlen⟩ := ih h₁
    rw [List.reduceOption_append]
    cases e with
    | none =>
      obtain rfl := Option.some.inj h
      rw [List.reduceOption_singleton, Option.toList_none, List.append_nil]
      exact ⟨heq, hlen⟩
    | some te =>
      obtain ⟨hput, hlen'⟩ := serve_puts h hlen
      refine ⟨?_, hlen'⟩
      rw [List.reduceOption_singleton, Option.toList_some, events, List.map_append, puts_append,
        gets_append]
      show puts (events _) ++ puts [te.2] = gets (events _) ++ gets [te.2] ++ q
      rw [heq, List.append_assoc, hput, List.append_assoc]

/-! ## The buffer -/

/-- The cell after `i`. -/
def next (n i : ℕ) : ℕ := (i + 1) % n

/-- The number of cells in use. -/
def used (n head tail : ℕ) : ℕ := (head + n - tail) % n

/-- The queued entries, oldest first. -/
def queue (n : ℕ) (data : ℕ → α) (head tail : ℕ) : List α :=
  (List.range (used n head tail)).map fun k => data ((tail + k) % n)

theorem length_queue (n : ℕ) (data : ℕ → α) (head tail : ℕ) :
    (queue n data head tail).length = used n head tail := by
  rw [queue, List.length_map, List.length_range]

section Cells

variable {n i j k : ℕ}

theorem cell_eq (hi : i < n) (hk : k < n) :
    (i + k) % n = if i + k < n then i + k else i + k - n := by
  split
  · next h => exact Nat.mod_eq_of_lt h
  · next h => rw [Nat.mod_eq_sub_mod (by omega), Nat.mod_eq_of_lt (by omega)]

theorem next_eq (hi : i < n) : next n i = if i + 1 = n then 0 else i + 1 := by
  unfold next
  split
  · next h => rw [h, Nat.mod_self]
  · next h => exact Nat.mod_eq_of_lt (by omega)

theorem next_lt (hi : i < n) : next n i < n := Nat.mod_lt _ (by omega)

theorem next_inj (hi : i < n) (hj : j < n) (h : next n i = next n j) : i = j := by
  rw [next_eq hi, next_eq hj] at h
  split at h <;> split at h <;> omega

end Cells

section Cursors

variable {n head tail : ℕ} (hh : head < n) (ht : tail < n)
include hh ht

theorem used_eq : used n head tail = if tail ≤ head then head - tail else head + n - tail := by
  unfold used
  split
  · next h => rw [Nat.mod_eq_sub_mod (by omega), Nat.mod_eq_of_lt (by omega)]; omega
  · next h => exact Nat.mod_eq_of_lt (by omega)

omit hh in
theorem used_lt : used n head tail < n := Nat.mod_lt _ (by omega)

theorem used_eq_zero : used n head tail = 0 ↔ head = tail := by
  rw [used_eq hh ht]
  split <;> omega

theorem used_full : used n head tail = n - 1 ↔ next n head = tail := by
  rw [used_eq hh ht, next_eq hh]
  split <;> split <;> omega

theorem used_push (h : next n head ≠ tail) :
    used n (next n head) tail = used n head tail + 1 := by
  rw [used_eq hh ht, used_eq (next_lt hh) ht]
  rw [next_eq hh] at h ⊢
  by_cases hwrap : head + 1 = n
  · rw [if_pos hwrap] at h ⊢
    split <;> split <;> omega
  · rw [if_neg hwrap] at h ⊢
    split <;> split <;> omega

theorem used_pop (h : head ≠ tail) :
    used n head tail = used n head (next n tail) + 1 := by
  rw [used_eq hh ht, used_eq hh (next_lt ht), next_eq ht]
  by_cases hwrap : tail + 1 = n
  · rw [if_pos hwrap]
    split <;> split <;> omega
  · rw [if_neg hwrap]
    split <;> split <;> omega

/-- The queue ends just before `head`. -/
theorem cell_used : (tail + used n head tail) % n = head := by
  rw [cell_eq ht (used_lt ht), used_eq hh ht]
  split <;> split <;> omega

theorem cell_ne_head {k : ℕ} (hk : k < used n head tail) : (tail + k) % n ≠ head := by
  have hu : used n head tail < n := used_lt ht
  rw [cell_eq ht (by omega)]
  rw [used_eq hh ht] at hk
  split at hk <;> split <;> omega

variable (data : ℕ → α)

theorem queue_eq_nil : queue n data head tail = [] ↔ head = tail := by
  rw [← used_eq_zero hh ht, ← length_queue n data, List.length_eq_zero_iff]

theorem length_queue_full : (queue n data head tail).length = n - 1 ↔ next n head = tail := by
  rw [length_queue, used_full hh ht]

/-- Storing at `head` leaves the queue as it is. -/
theorem queue_store (a : α) :
    queue n (Function.update data head a) head tail = queue n data head tail := by
  unfold queue
  refine List.map_congr_left fun k hk => ?_
  exact Function.update_of_ne (cell_ne_head hh ht (List.mem_range.1 hk)) _ _

/-- Moving `head` puts in the entry it pointed to. -/
theorem queue_push (h : next n head ≠ tail) :
    queue n data (next n head) tail = queue n data head tail ++ [data head] := by
  unfold queue
  rw [used_push hh ht h, List.range_succ, List.map_append, List.map_singleton, cell_used hh ht]

/-- Moving `tail` takes out the entry it pointed to. -/
theorem queue_pop (h : head ≠ tail) :
    queue n data head tail = data tail :: queue n data head (next n tail) := by
  unfold queue
  rw [used_pop hh ht h, List.range_succ_eq_map, List.map_cons, List.map_map, Nat.add_zero,
    Nat.mod_eq_of_lt ht]
  congr 1
  refine List.map_congr_left fun k _ => ?_
  show data ((tail + (k + 1)) % n) = data ((next n tail + k) % n)
  rw [next, Nat.mod_add_mod, Nat.add_assoc, Nat.add_comm 1 k]

end Cursors

end CyclicQueue
