import Mathlib.Data.List.Basic

/-!
The page markers of the GraphQL read API's cursor pagination
(`gql-server/src/schema/graphql/blockchain_api/mod.rs`). `blocks` and `transactions` fetch the
rows of a page from the archive, compute `has_previous_page` and `has_next_page` with
`calc_prev_next_markers` from the arguments and the number of rows fetched, and then, when the
fetch reached the query's limit, cut one row off the end of a forward page or off the front of a
backward one. The two handlers do the same to their rows, so both are `connectionPage`.

The query arguments' `get_limit` and `get_direction` are not among the sources, and neither is
the archive, so the limit, the direction and the fetched rows are inputs. The theorems take the
limit one past the requested page size, with at most that many rows fetched; then the page is
the requested window and each marker says exactly whether a row was cut or a cursor bounds the
page on that side.
-/

namespace AckiNacki.BlockchainApi

variable {C α : Type}

def calcPrevNextMarkers (after before : Option C) (first last : Option Nat) (numNodes : Nat) :
    Bool × Bool :=
  let hasPrevPage :=
    match last with
    | some last => decide (numNodes > last) || after.isSome
    | none => false
  let hasNextPage :=
    match first with
    | some first => decide (numNodes > first) || before.isSome
    | none => false
  (hasPrevPage, hasNextPage)

inductive PaginateDirection
  | forward
  | backward
  deriving DecidableEq

/-- The cut after the fetch: a full forward page loses its last row (`truncate(len - 1)`), a
full backward page its first (`drain(0..1)`). A full page can be empty only under a zero limit;
there `len - 1` underflows and `0..1` is out of range, and the handler panics: `none`. -/
def trimPage (limit : Nat) (direction : PaginateDirection) (nodes : List α) :
    Option (List α) :=
  if limit ≤ nodes.length then
    match direction, nodes with
    | _, [] => none
    | .forward, nodes => some nodes.dropLast
    | .backward, _ :: rest => some rest
  else some nodes

/-- What `blocks` and `transactions` build from the fetched rows: the two markers of the
connection and the rows that become its edges. -/
def connectionPage (after before : Option C) (first last : Option Nat) (limit : Nat)
    (direction : PaginateDirection) (nodes : List α) : Option (Bool × Bool × List α) :=
  let markers := calcPrevNextMarkers after before first last nodes.length
  (trimPage limit direction nodes).map fun page => (markers.1, markers.2, page)

section OnePastThePage

variable {n : Nat} {nodes : List α}

theorem trimPage_forward (h : nodes.length ≤ n + 1) :
    trimPage (n + 1) .forward nodes = some (nodes.take n) := by
  unfold trimPage
  split_ifs with hfull
  · cases nodes with
    | nil => simp at hfull
    | cons _ tail =>
      simp only [List.length_cons] at h hfull
      obtain rfl : n = tail.length := by omega
      simp [List.dropLast_eq_take]
  · rw [List.take_of_length_le (by omega)]

theorem trimPage_backward (h : nodes.length ≤ n + 1) :
    trimPage (n + 1) .backward nodes = some (nodes.drop (nodes.length - n)) := by
  unfold trimPage
  split_ifs with hfull
  · cases nodes with
    | nil => simp at hfull
    | cons _ tail =>
      simp only [List.length_cons] at h hfull
      obtain rfl : n = tail.length := by omega
      simp
  · rw [show nodes.length - n = 0 by omega, List.drop_zero]

/-- A forward page of `first = n` rows fetched with the limit one past it is the first `n` rows;
it has no previous page, and a next one exactly when a row was cut or a `before` cursor ends it. -/
theorem connectionPage_first (after before : Option C) (h : nodes.length ≤ n + 1) :
    ∃ hasNextPage, connectionPage after before (some n) none (n + 1) .forward nodes =
        some (false, hasNextPage, nodes.take n) ∧
      (hasNextPage = true ↔ (nodes.take n).length < nodes.length ∨ before.isSome) := by
  have hcut : (nodes.take n).length < nodes.length ↔ n < nodes.length := by
    simp only [List.length_take]; omega
  refine ⟨_, by simp only [connectionPage, trimPage_forward h]; rfl, ?_⟩
  rw [hcut]
  simp [calcPrevNextMarkers]

example : connectionPage (none : Option Nat) none (some 2) none 3 .forward [1, 2, 3] =
    some (false, true, [1, 2]) := by decide

/-- A backward page of `last = n` rows fetched with the limit one past it is the last `n` rows;
it has no next page, and a previous one exactly when a row was cut or an `after` cursor starts
it. -/
theorem connectionPage_last (after before : Option C) (h : nodes.length ≤ n + 1) :
    ∃ hasPreviousPage, connectionPage after before none (some n) (n + 1) .backward nodes =
        some (hasPreviousPage, false, nodes.drop (nodes.length - n)) ∧
      (hasPreviousPage = true ↔
        (nodes.drop (nodes.length - n)).length < nodes.length ∨ after.isSome) := by
  have hcut : (nodes.drop (nodes.length - n)).length < nodes.length ↔ n < nodes.length := by
    simp only [List.length_drop]; omega
  refine ⟨_, by simp only [connectionPage, trimPage_backward h]; rfl, ?_⟩
  rw [hcut]
  simp [calcPrevNextMarkers]

end OnePastThePage

end AckiNacki.BlockchainApi
