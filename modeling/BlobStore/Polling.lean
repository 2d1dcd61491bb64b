import BlobStore.Event

/-!
# Polling those who wait

Those who wait are polled in the order of their requests. Whoever is done leaves, and the polling
starts again from the first, because one who is done can make way for one before it.

## Main definitions

* `Polling.round`: the polling up to the first who is done
* `Polling.settle`: the polling until nobody is done
-/

namespace BlobStore.Polling

variable {ι ρ σ : Type}

/-- Polls one after the other up to the first who is done: that one with its outcome, and those who
are left. -/
def round (poll : ι → σ → Option ρ × List Event × σ) :
    List ι → σ → Option (ι × ρ) × List ι × List Event × σ
  | [], s => (none, [], [], s)
  | i :: rest, s =>
    match poll i s with
    | (some outcome, events, s) => (some (i, outcome), rest, events, s)
    | (none, events, s) =>
      let (done, left, more, s) := round poll rest s
      (done, i :: left, events ++ more, s)

/-- At most `n` rounds. -/
def rounds (poll : ι → σ → Option ρ × List Event × σ) :
    Nat → List ι → σ → List (ι × ρ) × List ι × List Event × σ
  | 0, waiting, s => ([], waiting, [], s)
  | n + 1, waiting, s =>
    match round poll waiting s with
    | (none, waiting, events, s) => ([], waiting, events, s)
    | (some done, waiting, events, s) =>
      let (others, waiting, more, s) := rounds poll n waiting s
      (done :: others, waiting, events ++ more, s)

/-- Rounds until nobody is done: those who were, with their outcomes, and those who still wait.
Every round but the last takes one away, so there is at most one more than there are waiting. -/
def settle (poll : ι → σ → Option ρ × List Event × σ) (waiting : List ι) (s : σ) :
    List (ι × ρ) × List ι × List Event × σ :=
  rounds poll (waiting.length + 1) waiting s

end BlobStore.Polling
