import Mathlib.Data.List.Basic

/-!
# Stream filters

A filter is a step `step : σ → α → σ × List β`: one symbol in, a new state and some symbols out.

* `feed`: a filter on a stream;
* **`feed_append`**: what comes in after a chunk is filtered from the state the chunk leaves, so how
  a stream is cut into chunks does not show;
* `feed_map`: filters whose states correspond.
-/

namespace Feed

variable {σ α β : Type*} (step : σ → α → σ × List β)

/-- The state after a stream and all that came out. -/
def feed : σ → List α → σ × List β
  | s, [] => (s, [])
  | s, a :: as =>
    let (t, out) := step s a
    let (u, rest) := feed t as
    (u, out ++ rest)

@[simp] theorem feed_nil (s : σ) : feed step s [] = (s, []) := rfl

@[simp] theorem feed_cons (s : σ) (a : α) (as : List α) :
    feed step s (a :: as) =
      ((feed step (step s a).1 as).1, (step s a).2 ++ (feed step (step s a).1 as).2) := rfl

/-- **Chunks do not show**: a stream in two pieces comes out as the stream in one. -/
theorem feed_append (s : σ) (as bs : List α) :
    feed step s (as ++ bs) =
      ((feed step (feed step s as).1 bs).1,
        (feed step s as).2 ++ (feed step (feed step s as).1 bs).2) := by
  induction as generalizing s with
  | nil => rfl
  | cons a as ih => simp only [List.cons_append, feed_cons, ih, List.append_assoc]

variable {step}

/-- Two filters whose states correspond give the same output. -/
theorem feed_map {τ : Type*} {step' : τ → α → τ × List β} (f : σ → τ)
    (hstep : ∀ s a, step' (f s) a = (f (step s a).1, (step s a).2)) (s : σ) (as : List α) :
    feed step' (f s) as = (f (feed step s as).1, (feed step s as).2) := by
  induction as generalizing s with
  | nil => rfl
  | cons a as ih => simp only [feed_cons, hstep, ih]

end Feed
