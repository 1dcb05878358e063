/-
A command that is tried again until it succeeds.

`retry` makes attempt 0, 1, … until one succeeds or `max` of them have failed.  The loop has no
bound of its own, so it is given a number of rounds; `max` of them are enough.

* `retry_spec` — the first attempt that succeeds decides, if failed attempts leave everything
  that the next one looks at as it was.
-/
import Mathlib.Data.Nat.Notation

namespace Retry

variable {σ : Type*}

/-- The attempts from number `i` on: whether one of them succeeded, and the state after it. -/
def retry (attempt : ℕ → σ → Bool × σ) (max : ℕ) : ℕ → ℕ → σ → Option (Bool × σ)
  | 0, _, _ => none
  | rounds + 1, i, s =>
    let r := attempt i s
    if r.1 then some (true, r.2)
    else if i + 1 = max then some (false, r.2)
    else retry attempt max rounds (i + 1) r.2

variable {attempt : ℕ → σ → Bool × σ} {max : ℕ} {Same : σ → Prop} {ok : ℕ → Bool} {res : ℕ → σ}

theorem retry_from
    (hstep : ∀ i s, Same s → (attempt i s).1 = ok i ∧
      (ok i = true → (attempt i s).2 = res i) ∧ (ok i = false → Same (attempt i s).2))
    {rounds i : ℕ} (hi : i + rounds = max) (hrounds : 0 < rounds) {s : σ} (hs : Same s) :
    (∃ n, i ≤ n ∧ n < max ∧ ok n = true ∧ (∀ j, i ≤ j → j < n → ok j = false) ∧
      retry attempt max rounds i s = some (true, res n)) ∨
    ((∀ n, i ≤ n → n < max → ok n = false) ∧
      ∃ s', Same s' ∧ retry attempt max rounds i s = some (false, s')) := by
  induction rounds generalizing i s with
  | zero => omega
  | succ rounds ih =>
    obtain ⟨hret, hyes, hno⟩ := hstep i s hs
    rw [retry]
    rw [hret]
    cases hok : ok i with
    | true =>
      refine .inl ⟨i, Nat.le_refl i, by omega, hok, fun j hj hlt => by omega, ?_⟩
      rw [if_pos rfl, hyes hok]
    | false =>
      rw [if_neg Bool.false_ne_true]
      by_cases hlast : i + 1 = max
      · rw [if_pos hlast]
        refine .inr ⟨fun n hn hlt => ?_, _, hno hok, rfl⟩
        obtain rfl : n = i := by omega
        exact hok
      · rw [if_neg hlast]
        -- attempt `i` has failed, the others decide
        have hfirst : ∀ j, i ≤ j → ¬ i + 1 ≤ j → ok j = false := by
          intro j hj hlt
          obtain rfl : j = i := by omega
          exact hok
        have hmore : i + 1 + rounds = max := by omega
        have hrest : 0 < rounds := by omega
        rcases ih hmore hrest (hno hok) with ⟨n, hn, hlt, hokn, hbefore, heq⟩ | ⟨hall, h⟩
        · refine .inl ⟨n, by omega, hlt, hokn, fun j hj hjn => ?_, heq⟩
          by_cases hij : i + 1 ≤ j
          · exact hbefore j hij hjn
          · exact hfirst j hj hij
        · refine .inr ⟨fun n hn hlt => ?_, h⟩
          by_cases hin : i + 1 ≤ n
          · exact hall n hin hlt
          · exact hfirst n hn hin

/-- In a state that failed attempts keep in `Same`, the first success is the result. -/
theorem retry_spec (attempt : ℕ → σ → Bool × σ) (Same : σ → Prop) (ok : ℕ → Bool) (res : ℕ → σ)
    (hstep : ∀ i s, Same s → (attempt i s).1 = ok i ∧
      (ok i = true → (attempt i s).2 = res i) ∧ (ok i = false → Same (attempt i s).2))
    (hmax : 0 < max) {s : σ} (hs : Same s) :
    (∃ n < max, ok n = true ∧ (∀ j < n, ok j = false) ∧
      retry attempt max max 0 s = some (true, res n)) ∨
    ((∀ n < max, ok n = false) ∧
      ∃ s', Same s' ∧ retry attempt max max 0 s = some (false, s')) := by
  rcases retry_from hstep (Nat.zero_add max) hmax hs with ⟨n, -, hn, hok, hbefore, heq⟩ | ⟨hall, h⟩
  · exact .inl ⟨n, hn, hok, fun j hj => hbefore j (Nat.zero_le j) hj, heq⟩
  · exact .inr ⟨fun n hn => hall n (Nat.zero_le n) hn, h⟩

end Retry
