/-
What a successful `Except` computation says about its parts.

* `bind_eq_ok` — both halves of a sequence succeed;
* `foldlM_cons_ok` — the first step of a loop, and the rest of it;
* `foldlM_invariant` — what every step preserves holds in the end; `foldlM_forall_mem`, what
  the steps say about the elements;
* `foldlM_ne_ok` — a loop one of whose steps never succeeds;
* `foldlM_congr` — a loop depends on what its body does with the elements;
* `exists_of_forall₂_left`, `exists_of_forall₂_right` — the partner of an element;
* `mapM_ok_forall₂`, `mapM_ok_getElem?`, `mapM_ok_of_forall` — the elements of a successful `mapM`;
  `mapM_ok_map`, `mapM_error`: what the elements say about the whole;
* `foldlM_range_set` — a loop that replaces the elements of a list one after the other;
* `anyM_eq_false` — a search that finds nothing has seen every element;
  `anyM_eq_true`, `anyM_append_ok`: what else a search that ends has seen.
-/
import Mathlib.Data.List.Forall2

namespace ExceptRules

variable {ε α γ : Type}

theorem bind_eq_ok {x : Except ε α} {f : α → Except ε γ} {c : γ} (h : x >>= f = .ok c) :
    ∃ a, x = .ok a ∧ f a = .ok c := by
  cases x with
  | error e => cases h
  | ok a => exact ⟨a, rfl, h⟩

theorem ok_bind (a : α) (f : α → Except ε γ) : (Except.ok a >>= f) = f a := rfl

/-! ### Loops -/

section Loop

variable {σ : Type} {f : σ → α → Except ε σ} {s s' : σ} {l : List α}

theorem foldlM_cons_ok {a : α} (h : (a :: l).foldlM f s = .ok s') :
    ∃ s₁, f s a = .ok s₁ ∧ l.foldlM f s₁ = .ok s' := by
  rw [List.foldlM_cons] at h
  exact bind_eq_ok h

/-- What every successful step preserves holds after the loop. -/
theorem foldlM_invariant {I : σ → Prop} (h : l.foldlM f s = .ok s') (hs : I s)
    (hstep : ∀ a ∈ l, ∀ s₁ s₂, f s₁ a = .ok s₂ → I s₁ → I s₂) : I s' := by
  induction l generalizing s with
  | nil =>
    cases h
    exact hs
  | cons a l ih =>
    obtain ⟨s₁, hfirst, hrest⟩ := foldlM_cons_ok h
    obtain ⟨ha, hl⟩ := List.forall_mem_cons.mp hstep
    exact ih hrest (ha s s₁ hfirst hs) hl

/-- What the steps of a successful loop say about the elements. -/
theorem foldlM_forall_mem {I : σ → Prop} {P : α → Prop} (h : l.foldlM f s = .ok s') (hs : I s)
    (hstep : ∀ a ∈ l, ∀ s₁ s₂, f s₁ a = .ok s₂ → I s₁ → P a ∧ I s₂) : ∀ a ∈ l, P a := by
  induction l generalizing s with
  | nil => simp
  | cons a l ih =>
    obtain ⟨s₁, hfirst, hrest⟩ := foldlM_cons_ok h
    obtain ⟨ha, hl⟩ := List.forall_mem_cons.mp hstep
    obtain ⟨hP, hI⟩ := ha s s₁ hfirst hs
    exact List.forall_mem_cons.mpr ⟨hP, ih hrest hI hl⟩

theorem foldlM_congr {g : σ → α → Except ε σ} (h : ∀ a ∈ l, ∀ s, f s a = g s a) (s : σ) :
    l.foldlM f s = l.foldlM g s := by
  induction l generalizing s with
  | nil => rfl
  | cons a l ih =>
    obtain ⟨ha, hl⟩ := List.forall_mem_cons.mp h
    rw [List.foldlM_cons, List.foldlM_cons, ha s]
    exact bind_congr fun s' => ih hl s'

/-- A step that never succeeds keeps the loop from its end. -/
theorem foldlM_ne_ok {I : σ → Prop} {a : α} (ha : a ∈ l) (hs : I s)
    (hstep : ∀ b ∈ l, ∀ s s', I s → f s b = .ok s' → I s') (hstop : ∀ s s', I s → f s a ≠ .ok s')
    (s' : σ) : l.foldlM f s ≠ .ok s' := by
  induction l generalizing s with
  | nil => exact absurd ha List.not_mem_nil
  | cons b l ih =>
    intro h
    obtain ⟨s₁, hfirst, hrest⟩ := foldlM_cons_ok h
    obtain ⟨hb, hl⟩ := List.forall_mem_cons.mp hstep
    rcases List.mem_cons.mp ha with rfl | ha
    · exact hstop s s₁ hs hfirst
    · exact ih ha (hb s s₁ hs hfirst) hl hrest

end Loop

/-! ### Lists of results -/

section Lists

variable {xs ws : List α} {ys : List γ}

theorem mapM_ok_forall₂ {f : α → Except ε γ} (h : xs.mapM f = .ok ys) :
    List.Forall₂ (fun x y => f x = .ok y) xs ys := by
  induction xs generalizing ys with
  | nil =>
    obtain rfl : [] = ys := Except.ok.inj h
    exact .nil
  | cons x xs ih =>
    rw [List.mapM_cons] at h
    obtain ⟨y, hy, h⟩ := bind_eq_ok h
    obtain ⟨zs, hzs, h⟩ := bind_eq_ok h
    obtain rfl : y :: zs = ys := Except.ok.inj h
    exact .cons hy (ih hzs)

/-- Each element of one of two lists that agree has its partner in the other. -/
theorem exists_of_forall₂_left {R : α → γ → Prop} (h : List.Forall₂ R xs ys) {x : α}
    (hx : x ∈ xs) : ∃ y ∈ ys, R x y := by
  induction h with
  | nil => exact absurd hx List.not_mem_nil
  | @cons x' y' xs ys hfirst _ ih =>
    rcases List.mem_cons.mp hx with rfl | hx
    · exact ⟨y', List.mem_cons_self, hfirst⟩
    · obtain ⟨y, hy, hxy⟩ := ih hx
      exact ⟨y, List.mem_cons_of_mem y' hy, hxy⟩

theorem exists_of_forall₂_right {R : α → γ → Prop} (h : List.Forall₂ R xs ys) {y : γ}
    (hy : y ∈ ys) : ∃ x ∈ xs, R x y :=
  exists_of_forall₂_left (List.Forall₂.flip h) hy

/-- The result at a place. -/
theorem mapM_ok_getElem? {f : α → Except ε γ} (h : xs.mapM f = .ok ys) {i : ℕ} {x : α}
    (hi : xs[i]? = some x) : ∃ y, ys[i]? = some y ∧ f x = .ok y := by
  have hall := mapM_ok_forall₂ h
  clear h
  induction hall generalizing i with
  | nil => simp at hi
  | @cons x' y' xs ys hfirst _ ih =>
    cases i with
    | zero =>
      obtain rfl : x' = x := by simpa using hi
      exact ⟨y', rfl, hfirst⟩
    | succ i => exact ih (by simpa using hi)

theorem mapM_ok_of_forall {f : α → Except ε γ} (h : ∀ x ∈ xs, ∃ y, f x = .ok y) :
    ∃ ys, xs.mapM f = .ok ys := by
  induction xs with
  | nil => exact ⟨[], rfl⟩
  | cons x xs ih =>
    obtain ⟨y, hy⟩ := h x List.mem_cons_self
    obtain ⟨ys, hys⟩ := ih fun x hx => h x (List.mem_cons_of_mem _ hx)
    refine ⟨y :: ys, ?_⟩
    rw [List.mapM_cons, hy]
    show xs.mapM f >>= (fun zs => pure (y :: zs)) = _
    rw [hys]
    rfl

theorem mapM_ok_map {f : α → Except ε γ} {g : α → γ} (h : ∀ x ∈ xs, f x = .ok (g x)) :
    xs.mapM f = .ok (xs.map g) := by
  induction xs with
  | nil => rfl
  | cons x xs ih =>
    obtain ⟨hx, hxs⟩ := List.forall_mem_cons.mp h
    rw [List.mapM_cons, hx, ih hxs]
    rfl

theorem mapM_error {f : α → Except ε γ} {x : α} {e : ε} (hx : x ∈ xs) (h : f x = .error e) :
    ∃ e, xs.mapM f = .error e := by
  cases hm : xs.mapM f with
  | error e => exact ⟨e, rfl⟩
  | ok ys =>
    obtain ⟨i, hi⟩ := List.mem_iff_getElem?.mp hx
    obtain ⟨y, -, hy⟩ := mapM_ok_getElem? hm hi
    rw [h] at hy
    cases hy

/-- A loop over the places of a list that puts at each what `g` makes of its element. -/
theorem foldlM_range_set {σ : Type} {f : σ → ℕ → Except ε σ} {g : α → Except ε α}
    (get : σ → List α)
    (hstep : ∀ s i x, (get s)[i]? = some x → (f s i).map get = (g x).map ((get s).set i)) (s : σ) :
    ((List.range (get s).length).foldlM f s).map get = (get s).mapM g := by
  -- the elements `done` have been replaced, `rest` are still to come
  have hloop : ∀ (rest done : List α) (s : σ), get s = done ++ rest →
      ((List.range' done.length rest.length).foldlM f s).map get =
        (rest.mapM g).map (done ++ ·) := by
    intro rest
    induction rest with
    | nil =>
      intro done s hs
      show Except.ok (get s) = Except.ok (done ++ [])
      rw [hs]
    | cons x rest ih =>
      intro done s hs
      have hone := hstep s done.length x (by simp [hs])
      rw [List.length_cons, List.range'_succ, List.foldlM_cons, List.mapM_cons]
      cases hf : f s done.length with
      | error e =>
        rw [hf] at hone
        cases hg : g x with
        | error e' =>
          rw [hg] at hone
          exact hone
        | ok y => rw [hg] at hone; cases hone
      | ok s₁ =>
        rw [hf] at hone
        cases hg : g x with
        | error e' => rw [hg] at hone; cases hone
        | ok y =>
          rw [hg] at hone
          have hs₁ : get s₁ = (done ++ [y]) ++ rest := by
            rw [show get s₁ = (get s).set done.length y from Except.ok.inj hone, hs]
            simp
          have hrest := ih (done ++ [y]) s₁ hs₁
          rw [List.length_append, List.length_singleton] at hrest
          show ((List.range' (done.length + 1) rest.length).foldlM f s₁).map get = _
          rw [hrest]
          cases rest.mapM g with
          | error e => rfl
          | ok ys => simp [Except.map, bind, Except.bind, pure, Except.pure]
  have h := hloop (get s) [] s rfl
  rw [List.length_nil, ← List.range_eq_range'] at h
  rw [h]
  cases (get s).mapM g with
  | error e => rfl
  | ok ys => rfl

theorem anyM_eq_false {p : α → Except ε Bool} (h : xs.anyM p = .ok false) :
    ∀ a ∈ xs, p a = .ok false := by
  induction xs with
  | nil => simp
  | cons b xs ih =>
    rw [List.anyM] at h
    obtain ⟨r, hr, h⟩ := bind_eq_ok h
    cases r with
    | true => cases h
    | false => exact List.forall_mem_cons.mpr ⟨hr, ih h⟩

theorem anyM_map {f : γ → α} {p : α → Except ε Bool} :
    (ys.map f).anyM p = ys.anyM (p ∘ f) := by
  induction ys with
  | nil => rfl
  | cons y ys ih =>
    rw [List.map_cons, List.anyM, List.anyM, ih]
    rfl

theorem anyM_eq_true {p : α → Except ε Bool} (h : xs.anyM p = .ok true) :
    ∃ a ∈ xs, p a = .ok true := by
  induction xs with
  | nil => cases h
  | cons b xs ih =>
    rw [List.anyM] at h
    obtain ⟨r, hr, h⟩ := bind_eq_ok h
    cases r with
    | true => exact ⟨b, List.mem_cons_self, hr⟩
    | false =>
      obtain ⟨a, ha, hpa⟩ := ih h
      exact ⟨a, List.mem_cons_of_mem b ha, hpa⟩

/-- A search that ends has found something in front of `a`, or has passed `a`. -/
theorem anyM_append_ok {p : α → Except ε Bool} {a : α} {r : Bool}
    (h : (xs ++ a :: ws).anyM p = .ok r) :
    (∃ x ∈ xs, p x = .ok true) ∨ ∃ s, p a = .ok s := by
  induction xs with
  | nil =>
    obtain ⟨s, hs, -⟩ := bind_eq_ok h
    exact .inr ⟨s, hs⟩
  | cons b xs ih =>
    rw [List.cons_append, List.anyM] at h
    obtain ⟨s, hs, h⟩ := bind_eq_ok h
    cases s with
    | true => exact .inl ⟨b, List.mem_cons_self, hs⟩
    | false =>
      rcases ih h with ⟨x, hx, hpx⟩ | hlast
      · exact .inl ⟨x, List.mem_cons_of_mem b hx, hpx⟩
      · exact .inr hlast

/-- A search that ends does not change when its test is defined at more places. -/
theorem anyM_mono {p q : α → Except ε Bool} {r : Bool} (h : xs.anyM p = .ok r)
    (hpq : ∀ a ∈ xs, ∀ s, p a = .ok s → q a = .ok s) : xs.anyM q = .ok r := by
  induction xs with
  | nil => exact h
  | cons b xs ih =>
    obtain ⟨hb, hxs⟩ := List.forall_mem_cons.mp hpq
    rw [List.anyM] at h ⊢
    obtain ⟨s, hs, h⟩ := bind_eq_ok h
    rw [hb s hs]
    cases s with
    | true => exact h
    | false => exact ih h hxs

end Lists

end ExceptRules
