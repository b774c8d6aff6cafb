/-
# BottledWater.Lib.Trace — finite runs of a partial step function.

A system is a function `step : σ → ε → Option σ`; `none` says that the event cannot happen in that
state.  `run` executes a list of events, and `run_rule` is the one induction every invariant of such a
system goes through: a fact that holds at the start and is kept by each step holds after every run.
The predicate sees the events executed so far, so the same rule serves facts about histories.

What a system is assumed to do is said step by step too: `Along` for a run each of whose events meets an
assumption in the state that it happens in, with an invariant rule of its own.
-/
import Mathlib.Data.List.Basic
import Mathlib.Data.List.Induction

namespace BottledWater.Lib

variable {σ : Type*} {ε : Type*}

/-- **`run step s es`** — execute the events `es` in order; `none` as soon as one is not enabled. -/
def run (step : σ → ε → Option σ) (s : σ) (es : List ε) : Option σ := es.foldlM step s

@[simp]
theorem run_nil (step : σ → ε → Option σ) (s : σ) : run step s [] = some s := rfl

@[simp]
theorem run_cons (step : σ → ε → Option σ) (s : σ) (e : ε) (es : List ε) :
    run step s (e :: es) = (step s e).bind (run step · es) := rfl

theorem run_append (step : σ → ε → Option σ) (s : σ) (es fs : List ε) :
    run step s (es ++ fs) = (run step s es).bind (run step · fs) :=
  List.foldlM_append

theorem run_snoc (step : σ → ε → Option σ) (s : σ) (es : List ε) (e : ε) :
    run step s (es ++ [e]) = (run step s es).bind (step · e) := by
  rw [run_append]
  congr 1
  funext t
  simp

/-- A run that ends with `e` has a state before `e`. -/
theorem run_snoc_eq_some {step : σ → ε → Option σ} {s u : σ} {es : List ε} {e : ε}
    (h : run step s (es ++ [e]) = some u) : ∃ t, run step s es = some t ∧ step t e = some u := by
  rw [run_snoc] at h
  exact Option.bind_eq_some_iff.mp h

/-- **The invariant rule.**  What holds of the start state and is kept by every step that follows a
run holds after every run. -/
theorem run_rule {step : σ → ε → Option σ} {s : σ} {P : List ε → σ → Prop} (hinit : P [] s)
    (hstep : ∀ es t e u, run step s es = some t → P es t → step t e = some u → P (es ++ [e]) u) :
    ∀ {es : List ε} {t : σ}, run step s es = some t → P es t := by
  intro es
  induction es using List.reverseRecOn with
  | nil =>
    intro t h
    obtain rfl : s = t := by simpa using h
    exact hinit
  | append_singleton es e ih =>
    intro u h
    obtain ⟨t, ht, hu⟩ := run_snoc_eq_some h
    exact hstep es t e u ht (ih ht) hu

/-- A run through `e` has a state on either side of it. -/
theorem run_split {step : σ → ε → Option σ} {s v : σ} {before after : List ε} {e : ε}
    (h : run step s (before ++ e :: after) = some v) :
    ∃ t u, run step s before = some t ∧ step t e = some u := by
  rw [run_append] at h
  obtain ⟨t, ht, hrest⟩ := Option.bind_eq_some_iff.mp h
  obtain ⟨u, hu, -⟩ := Option.bind_eq_some_iff.mp hrest
  exact ⟨t, u, ht, hu⟩

/-- What never comes a second time comes at most once. -/
theorem count_le_one_of_split [DecidableEq ε] {es : List ε} {e : ε}
    (h : ∀ before after, es = before ++ e :: after → e ∉ before) : es.count e ≤ 1 := by
  induction es with
  | nil => simp
  | cons d es ih =>
    by_cases hd : d = e
    · subst hd
      have hnone : d ∉ es := by
        intro hmem
        obtain ⟨before, after, rfl⟩ := List.append_of_mem hmem
        exact h (d :: before) after rfl (List.mem_cons_self ..)
      have hone : (d :: es).count d = 1 := by
        rw [List.count_cons_self, List.count_eq_zero.mpr hnone]
      exact Nat.le_of_eq hone
    · rw [List.count_cons_of_ne hd]
      refine ih fun before after heq hmem => ?_
      exact h (d :: before) after (by rw [heq]; rfl) (List.mem_cons_of_mem d hmem)

/-! ## Runs under an assumption -/

/-- **`Along step A s es`** — each of the events `es` meets `A` in the state that it happens in. -/
def Along (step : σ → ε → Option σ) (A : σ → ε → Prop) : σ → List ε → Prop
  | _, [] => True
  | s, e :: es => A s e ∧ ∀ t ∈ step s e, Along step A t es

instance decidableAlong (step : σ → ε → Option σ) (A : σ → ε → Prop) [∀ s e, Decidable (A s e)] :
    ∀ s es, Decidable (Along step A s es)
  | _, [] => inferInstanceAs (Decidable True)
  | s, e :: es =>
    have (t : σ) : Decidable (Along step A t es) := decidableAlong step A t es
    inferInstanceAs (Decidable (A s e ∧ ∀ t ∈ step s e, Along step A t es))

section

variable {step : σ → ε → Option σ} {A B : σ → ε → Prop} {s t : σ} {es fs : List ε}

theorem Along.and (h : Along step A s es) (h' : Along step B s es) :
    Along step (fun s e => A s e ∧ B s e) s es := by
  induction es generalizing s with
  | nil => trivial
  | cons e es ih => exact ⟨⟨h.1, h'.1⟩, fun t ht => ih (h.2 t ht) (h'.2 t ht)⟩

theorem Along.append (h : Along step A s es) (hrun : run step s es = some t) (h' : Along step A t fs) :
    Along step A s (es ++ fs) := by
  induction es generalizing s with
  | nil =>
    cases hrun
    exact h'
  | cons e es ih =>
    refine ⟨h.1, fun u hu => ?_⟩
    rw [run_cons, hu] at hrun
    exact ih (h.2 u hu) hrun

/-- **The invariant rule under an assumption.** -/
theorem Along.rule {P : σ → Prop} (hstep : ∀ s e t, P s → A s e → step s e = some t → P t)
    (h : Along step A s es) (hinit : P s) (hrun : run step s es = some t) : P t := by
  induction es generalizing s with
  | nil =>
    cases hrun
    exact hinit
  | cons e es ih =>
    obtain ⟨u, hu, hrest⟩ := Option.bind_eq_some_iff.mp hrun
    exact ih (h.2 u hu) (hstep s e u hinit h.1 hu) hrest

end

/-! ## Seeing some of the events -/

/-- **`through f step`** — `step` on what `f` makes of an event; what `f` does not see changes nothing. -/
def through {δ : Type*} (f : δ → Option ε) (step : σ → ε → Option σ) (s : σ) (d : δ) : Option σ :=
  match f d with
  | none => some s
  | some e => step s e

theorem run_through {δ : Type*} (f : δ → Option ε) (step : σ → ε → Option σ) (s : σ) (ds : List δ) :
    run (through f step) s ds = run step s (ds.filterMap f) := by
  induction ds generalizing s with
  | nil => rfl
  | cons d ds ih =>
    rw [run_cons, List.filterMap_cons]
    cases hd : f d with
    | none => simpa [through, hd] using ih s
    | some e =>
      simp only [through, hd, run_cons]
      cases step s e with
      | none => rfl
      | some t => exact ih t

/-! ## The last of its kind -/

/-- **`lastSome f es`** — what the last event has under `f`, of those that have anything. -/
def lastSome {α : Type*} (f : ε → Option α) (es : List ε) : Option α := es.reverse.findSome? f

theorem lastSome_snoc {α : Type*} (f : ε → Option α) (es : List ε) (e : ε) :
    lastSome f (es ++ [e]) = (f e).or (lastSome f es) := by
  simp only [lastSome, List.reverse_append, List.reverse_singleton, List.singleton_append,
    List.findSome?_cons]
  cases f e <;> rfl

end BottledWater.Lib
