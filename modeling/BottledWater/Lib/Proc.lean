/-
# BottledWater.Lib.Proc — pre- and postconditions for procedures that may fail.

A procedure is an `EStateM ε σ α`: it changes a state and either returns or fails, and the state at the
failure counts.  `Triple P x Q E` is total in that sense: from a state with `P`, `x` returns `a` in a
state with `Q a`, or fails with `e` in a state with `E e`.  There is one rule for each way a procedure
is put together, so a specification is proved along its text.

`Projects view x y` compares two procedures of which one keeps more in its state than the other.
-/
import Mathlib.Logic.Basic

namespace BottledWater.Lib

variable {σ ε α β : Type}

/-! ## Runs that return -/

/-- A sequence returns exactly if its parts do. -/
theorem bind_eq_ok {x : EStateM ε σ α} {f : α → EStateM ε σ β} {s t : σ} {b : β} :
    (x >>= f) s = .ok b t ↔ ∃ a u, x s = .ok a u ∧ f a u = .ok b t := by
  show EStateM.bind x f s = .ok b t ↔ _
  unfold EStateM.bind
  cases x s with
  | ok a u => simp [and_assoc]
  | error e u => simp

theorem pure_eq_ok {s t : σ} {a b : α} :
    (pure a : EStateM ε σ α) s = .ok b t ↔ a = b ∧ s = t := by
  show EStateM.Result.ok a s = .ok b t ↔ _
  simp

theorem throw_eq_ok {s t : σ} {e : ε} {a : α} :
    (throw e : EStateM ε σ α) s = .ok a t ↔ False := by
  show EStateM.Result.error e s = .ok a t ↔ _
  simp

theorem get_eq_ok {s t a : σ} : (get : EStateM ε σ σ) s = .ok a t ↔ s = a ∧ s = t := by
  show EStateM.Result.ok s s = .ok a t ↔ _
  simp

theorem set_eq_ok {s s' t : σ} {u : PUnit} : (set s' : EStateM ε σ PUnit) s = .ok u t ↔ s' = t := by
  show EStateM.Result.ok PUnit.unit s' = .ok u t ↔ _
  simp

theorem modify_eq_ok {g : σ → σ} {s t : σ} {u : PUnit} :
    (modify g : EStateM ε σ PUnit) s = .ok u t ↔ g s = t := by
  show EStateM.Result.ok PUnit.unit (g s) = .ok u t ↔ _
  simp

/-- A sequence fails where its first part fails, or after it where the second does. -/
theorem bind_eq_error {x : EStateM ε σ α} {f : α → EStateM ε σ β} {s t : σ} {e : ε} :
    (x >>= f) s = .error e t ↔ x s = .error e t ∨ ∃ a u, x s = .ok a u ∧ f a u = .error e t := by
  show EStateM.bind x f s = .error e t ↔ _
  unfold EStateM.bind
  cases x s with
  | ok a u => simp [and_assoc]
  | error e' u => simp

theorem pure_eq_error {s t : σ} {a : α} {e : ε} : (pure a : EStateM ε σ α) s = .error e t ↔ False := by
  show EStateM.Result.ok a s = .error e t ↔ _
  simp

theorem throw_eq_error {s t : σ} {e e' : ε} :
    (throw e : EStateM ε σ α) s = .error e' t ↔ e = e' ∧ s = t := by
  show EStateM.Result.error e s = .error e' t ↔ _
  simp

/-- The same for a computation without a state. -/
theorem except_bind_eq_ok {x : Except ε α} {f : α → Except ε β} {b : β} :
    (x >>= f) = .ok b ↔ ∃ a, x = .ok a ∧ f a = .ok b := by
  cases x with
  | error e => simp [bind, Except.bind]
  | ok a => simp [bind, Except.bind]

theorem except_mapError_eq_ok {ε' : Type} {x : Except ε α} {f : ε → ε'} {a : α} :
    x.mapError f = .ok a ↔ x = .ok a := by
  cases x with
  | ok b =>
    show Except.ok b = Except.ok a ↔ _
    rw [Except.ok.injEq, Except.ok.injEq]
  | error e =>
    constructor
    · intro h
      cases h
    · intro h
      cases h

/-- A list that is mapped with a partial function, one entry at a time. -/
theorem mapM_cons_eq_some {f : α → Option β} {a : α} {l : List α} {m : List β} :
    (a :: l).mapM f = some m ↔ ∃ b m', f a = some b ∧ l.mapM f = some m' ∧ m = b :: m' := by
  rw [List.mapM_cons]
  cases f a with
  | none => simp
  | some b =>
    cases l.mapM f with
    | none => simp
    | some m' => simp [eq_comm]

/-- Of a list that is mapped with a partial function, each entry has its value at its own place. -/
theorem getElem?_of_mapM {f : α → Option β} {l : List α} :
    ∀ {m : List β} {j : Nat} {a : α}, l.mapM f = some m → l[j]? = some a → m[j]? = f a := by
  induction l with
  | nil => intro m j a _ hj; simp at hj
  | cons first l ih =>
    intro m j a h hj
    obtain ⟨b, m', hb, hm', rfl⟩ := mapM_cons_eq_some.mp h
    cases j with
    | zero =>
      obtain rfl : first = a := by simpa using hj
      exact hb.symm
    | succ j =>
      rw [List.getElem?_cons_succ] at hj ⊢
      exact ih hm' hj

theorem mapM_congr {f g : α → Option β} {l : List α} (h : ∀ a ∈ l, f a = g a) : l.mapM f = l.mapM g := by
  induction l with
  | nil => rfl
  | cons a l ih =>
    rw [List.mapM_cons, List.mapM_cons, h a List.mem_cons_self, ih fun a ha => h a (List.mem_cons_of_mem _ ha)]

theorem length_of_mapM {f : α → Option β} {l : List α} :
    ∀ {m : List β}, l.mapM f = some m → m.length = l.length := by
  induction l with
  | nil =>
    intro m h
    obtain rfl : [] = m := by simpa using h
    rfl
  | cons a l ih =>
    intro m h
    obtain ⟨b, m', -, hm', rfl⟩ := mapM_cons_eq_some.mp h
    rw [List.length_cons, List.length_cons, ih hm']

theorem exists_mapM_of_forall {f : α → Option β} {l : List α} (h : ∀ a ∈ l, ∃ b, f a = some b) :
    ∃ m, l.mapM f = some m := by
  induction l with
  | nil => exact ⟨[], rfl⟩
  | cons a l ih =>
    obtain ⟨b, hb⟩ := h a List.mem_cons_self
    obtain ⟨m, hm⟩ := ih fun a ha => h a (List.mem_cons_of_mem _ ha)
    exact ⟨b :: m, mapM_cons_eq_some.mpr ⟨b, m, hb, hm, rfl⟩⟩

/-- The state in which a procedure ends, whether it returns or fails. -/
def endState (x : EStateM ε σ α) (s : σ) : σ :=
  match x s with
  | .ok _ t => t
  | .error _ t => t

theorem endState_of_ok {x : EStateM ε σ α} {s t : σ} {a : α} (h : x s = .ok a t) :
    endState x s = t := by
  rw [endState, h]

theorem endState_of_error {x : EStateM ε σ α} {s t : σ} {e : ε} (h : x s = .error e t) :
    endState x s = t := by
  rw [endState, h]

theorem endState_bind (x : EStateM ε σ α) (f : α → EStateM ε σ β) (s : σ) :
    endState (x >>= f) s =
      match x s with
      | .ok a t => endState (f a) t
      | .error _ t => t := by
  show (match EStateM.bind x f s with | .ok _ t => t | .error _ t => t) = _
  unfold EStateM.bind
  cases x s with
  | ok a t => rfl
  | error e t => rfl

/-- A sequence whose first part is known. -/
theorem bind_of_ok {x : EStateM ε σ α} {f : α → EStateM ε σ β} {s t : σ} {a : α}
    (h : x s = .ok a t) : (x >>= f) s = f a t := by
  show EStateM.bind x f s = _
  rw [EStateM.bind, h]

theorem bind_of_error {x : EStateM ε σ α} {f : α → EStateM ε σ β} {s t : σ} {e : ε}
    (h : x s = .error e t) : (x >>= f) s = .error e t := by
  show EStateM.bind x f s = _
  rw [EStateM.bind, h]

/-! ## Triples -/

/-- **`Triple P x Q E`** — `Q` after a return, `E` after a failure. -/
def Triple (P : σ → Prop) (x : EStateM ε σ α) (Q : α → σ → Prop) (E : ε → σ → Prop) : Prop :=
  ∀ s, P s →
    match x s with
    | .ok a t => Q a t
    | .error e t => E e t

namespace Triple

variable {P P' : σ → Prop} {Q Q' : α → σ → Prop} {R : β → σ → Prop} {E E' : ε → σ → Prop}
  {x : EStateM ε σ α} {f : α → EStateM ε σ β}

/-! ### The rules -/

theorem pure {a : α} (h : ∀ s, P s → Q a s) : Triple P (pure a : EStateM ε σ α) Q E :=
  fun s hs => h s hs

theorem throw {e : ε} (h : ∀ s, P s → E e s) : Triple P (throw e : EStateM ε σ α) Q E :=
  fun s hs => h s hs

theorem modify {g : σ → σ} {Q : PUnit → σ → Prop} (h : ∀ s, P s → Q ⟨⟩ (g s)) :
    Triple P (modify g : EStateM ε σ PUnit) Q E :=
  fun s hs => h s hs

theorem set {s' : σ} {Q : PUnit → σ → Prop} (h : ∀ s, P s → Q ⟨⟩ s') :
    Triple P (set s' : EStateM ε σ PUnit) Q E :=
  fun s hs => h s hs

theorem bind (hx : Triple P x Q E) (hf : ∀ a, Triple (Q a) (f a) R E) : Triple P (x >>= f) R E := by
  intro s hs
  have hxs := hx s hs
  change match EStateM.bind x f s with
    | .ok b t => R b t
    | .error e t => E e t
  unfold EStateM.bind
  cases hrun : x s with
  | ok a t =>
    rw [hrun] at hxs
    exact hf a t hxs
  | error e t =>
    rw [hrun] at hxs
    exact hxs

/-- Sequencing of two procedures of which the first returns nothing of interest. -/
theorem seq {x : EStateM ε σ PUnit} {y : EStateM ε σ β} {Q : PUnit → σ → Prop}
    (hx : Triple P x Q E) (hy : Triple (Q ⟨⟩) y R E) : Triple P (x >>= fun _ => y) R E :=
  hx.bind fun _ => hy

/-- After reading the state, it is known. -/
theorem get {f : σ → EStateM ε σ β} (h : ∀ s, P s → Triple (· = s) (f s) R E) :
    Triple P (MonadState.get >>= f) R E :=
  fun s hs => h s hs s rfl

theorem ite {c : Prop} [Decidable c] {y : EStateM ε σ α} (ht : c → Triple P x Q E)
    (hf : ¬ c → Triple P y Q E) : Triple P (if c then x else y) Q E := by
  split
  · exact ht ‹c›
  · exact hf ‹¬ c›

theorem conseq (h : Triple P x Q E) (hP : ∀ s, P' s → P s) (hQ : ∀ a s, Q a s → Q' a s)
    (hE : ∀ e s, E e s → E' e s) : Triple P' x Q' E' := by
  intro s hs
  have hxs := h s (hP s hs)
  cases hrun : x s with
  | ok a t =>
    rw [hrun] at hxs
    exact hQ a t hxs
  | error e t =>
    rw [hrun] at hxs
    exact hE e t hxs

theorem pre (h : Triple P x Q E) (hP : ∀ s, P' s → P s) : Triple P' x Q E :=
  h.conseq hP (fun _ _ hq => hq) (fun _ _ he => he)

theorem post (h : Triple P x Q E) (hQ : ∀ a s, Q a s → Q' a s) : Triple P x Q' E :=
  h.conseq (fun _ hp => hp) hQ (fun _ _ he => he)

/-- Two specifications at once. -/
theorem and (h : Triple P x Q E) (h' : Triple P x Q' E') :
    Triple P x (fun a s => Q a s ∧ Q' a s) (fun e s => E e s ∧ E' e s) := by
  intro s hs
  have hxs := h s hs
  have hxs' := h' s hs
  cases hrun : x s with
  | ok a t =>
    rw [hrun] at hxs hxs'
    exact ⟨hxs, hxs'⟩
  | error e t =>
    rw [hrun] at hxs hxs'
    exact ⟨hxs, hxs'⟩

/-! ### Using a specification -/

theorem of_error (h : Triple P x Q E) {s t : σ} {e : ε} (hs : P s) (hrun : x s = .error e t) :
    E e t := by
  have := h s hs
  rwa [hrun] at this

theorem of_ok (h : Triple P x Q E) {s t : σ} {a : α} (hs : P s) (hrun : x s = .ok a t) : Q a t := by
  have := h s hs
  rwa [hrun] at this

/-- What holds at either end holds at the end. -/
theorem of_endState {R : σ → Prop} (h : Triple P x (fun _ => R) (fun _ => R)) {s : σ} (hs : P s) :
    R (endState x s) := by
  cases hrun : x s with
  | ok a t =>
    rw [endState_of_ok hrun]
    exact h.of_ok hs hrun
  | error e t =>
    rw [endState_of_error hrun]
    exact h.of_error hs hrun

end Triple

/-! ## Procedures with more in their state -/

/-- **`Projects view x y`** — seen through `view`, the procedure `x` is `y`. -/
def Projects {τ : Type} (view : τ → σ) (x : EStateM ε τ α) (y : EStateM ε σ α) : Prop :=
  ∀ s, match x s with
    | .ok a t => y (view s) = .ok a (view t)
    | .error e t => y (view s) = .error e (view t)

namespace Projects

variable {τ : Type} {view : τ → σ} {x : EStateM ε τ α} {y : EStateM ε σ α}

theorem pure (a : α) : Projects view (pure a : EStateM ε τ α) (pure a) := fun _ => rfl

theorem throw (e : ε) : Projects view (throw e : EStateM ε τ α) (throw e) := fun _ => rfl

theorem bind {f : α → EStateM ε τ β} {g : α → EStateM ε σ β} (hx : Projects view x y)
    (hf : ∀ a, Projects view (f a) (g a)) : Projects view (x >>= f) (y >>= g) := by
  intro s
  have hxs := hx s
  change match EStateM.bind x f s with
    | .ok b t => EStateM.bind y g (view s) = .ok b (view t)
    | .error e t => EStateM.bind y g (view s) = .error e (view t)
  unfold EStateM.bind
  cases hrun : x s with
  | ok a t =>
    rw [hrun] at hxs
    simp only [hxs]
    exact hf a t
  | error e t =>
    rw [hrun] at hxs
    simp only [hxs]

theorem of_ok (h : Projects view x y) {s t : τ} {a : α} (hrun : x s = .ok a t) :
    y (view s) = .ok a (view t) := by
  have hs := h s
  rwa [hrun] at hs

theorem of_error (h : Projects view x y) {s t : τ} {e : ε} (hrun : x s = .error e t) :
    y (view s) = .error e (view t) := by
  have hs := h s
  rwa [hrun] at hs

end Projects

end BottledWater.Lib
