import Mathlib.Tactic

/-!
Computations that change a state and may fail, where a failure keeps the changes made so far:
what a function with `?` on a mutable receiver does.

* `exec_bind`: how computations are composed;
* `exec_zoom`: a computation on a part of the state;
* `Moves`: what holds between the state before a computation and the one after it;
* `Meets`: conditions on the state before a computation, and on what it ends with;
* `Commutes`: changes of the state that a computation does not see.
-/

/-- A computation on a state that ends with a value or an error. -/
abbrev Stateful (ε σ α : Type) := ExceptT ε (StateM σ) α

namespace Stateful

variable {ε σ τ α β : Type}

/-- The outcome and the state left behind. -/
def exec (x : Stateful ε σ α) (s : σ) : Except ε α × σ := x s

/-- The computation given by its outcome and the state that it leaves behind. -/
def ofFn (f : σ → Except ε α × σ) : Stateful ε σ α := f

/-- A computation on a part of the state. -/
def zoom (view : σ → τ) (put : σ → τ → σ) (x : Stateful ε τ α) : Stateful ε σ α :=
  ofFn fun s => ((exec x (view s)).1, put s (exec x (view s)).2)

/-- The outcome of a computation as a value, so that what follows can look at an error. -/
def attempt {ε' : Type} (x : Stateful ε σ α) : Stateful ε' σ (Except ε α) :=
  ofFn fun s => (.ok (exec x s).1, (exec x s).2)

/-- A result that does not depend on the state. -/
def ofExcept (r : Except ε α) : Stateful ε σ α := ofFn fun s => (r, s)

@[simp] lemma exec_ofFn (f : σ → Except ε α × σ) (s : σ) : exec (ofFn f) s = f s := rfl

@[simp] lemma exec_pure (a : α) (s : σ) : exec (pure a : Stateful ε σ α) s = (.ok a, s) := rfl

@[simp] lemma exec_throw (e : ε) (s : σ) :
    exec (throw e : Stateful ε σ α) s = (.error e, s) := rfl

@[simp] lemma exec_get (s : σ) : exec (get : Stateful ε σ σ) s = (.ok s, s) := rfl

@[simp] lemma exec_set (t s : σ) : exec (set t : Stateful ε σ PUnit) s = (.ok ⟨⟩, t) := rfl

@[simp] lemma exec_modify (f : σ → σ) (s : σ) :
    exec (modify f : Stateful ε σ PUnit) s = (.ok ⟨⟩, f s) := rfl

@[simp] lemma exec_ofExcept (r : Except ε α) (s : σ) :
    exec (ofExcept r : Stateful ε σ α) s = (r, s) := rfl

@[simp] lemma exec_attempt {ε' : Type} (x : Stateful ε σ α) (s : σ) :
    exec (attempt x : Stateful ε' σ _) s = (.ok (exec x s).1, (exec x s).2) := rfl

@[simp] lemma exec_zoom (view : σ → τ) (put : σ → τ → σ) (x : Stateful ε τ α) (s : σ) :
    exec (zoom view put x) s = ((exec x (view s)).1, put s (exec x (view s)).2) := rfl

/-- The second computation runs on what the first one leaves behind, unless it failed. -/
lemma exec_bind (x : Stateful ε σ α) (f : α → Stateful ε σ β) (s : σ) :
    exec (x >>= f) s =
      match exec x s with
      | (.ok a, t) => exec (f a) t
      | (.error e, t) => (.error e, t) := by
  show (ExceptT.bindCont f (x s).1 : StateM σ _) (x s).2 = _
  rw [exec]
  rcases x s with ⟨_ | _, _⟩ <;> rfl

@[simp] lemma map_ok (f : α → β) (a : α) : (Except.ok a : Except ε α).map f = .ok (f a) := rfl

@[simp] lemma map_error (f : α → β) (e : ε) :
    (Except.error e : Except ε α).map f = .error e := rfl

@[simp] lemma exec_map (f : α → β) (x : Stateful ε σ α) (s : σ) :
    exec (f <$> x) s = ((exec x s).1.map f, (exec x s).2) := by
  rw [← bind_pure_comp, exec_bind]
  rcases exec x s with ⟨_ | _, _⟩ <;> rfl

lemma exec_bind_ok {x : Stateful ε σ α} {f : α → Stateful ε σ β} {s t : σ} {a : α}
    (h : exec x s = (.ok a, t)) : exec (x >>= f) s = exec (f a) t := by
  rw [exec_bind, h]

lemma exec_bind_error {x : Stateful ε σ α} {f : α → Stateful ε σ β} {s t : σ} {e : ε}
    (h : exec x s = (.error e, t)) : exec (x >>= f) s = (.error e, t) := by
  rw [exec_bind, h]

/-- A composition ends well exactly when both of its parts do. -/
lemma exec_bind_eq_ok {x : Stateful ε σ α} {f : α → Stateful ε σ β} {s u : σ} {b : β} :
    exec (x >>= f) s = (.ok b, u) ↔
      ∃ a t, exec x s = (.ok a, t) ∧ exec (f a) t = (.ok b, u) := by
  rw [exec_bind]
  rcases exec x s with ⟨_ | _, _⟩ <;> simp

/-- The second part only matters for what the first part can give. -/
lemma bind_congr_ok {x : Stateful ε σ α} {f g : α → Stateful ε σ β}
    (h : ∀ a s t, exec x s = (.ok a, t) → f a = g a) : x >>= f = x >>= g := by
  funext s
  show exec (x >>= f) s = exec (x >>= g) s
  rw [exec_bind, exec_bind]
  generalize hexec : exec x s = r
  obtain ⟨_ | a, t⟩ := r
  · rfl
  · exact congrArg (fun y => exec y t) (h a s t hexec)

/-! ### What a computation does to the state, whether or not it fails -/

/-- Every run relates the state before it to the one that it leaves behind. -/
def Moves (R : σ → σ → Prop) (x : Stateful ε σ α) : Prop := ∀ s, R s (exec x s).2

section Moves

variable {R : σ → σ → Prop}

lemma Moves.pure (hrefl : ∀ s, R s s) (a : α) : Moves R (pure a : Stateful ε σ α) :=
  fun s => hrefl s

lemma Moves.throw (hrefl : ∀ s, R s s) (e : ε) : Moves R (throw e : Stateful ε σ α) :=
  fun s => hrefl s

lemma Moves.get (hrefl : ∀ s, R s s) : Moves R (get : Stateful ε σ σ) := fun s => hrefl s

lemma Moves.ofExcept (hrefl : ∀ s, R s s) (r : Except ε α) :
    Moves R (ofExcept r : Stateful ε σ α) := fun s => hrefl s

lemma Moves.modify {f : σ → σ} (hf : ∀ s, R s (f s)) :
    Moves R (modify f : Stateful ε σ PUnit) := fun s => hf s

/-- A relation that composes holds of two computations, one after the other. -/
lemma Moves.bind (htrans : ∀ s t u, R s t → R t u → R s u) {x : Stateful ε σ α}
    {f : α → Stateful ε σ β} (hx : Moves R x) (hf : ∀ a, Moves R (f a)) : Moves R (x >>= f) := by
  intro s
  have hs := hx s
  rw [exec_bind]
  split
  · next a t heq =>
      rw [heq] at hs
      exact htrans s t _ hs (hf a t)
  · next e t heq =>
      rw [heq] at hs
      exact hs

lemma Moves.ite {c : Prop} [Decidable c] {x y : Stateful ε σ α} (hx : c → Moves R x)
    (hy : ¬ c → Moves R y) : Moves R (if c then x else y) := by
  split_ifs with h
  · exact hx h
  · exact hy h

end Moves

@[simp] lemma exec_ite {c : Prop} [Decidable c] (x y : Stateful ε σ α) (s : σ) :
    exec (if c then x else y) s = if c then exec x s else exec y s := by
  split_ifs <;> rfl

/-! ### Conditions before and after a computation -/

/-- From a state with `P` the computation ends with a value and a state with `Q`, or with an error
and a state with `E`. -/
def Meets (P : σ → Prop) (x : Stateful ε σ α) (Q : α → σ → Prop) (E : ε → σ → Prop) : Prop :=
  ∀ s, P s → match exec x s with
    | (.ok a, t) => Q a t
    | (.error e, t) => E e t

section Meets

variable {P P' : σ → Prop} {Q Q' : α → σ → Prop} {E E' : ε → σ → Prop}

lemma Meets.ok {x : Stateful ε σ α} {s t : σ} {a : α} (h : Meets P x Q E) (hs : P s)
    (hexec : exec x s = (.ok a, t)) : Q a t := by
  have hx := h s hs
  rwa [hexec] at hx

lemma Meets.error {x : Stateful ε σ α} {s t : σ} {e : ε} (h : Meets P x Q E) (hs : P s)
    (hexec : exec x s = (.error e, t)) : E e t := by
  have hx := h s hs
  rwa [hexec] at hx

lemma Meets.pure {a : α} (h : ∀ s, P s → Q a s) : Meets P (pure a : Stateful ε σ α) Q E := h

lemma Meets.throw {e : ε} (h : ∀ s, P s → E e s) : Meets P (throw e : Stateful ε σ α) Q E := h

lemma Meets.ofExcept {r : Except ε α} (hok : ∀ a s, r = .ok a → P s → Q a s)
    (herror : ∀ e s, r = .error e → P s → E e s) :
    Meets P (ofExcept r : Stateful ε σ α) Q E := by
  intro s hs
  rw [exec_ofExcept]
  cases r with
  | error e => exact herror e s rfl hs
  | ok a => exact hok a s rfl hs

/-- After an attempt the outcome is known, and the state that it left behind. -/
lemma Meets.attempt {ε' : Type} {E : ε' → σ → Prop} {x : Stateful ε σ α} :
    Meets P (Stateful.attempt x) (fun r t => ∃ s, P s ∧ exec x s = (r, t)) E :=
  fun s hs => ⟨s, hs, rfl⟩

lemma Meets.set {t : σ} {R : PUnit → σ → Prop} (h : ∀ s, P s → R ⟨⟩ t) :
    Meets P (set t : Stateful ε σ PUnit) R E := h

lemma Meets.modify {f : σ → σ} {R : PUnit → σ → Prop} (h : ∀ s, P s → R ⟨⟩ (f s)) :
    Meets P (modify f : Stateful ε σ PUnit) R E := h

lemma Meets.mono {x : Stateful ε σ α} (h : Meets P x Q E) (hP : ∀ s, P' s → P s)
    (hQ : ∀ a s, Q a s → Q' a s) (hE : ∀ e s, E e s → E' e s) : Meets P' x Q' E' := by
  intro s hs
  have hx := h s (hP s hs)
  revert hx
  rcases exec x s with ⟨e | a, t⟩
  · exact hE e t
  · exact hQ a t

/-- The condition holds of the state at hand. -/
lemma Meets.start {x : Stateful ε σ α} {s : σ} (h : Meets P x Q E) (hs : P s) :
    Meets (· = s) x Q E := by
  rintro _ rfl
  exact h _ hs

lemma Meets.bind {x : Stateful ε σ α} {f : α → Stateful ε σ β} {R : β → σ → Prop}
    (hx : Meets P x Q E) (hf : ∀ a, Meets (Q a) (f a) R E) : Meets P (x >>= f) R E := by
  intro s hs
  have h := hx s hs
  rw [exec_bind]
  revert h
  rcases exec x s with ⟨e | a, t⟩
  · exact id
  · exact hf a t

lemma Meets.map {x : Stateful ε σ α} {f : α → β} {R : β → σ → Prop} (hx : Meets P x Q E)
    (hf : ∀ a s, Q a s → R (f a) s) : Meets P (f <$> x) R E := by
  intro s hs
  have h := hx s hs
  rw [exec_map]
  revert h
  rcases exec x s with ⟨e | a, t⟩
  · exact id
  · exact hf a t

/-- What follows a look at the state may use all that is known of it. -/
lemma Meets.get_bind {f : σ → Stateful ε σ β} {R : β → σ → Prop}
    (h : ∀ s, P s → Meets (· = s) (f s) R E) : Meets P (get >>= f) R E := by
  intro s hs
  rw [exec_bind]
  exact h s hs s rfl

lemma Meets.ite {c : Prop} [Decidable c] {x y : Stateful ε σ α} (hx : c → Meets P x Q E)
    (hy : ¬ c → Meets P y Q E) : Meets P (if c then x else y) Q E := by
  split_ifs with h
  · exact hx h
  · exact hy h

lemma Meets.and {x : Stateful ε σ α} (h : Meets P x Q E) (h' : Meets P x Q' E') :
    Meets P x (fun a s => Q a s ∧ Q' a s) (fun e s => E e s ∧ E' e s) := by
  intro s hs
  have hx := h s hs
  have hx' := h' s hs
  revert hx hx'
  rcases exec x s with ⟨e | a, t⟩ <;> exact And.intro

lemma Meets.foldlM {l : List β} {f : α → β → Stateful ε σ α} {a : α}
    (h : ∀ a, ∀ b ∈ l, Meets P (f a b) (fun _ => P) E) : Meets P (l.foldlM f a) (fun _ => P) E := by
  induction l generalizing a with
  | nil => exact fun _ => id
  | cons b l ih =>
      rw [List.foldlM_cons]
      exact .bind (h a b List.mem_cons_self) fun a' =>
        ih fun a'' b' hb' => h a'' b' (List.mem_cons_of_mem _ hb')

lemma exec_tryCatch (x : Stateful ε σ α) (h : ε → Stateful ε σ α) (s : σ) :
    exec (tryCatch x h) s =
      match exec x s with
      | (.ok a, t) => (.ok a, t)
      | (.error e, t) => exec (h e) t := by
  show (ExceptT.tryCatch x h : StateM σ _) s = _
  rw [exec]
  simp only [ExceptT.tryCatch, ExceptT.mk, bind, StateT.bind]
  rcases x s with ⟨_ | _, _⟩ <;> rfl

lemma Meets.tryCatch {x : Stateful ε σ α} {h : ε → Stateful ε σ α} (hx : Meets P x Q E)
    (hh : ∀ e, Meets (E e) (h e) Q E') : Meets P (tryCatch x h) Q E' := by
  intro s hs
  have hexec := hx s hs
  rw [exec_tryCatch]
  revert hexec
  rcases exec x s with ⟨e | a, t⟩
  · exact hh e t
  · exact id

end Meets

/-! ### Changes of the state that a computation does not see -/

/-- The computation does the same before and after the change. -/
def Commutes (g : σ → σ) (x : Stateful ε σ α) : Prop :=
  ∀ s, exec x (g s) = ((exec x s).1, g (exec x s).2)

section Commutes

variable {g : σ → σ}

lemma Commutes.pure (a : α) : Commutes g (pure a : Stateful ε σ α) := fun _ => rfl

lemma Commutes.throw (e : ε) : Commutes g (throw e : Stateful ε σ α) := fun _ => rfl

lemma Commutes.ofExcept (r : Except ε α) : Commutes g (ofExcept r : Stateful ε σ α) := fun _ => rfl

lemma Commutes.modify {f : σ → σ} (hf : ∀ s, f (g s) = g (f s)) :
    Commutes g (modify f : Stateful ε σ PUnit) :=
  fun s => congrArg (fun t => (Except.ok PUnit.unit, t)) (hf s)

/-- The first part only has to do the same in the state where it runs. -/
lemma Commutes.bind_at {x : Stateful ε σ α} {f : α → Stateful ε σ β} {s : σ}
    (hx : exec x (g s) = ((exec x s).1, g (exec x s).2)) (hf : ∀ a, Commutes g (f a)) :
    exec (x >>= f) (g s) = ((exec (x >>= f) s).1, g (exec (x >>= f) s).2) := by
  rw [exec_bind, exec_bind, hx]
  rcases exec x s with ⟨_ | a, t⟩
  · rfl
  · exact hf a t

lemma Commutes.bind {x : Stateful ε σ α} {f : α → Stateful ε σ β} (hx : Commutes g x)
    (hf : ∀ a, Commutes g (f a)) : Commutes g (x >>= f) := fun s => Commutes.bind_at (hx s) hf

/-- A computation that reads the state, and then only what the change leaves as it is. -/
lemma Commutes.get_bind {f : σ → Stateful ε σ β} (hf : ∀ s, f (g s) = f s)
    (hcommutes : ∀ s, Commutes g (f s)) : Commutes g (get >>= f : Stateful ε σ β) := by
  intro s
  rw [exec_bind, exec_bind]
  simp only [exec_get]
  rw [hf s]
  exact hcommutes s s

lemma Commutes.ite {c : Prop} [Decidable c] {x y : Stateful ε σ α} (hx : Commutes g x)
    (hy : Commutes g y) : Commutes g (if c then x else y) := by
  split_ifs
  · exact hx
  · exact hy

end Commutes

end Stateful
