import RustyTinc.Library.Stateful

/-!
Frames that are read out of a stream, which arrives in chunks.

* `call_invariant`: what every frame keeps, whether or not it fails, is kept by a chunk;
* `call_follows`: what every frame keeps of the items that have arrived is kept by a chunk;
* `calls_unique`: two ways of cutting a stream that are both read to the end give the same;
* `calls_of_bytewise`: a stream that is read item by item is read in every other way of cutting
  it;
* `calls_of_calls`: a stream that is read in one way of cutting it is read in every other one,
  as long as there is always room for the next item;
* `Agrees.calls_eq`, `Agrees.drains_iff`: two readers that look for frames in the same way, in some
  states, do the same in these states.
-/

/-- A reader with the state `σ`, which holds the items that have arrived and are not yet part of
a frame; what the frames give is collected in `ω`. -/
structure FrameReader (ε σ ω β : Type) where
  /-- Handles the next frame, if it has arrived, and says whether it has. -/
  next : Stateful ε (σ × ω) Bool
  /-- Takes some of the items, the first ones, and returns the others. -/
  load : List β → Stateful ε σ (List β)
  /-- A bound for the number of frames that can be handled. -/
  weight : σ → ℕ

namespace FrameReader

variable {ε σ ω β : Type} (r : FrameReader ε σ ω β)

/-- Frames are taken until there is no whole one left. -/
def drainFrames : ℕ → Stateful ε (σ × ω) Unit
  | 0 => pure ()
  | fuel + 1 => do if ← r.next then drainFrames fuel else pure ()

/-- Handles all frames that have arrived. -/
def drain : Stateful ε (σ × ω) Unit := do
  let s ← get
  r.drainFrames (r.weight s.1 + 1)

/-- Takes the items as far as there is room for them, and handles the frames after each time. -/
def feed : ℕ → List β → Stateful ε (σ × ω) Unit
  | 0, _ => pure ()
  | fuel + 1, data =>
      if data.isEmpty then pure ()
      else do
        let rest ← .zoom Prod.fst (fun s t => (t, s.2)) (r.load data)
        r.drain
        feed fuel rest

/-- What is done with one chunk. -/
def receive (data : List β) : Stateful ε (σ × ω) Unit := do
  r.drain
  r.feed data.length data

variable [AddMonoid ω]

/-- A chunk is received and what its frames give is returned. -/
def call (data : List β) : Stateful ε σ ω :=
  .ofFn fun s =>
    let t := (r.receive data).exec (s, 0)
    (t.1.map fun _ => t.2.2, t.2.1)

/-- Chunks are received one after the other. -/
def calls : List (List β) → Stateful ε σ ω
  | [] => pure 0
  | data :: rest => do
      let w ← r.call data
      let w' ← calls rest
      return w + w'

/-! ### Invariants -/

section Invariant

variable {r} {Inv : σ → Prop}

omit [AddMonoid ω] in
/-- **What every frame keeps is kept by a chunk**, whether or not it fails. -/
lemma receive_invariant (hnext : r.next.Moves fun s t => Inv s.1 → Inv t.1)
    (hload : ∀ data, (r.load data).Moves fun s t => Inv s → Inv t) (data : List β) :
    (r.receive data).Moves fun s t => Inv s.1 → Inv t.1 := by
  have hrefl : ∀ s : σ × ω, Inv s.1 → Inv s.1 := fun _ h => h
  have htrans : ∀ s t u : σ × ω, (Inv s.1 → Inv t.1) → (Inv t.1 → Inv u.1) → Inv s.1 → Inv u.1 :=
    fun _ _ _ h h' hs => h' (h hs)
  have hframes : ∀ fuel, (r.drainFrames fuel).Moves fun s t => Inv s.1 → Inv t.1 := by
    intro fuel
    induction fuel with
    | zero => exact .pure hrefl _
    | succ fuel ih =>
        exact .bind htrans hnext fun more => .ite (fun _ => ih) fun _ => .pure hrefl _
  have hdrain : r.drain.Moves fun s t => Inv s.1 → Inv t.1 :=
    .bind htrans (.get hrefl) fun s => hframes _
  have hfeed : ∀ fuel data, (r.feed fuel data).Moves fun s t => Inv s.1 → Inv t.1 := by
    intro fuel
    induction fuel with
    | zero => exact fun _ => .pure hrefl _
    | succ fuel ih =>
        intro data
        refine .ite (fun _ => .pure hrefl _) fun _ => ?_
        exact .bind htrans (fun s => hload data s.1) fun rest => .bind htrans hdrain fun _ => ih rest
  exact .bind htrans hdrain fun _ => hfeed _ _

lemma call_invariant (hnext : r.next.Moves fun s t => Inv s.1 → Inv t.1)
    (hload : ∀ data, (r.load data).Moves fun s t => Inv s → Inv t) (data : List β) :
    (r.call data).Moves fun s t => Inv s → Inv t :=
  fun s => receive_invariant hnext hload data (s, 0)

omit [AddMonoid ω] in
/-- A condition that every frame keeps is kept by all frames that have arrived. -/
lemma drain_meets {P : σ × ω → Prop} {E : ε → σ × ω → Prop}
    (hnext : r.next.Meets P (fun _ => P) E) : r.drain.Meets P (fun _ => P) E := by
  have hframes : ∀ fuel, (r.drainFrames fuel).Meets P (fun _ => P) E := by
    intro fuel
    induction fuel with
    | zero => exact .pure fun _ => id
    | succ fuel ih =>
        exact .bind hnext fun more => .ite (fun _ => ih) fun _ => .pure fun _ => id
  exact .get_bind fun s hs => (hframes _).start hs

end Invariant

/-! ### The laws of a reader -/

/-- No frame has arrived. -/
def Stuck (s : σ) : Prop := (r.next.exec (s, 0)).1 = .ok false

/-- A frame is handled. -/
def Step (s : σ) (w : ω) (s' : σ) : Prop := r.next.exec (s, 0) = (.ok true, (s', w))

/-- A reader where what the frames give is collected in order, and where `window` says how many
items there is room for. -/
structure Lawful (push : σ → List β → σ) (window : σ → Option ℕ) : Prop where
  push_nil : ∀ s, push s [] = s
  push_push : ∀ s a b, push (push s a) b = push s (a ++ b)
  next_add : ∀ s w, r.next.exec (s, w) =
    ((r.next.exec (s, 0)).1, ((r.next.exec (s, 0)).2.1, w + (r.next.exec (s, 0)).2.2))
  next_stuck : ∀ s, r.Stuck s → r.next.exec (s, 0) = (.ok false, (s, 0))
  next_weight : ∀ s w s', r.Step s w s' → r.weight s' < r.weight s
  load_some : ∀ s n data, window s = some n → data ≠ [] →
    (r.load data).exec s = (.ok (data.drop n), push s (data.take n))
  load_none : ∀ s data, window s = none → data ≠ [] → ∃ e t, (r.load data).exec s = (.error e, t)
  window_pos : ∀ s n, window s = some n → 0 < n

/-- Items that arrive later do not change the frames that have arrived. -/
def Stable (push : σ → List β → σ) : Prop :=
  ∀ s a, ¬ r.Stuck s → r.next.exec (push s a, 0) =
    ((r.next.exec (s, 0)).1, (push (r.next.exec (s, 0)).2.1 a, (r.next.exec (s, 0)).2.2))

/-- All frames that have arrived are handled. -/
inductive Drains : σ → ω → σ → Prop where
  | stuck {s : σ} (h : r.Stuck s) : Drains s 0 s
  | step {s s' s'' : σ} {w w' : ω} (h : r.Step s w s') (hd : Drains s' w' s'') :
      Drains s (w + w') s''

section Drains

variable {r} {push : σ → List β → σ} {window : σ → Option ℕ} {s s' s'' : σ} {w w' : ω}

lemma Step.not_stuck (h : r.Step s w s') : ¬ r.Stuck s := by
  intro hstuck
  rw [Stuck, h] at hstuck
  cases hstuck

lemma Drains.stuck_right (h : r.Drains s w s') : r.Stuck s' := by
  induction h with
  | stuck h => exact h
  | step _ _ ih => exact ih

lemma Drains.of_stuck (h : r.Drains s w s') (hstuck : r.Stuck s) : w = 0 ∧ s' = s := by
  cases h with
  | stuck _ => exact ⟨rfl, rfl⟩
  | step h _ => exact absurd hstuck h.not_stuck

/-- What comes out does not depend on anything else. -/
lemma Drains.unique (h : r.Drains s w s') (h' : r.Drains s w' s'') : w = w' ∧ s' = s'' := by
  induction h generalizing w' s'' with
  | stuck h =>
      obtain ⟨rfl, rfl⟩ := h'.of_stuck h
      exact ⟨rfl, rfl⟩
  | @step s t u v v' h hd ih =>
      cases h' with
      | stuck hstuck => exact absurd hstuck h.not_stuck
      | @step _ t' _ _ _ hstep hd' =>
          have heq := h.symm.trans hstep
          simp only [Prod.mk.injEq, true_and] at heq
          obtain ⟨rfl, rfl⟩ := heq
          obtain ⟨rfl, rfl⟩ := ih hd'
          exact ⟨rfl, rfl⟩

variable (hr : r.Lawful push window)

include hr

/-- Enough fuel takes all whole frames. -/
lemma exec_drainFrames {fuel : ℕ} (hfuel : r.weight s < fuel) (w : ω) {t : σ × ω} :
    (r.drainFrames fuel).exec (s, w) = (.ok (), t) ↔
      ∃ v, r.Drains s v t.1 ∧ t.2 = w + v := by
  induction fuel generalizing s w with
  | zero => exact absurd hfuel (Nat.not_lt_zero _)
  | succ fuel ih =>
      rw [drainFrames, Stateful.exec_bind, hr.next_add]
      generalize hexec : r.next.exec (s, 0) = x
      obtain ⟨_ | more, u, v⟩ := x
      · -- a frame that fails
        refine iff_of_false (by simp) ?_
        rintro ⟨v', hd, -⟩
        cases hd with
        | stuck hstuck =>
            rw [Stuck, hexec] at hstuck
            cases hstuck
        | step hstep _ => cases hexec.symm.trans hstep
      · cases more with
        | false =>
            have hstuck : r.Stuck s := by rw [Stuck, hexec]
            have hsame := hexec.symm.trans (hr.next_stuck s hstuck)
            simp only [Prod.mk.injEq, true_and] at hsame
            obtain ⟨rfl, rfl⟩ := hsame
            simp only [Bool.false_eq_true, if_false, Stateful.exec_pure, Prod.mk.injEq, true_and]
            constructor
            · rintro rfl
              exact ⟨0, .stuck hstuck, rfl⟩
            · rintro ⟨v', hd, hv⟩
              obtain ⟨rfl, ht⟩ := hd.of_stuck hstuck
              exact Prod.ext ht.symm hv.symm
        | true =>
            have hstep : r.Step s v u := hexec
            have hlt := hr.next_weight s v u hstep
            simp only [if_true]
            rw [ih (by omega)]
            constructor
            · rintro ⟨v', hd, hv⟩
              exact ⟨v + v', .step hstep hd, by rw [hv, add_assoc]⟩
            · rintro ⟨v', hd, hv⟩
              cases hd with
              | stuck hstuck => exact absurd hstuck hstep.not_stuck
              | @step _ u' _ x x' hstep' hd =>
                  have heq := hstep.symm.trans hstep'
                  simp only [Prod.mk.injEq, true_and] at heq
                  obtain ⟨rfl, rfl⟩ := heq
                  exact ⟨x', hd, by rw [hv, add_assoc]⟩

/-- The loop over the frames does not run out of fuel. -/
lemma exec_drain (w : ω) {t : σ × ω} :
    r.drain.exec (s, w) = (.ok (), t) ↔ ∃ v, r.Drains s v t.1 ∧ t.2 = w + v := by
  rw [drain, Stateful.exec_bind]
  exact exec_drainFrames hr (Nat.lt_succ_self _) w

variable (hstable : r.Stable push)

include hstable

omit hr in
lemma Step.later (h : r.Step s w s') (a : List β) : r.Step (push s a) w (push s' a) := by
  rw [Step, hstable s a h.not_stuck, h]

omit hr in
/-- **Items that arrive later are handled after the frames that are there.** -/
lemma Drains.later {a : List β} (h : r.Drains s w s') (h' : r.Drains (push s' a) w' s'') :
    r.Drains (push s a) (w + w') s'' := by
  induction h with
  | stuck _ => rwa [zero_add]
  | step h _ ih =>
      rw [add_assoc]
      exact .step (h.later hstable a) (ih h')

/-- When items that arrive later do no harm, there was none before. -/
lemma Drains.of_push {a : List β} (h : r.Drains (push s a) w s'') :
    ∃ v s' v', r.Drains s v s' ∧ r.Drains (push s' a) v' s'' ∧ w = v + v' := by
  induction hweight : r.weight s using Nat.strong_induction_on generalizing s w with
  | _ n ih =>
      by_cases hstuck : r.Stuck s
      · exact ⟨0, s, w, .stuck hstuck, h, (zero_add w).symm⟩
      · have hnext := hstable s a hstuck
        generalize hexec : r.next.exec (s, 0) = x at hnext
        obtain ⟨o, t, v⟩ := x
        -- the frame that is there is handled in the same way
        have hfirst : ∀ {u u'}, r.Step (push s a) u u' → o = .ok true ∧ u = v ∧ u' = push t a := by
          intro u u' hu
          have heq := hu.symm.trans hnext
          simp only [Prod.mk.injEq] at heq
          exact ⟨heq.1.symm, heq.2.2, heq.2.1⟩
        cases h with
        | stuck hstuck' =>
            rw [Stuck, hnext] at hstuck'
            exact absurd (show r.Stuck s by rw [Stuck, hexec]; exact hstuck') hstuck
        | @step _ u' _ u v' hstep hd =>
            obtain ⟨rfl, rfl, rfl⟩ := hfirst hstep
            have hs : r.Step s u t := hexec
            obtain ⟨x, s', x', hx, hx', rfl⟩ := ih _ (hweight ▸ hr.next_weight s u t hs) hd rfl
            exact ⟨u + x, s', x', .step hs hx, hx', (add_assoc u x x').symm⟩

end Drains

/-! ### Chunks -/

/-- Items are taken as far as there is room for them. -/
inductive Feeds (push : σ → List β → σ) (window : σ → Option ℕ) : σ → List β → ω → σ → Prop where
  | nil (s : σ) : Feeds push window s [] 0 s
  | load {s s' s'' : σ} {data : List β} {n : ℕ} {w w' : ω} (hdata : data ≠ [])
      (hwindow : window s = some n) (hd : r.Drains (push s (data.take n)) w s')
      (hf : Feeds push window s' (data.drop n) w' s'') : Feeds push window s data (w + w') s''

/-- Items are taken one by one. -/
inductive Bytewise (push : σ → List β → σ) (window : σ → Option ℕ) :
    σ → List β → ω → σ → Prop where
  | nil (s : σ) : Bytewise push window s [] 0 s
  | cons {s s' s'' : σ} {b : β} {data : List β} {w w' : ω} (hwindow : window s ≠ none)
      (hd : r.Drains (push s [b]) w s') (hb : Bytewise push window s' data w' s'') :
      Bytewise push window s (b :: data) (w + w') s''

section Chunks

variable {r} {push : σ → List β → σ} {window : σ → Option ℕ} {s s' s'' : σ} {w w' : ω}
  {data data' : List β}

lemma Feeds.of_nil (h : r.Feeds push window s [] w s') : w = 0 ∧ s' = s := by
  cases h with
  | nil => exact ⟨rfl, rfl⟩
  | load hdata _ _ _ => exact absurd rfl hdata

lemma Feeds.stuck_right (h : r.Feeds push window s data w s') (hstuck : r.Stuck s) :
    r.Stuck s' := by
  induction h with
  | nil => exact hstuck
  | load _ _ hd _ ih => exact ih hd.stuck_right

lemma Bytewise.stuck_right (h : r.Bytewise push window s data w s') (hstuck : r.Stuck s) :
    r.Stuck s' := by
  induction h with
  | nil => exact hstuck
  | cons _ hd _ ih => exact ih hd.stuck_right

lemma Bytewise.append (h : r.Bytewise push window s data w s')
    (h' : r.Bytewise push window s' data' w' s'') :
    r.Bytewise push window s (data ++ data') (w + w') s'' := by
  induction h with
  | nil => rwa [zero_add]
  | cons hwindow hd _ ih =>
      rw [add_assoc]
      exact .cons hwindow hd (ih h')

lemma Bytewise.of_append (h : r.Bytewise push window s (data ++ data') w s'') :
    ∃ v s' v', r.Bytewise push window s data v s' ∧ r.Bytewise push window s' data' v' s'' ∧
      w = v + v' := by
  induction data generalizing s w with
  | nil => exact ⟨0, s, w, .nil s, h, (zero_add w).symm⟩
  | cons b data ih =>
      cases h with
      | @cons _ t _ _ _ u u' hwindow hd hb =>
          obtain ⟨v, s', v', hv, hv', rfl⟩ := ih hb
          exact ⟨u + v, s', v', .cons hwindow hd hv, hv', (add_assoc u v v').symm⟩

/-- Bytes that arrive one at a time lead to one result. -/
lemma Bytewise.unique (h : r.Bytewise push window s data w s')
    (h' : r.Bytewise push window s data w' s'') : w = w' ∧ s' = s'' := by
  induction h generalizing w' s'' with
  | nil =>
      cases h' with
      | nil => exact ⟨rfl, rfl⟩
  | cons _ hd _ ih =>
      cases h' with
      | cons _ hd' hb' =>
          obtain ⟨rfl, rfl⟩ := hd.unique hd'
          obtain ⟨rfl, rfl⟩ := ih hb'
          exact ⟨rfl, rfl⟩

variable (hr : r.Lawful push window)

include hr

/-- Enough fuel feeds all the data. -/
lemma exec_feed {fuel : ℕ} (hfuel : data.length ≤ fuel) (w : ω) {t : σ × ω} :
    (r.feed fuel data).exec (s, w) = (.ok (), t) ↔
      ∃ v, r.Feeds push window s data v t.1 ∧ t.2 = w + v := by
  have hdone : ∀ s w, ((.ok (), (s, w)) : Except ε Unit × σ × ω) = (.ok (), t) ↔
      ∃ v, r.Feeds push window s [] v t.1 ∧ t.2 = w + v := by
    intro s w
    rw [Prod.mk.injEq, and_iff_right rfl]
    constructor
    · rintro rfl
      exact ⟨0, .nil s, (add_zero w).symm⟩
    · rintro ⟨v, hv, ht⟩
      obtain ⟨rfl, hs⟩ := hv.of_nil
      exact Prod.ext hs.symm (by rw [ht, add_zero])
  induction fuel generalizing s w data with
  | zero =>
      obtain rfl := List.length_eq_zero_iff.mp (Nat.le_zero.mp hfuel)
      exact hdone s w
  | succ fuel ih =>
      rw [feed, Stateful.exec_ite]
      cases data with
      | nil => exact hdone s w
      | cons b data =>
          have hne : b :: data ≠ [] := List.cons_ne_nil _ _
          rw [if_neg (by simp)]
          cases hwindow : window s with
          | none =>
              obtain ⟨e, u, hload⟩ := hr.load_none s _ hwindow hne
              rw [Stateful.exec_bind, Stateful.exec_zoom, hload]
              refine iff_of_false (fun h => by cases h) ?_
              rintro ⟨v, hv, -⟩
              cases hv with
              | load _ hwindow' _ _ => cases hwindow.symm.trans hwindow'
          | some n =>
              have hpos := hr.window_pos s n hwindow
              have hlen : ((b :: data).drop n).length ≤ fuel := by
                rw [List.length_drop]
                omega
              have hload : Stateful.exec (.zoom Prod.fst (fun s t => (t, s.2))
                  (r.load (b :: data)) : Stateful ε (σ × ω) (List β)) (s, w) =
                    (.ok ((b :: data).drop n), (push s ((b :: data).take n), w)) := by
                rw [Stateful.exec_zoom, hr.load_some s n _ hwindow hne]
              rw [Stateful.exec_bind_ok hload, Stateful.exec_bind_eq_ok]
              constructor
              · rintro ⟨_, u, hdrain, hfeed⟩
                obtain ⟨v, hv, hu⟩ := (exec_drain hr w).mp hdrain
                obtain ⟨v', hv', ht⟩ := (ih hlen u.2).mp hfeed
                exact ⟨v + v', .load hne hwindow hv hv', by rw [ht, hu, add_assoc]⟩
              · rintro ⟨v, hv, ht⟩
                cases hv with
                | @load _ u _ _ n' x x' _ hwindow' hd hf =>
                    obtain rfl := Option.some.inj (hwindow.symm.trans hwindow')
                    exact ⟨(), (u, w + x), (exec_drain hr w).mpr ⟨x, hd, rfl⟩,
                      (ih hlen _).mpr ⟨x', hf, by rw [ht, add_assoc]⟩⟩

/-- **One chunk**: the frames that are there, then those of the chunk. -/
lemma exec_call : (r.call data).exec s = (.ok w, s') ↔
    ∃ v t v', r.Drains s v t ∧ r.Feeds push window t data v' s' ∧ w = v + v' := by
  have hreceive : ∀ {u : σ × ω}, (r.receive data).exec (s, 0) = (.ok (), u) ↔
      ∃ v t v', r.Drains s v t ∧ r.Feeds push window t data v' u.1 ∧ u.2 = v + v' := by
    intro u
    rw [receive, Stateful.exec_bind_eq_ok]
    constructor
    · rintro ⟨_, t, hdrain, hfeed⟩
      obtain ⟨v, hv, ht⟩ := (exec_drain hr 0).mp hdrain
      obtain ⟨v', hv', hu⟩ := (exec_feed hr le_rfl t.2).mp hfeed
      exact ⟨v, t.1, v', hv, hv', by rw [hu, ht, zero_add]⟩
    · rintro ⟨v, t, v', hv, hv', hu⟩
      exact ⟨(), (t, v), (exec_drain hr 0).mpr ⟨v, hv, (zero_add v).symm⟩,
        (exec_feed hr le_rfl v).mpr ⟨v', hv', hu⟩⟩
  rw [← hreceive (u := (s', w)), call, Stateful.exec_ofFn]
  rcases (r.receive data).exec (s, 0) with ⟨_ | _, u, v⟩
  · exact iff_of_false (fun h => by cases h) fun h => by cases h
  · simp [and_comm]

/-- What every frame of a chunk that is received well keeps, of the items that have arrived, of the
state and of what the frames have given so far. -/
lemma call_follows (Follows : List β → σ → ω → Prop) (input : List β)
    (hnext : ∀ input s w v s', Follows input s w → r.Step s v s' → Follows input s' (w + v))
    (hpush : ∀ input s w a, Follows input s w → Follows (input ++ a) (push s a) w)
    (hs : Follows input s 0) (h : (r.call data).exec s = (.ok w, s')) :
    Follows (input ++ data) s' w := by
  have hdrains : ∀ {s v s'}, r.Drains s v s' → ∀ input w, Follows input s w →
      Follows input s' (w + v) := by
    intro s v s' hd
    induction hd with
    | stuck _ =>
        intro input w hw
        rwa [add_zero]
    | step hstep _ ih =>
        intro input w hw
        rw [← add_assoc]
        exact ih _ _ (hnext _ _ _ _ _ hw hstep)
  have hfeeds : ∀ {s data v s'}, r.Feeds push window s data v s' → ∀ input w, Follows input s w →
      Follows (input ++ data) s' (w + v) := by
    intro s data v s' hf
    induction hf with
    | nil =>
        intro input w hw
        rwa [add_zero, List.append_nil]
    | @load s t u data n _ _ _ _ hd _ ih =>
        intro input w hw
        have hrest := ih _ _ (hdrains hd _ w (hpush _ _ _ (data.take n) hw))
        rwa [List.append_assoc, List.take_append_drop, add_assoc] at hrest
  obtain ⟨v, t, v', hd, hf, rfl⟩ := (exec_call hr).mp h
  have ht := hdrains hd input 0 hs
  rw [zero_add] at ht
  exact hfeeds hf input v ht

/-- What every frame of a chunk that is received well keeps. -/
lemma call_keeps {Keeps : σ → ω → Prop}
    (hnext : ∀ s w v s', Keeps s w → r.Step s v s' → Keeps s' (w + v))
    (hpush : ∀ s w a, Keeps s w → Keeps (push s a) w) (hs : Keeps s 0)
    (h : (r.call data).exec s = (.ok w, s')) : Keeps s' w :=
  call_follows hr (fun _ => Keeps) [] (fun _ => hnext) (fun _ => hpush) hs h

omit hr in
/-- The first call, and those after it. -/
lemma exec_calls_cons {rest : List (List β)} : (r.calls (data :: rest)).exec s = (.ok w, s') ↔
    ∃ v t v', (r.call data).exec s = (.ok v, t) ∧ (r.calls rest).exec t = (.ok v', s') ∧
      w = v + v' := by
  rw [calls, Stateful.exec_bind_eq_ok]
  refine exists_congr fun v => exists_congr fun t => ?_
  rw [Stateful.exec_bind_eq_ok]
  constructor
  · rintro ⟨hcall, v', u, hcalls, hpure⟩
    cases hpure
    exact ⟨v', hcall, hcalls, rfl⟩
  · rintro ⟨v', hcall, hcalls, rfl⟩
    exact ⟨hcall, v', s', hcalls, rfl⟩

/-! ### Two ways of cutting a stream -/

section Cuts

variable (hstable : r.Stable push)

include hstable

lemma Feeds.drains (h : r.Feeds push window s data w s') (hstuck : r.Stuck s) :
    r.Drains (push s data) w s' := by
  induction h with
  | nil =>
      rw [hr.push_nil]
      exact .stuck hstuck
  | @load s t _ data n _ _ _ _ hd _ ih =>
      have hrest := hd.later hstable (ih hd.stuck_right)
      rwa [hr.push_push, List.take_append_drop] at hrest

/-- A chunk has the effect of all of its items arriving at once. -/
lemma drains_of_call (h : (r.call data).exec s = (.ok w, s')) : r.Drains (push s data) w s' := by
  obtain ⟨v, t, v', hd, hf, rfl⟩ := (exec_call hr).mp h
  exact hd.later hstable (hf.drains hr hstable hd.stuck_right)

/-- The frames of a stream do not depend on how it is cut. -/
lemma drains_of_calls {chunks : List (List β)} (hne : chunks ≠ [])
    (h : (r.calls chunks).exec s = (.ok w, s')) : r.Drains (push s chunks.flatten) w s' := by
  induction chunks generalizing s w with
  | nil => exact absurd rfl hne
  | cons data rest ih =>
      obtain ⟨v, t, v', hcall, hcalls, rfl⟩ := exec_calls_cons.mp h
      have hd := drains_of_call hr hstable hcall
      by_cases hrest : rest = []
      · subst hrest
        cases hcalls
        rwa [List.flatten_singleton, add_zero]
      · have htail := hd.later hstable (ih hrest hcalls)
        rwa [hr.push_push] at htail

/-- **Two ways of cutting a stream that are both read to the end give the same.** -/
theorem calls_unique {chunks chunks' : List (List β)} (hne : chunks ≠ []) (hne' : chunks' ≠ [])
    (hflat : chunks.flatten = chunks'.flatten) (h : (r.calls chunks).exec s = (.ok w, s'))
    (h' : (r.calls chunks').exec s = (.ok w', s'')) : w = w' ∧ s' = s'' :=
  (drains_of_calls hr hstable hne h).unique (hflat ▸ drains_of_calls hr hstable hne' h')

lemma Bytewise.drains (h : r.Bytewise push window s data w s') (hstuck : r.Stuck s) :
    r.Drains (push s data) w s' := by
  induction h with
  | nil =>
      rw [hr.push_nil]
      exact .stuck hstuck
  | cons _ hd _ ih =>
      have hrest := hd.later hstable (ih hd.stuck_right)
      rwa [hr.push_push] at hrest

/-- Data may be fed as it comes when single bytes lead to a result. -/
lemma Bytewise.feeds (h : r.Bytewise push window s data w s') (hstuck : r.Stuck s) :
    r.Feeds push window s data w s' := by
  induction hlen : data.length using Nat.strong_induction_on generalizing s data w with
  | _ len ih =>
      cases h with
      | nil => exact .nil _
      | @cons _ u _ b data v v' hwindow hd hb =>
          obtain ⟨n, hn⟩ := Option.ne_none_iff_exists'.mp hwindow
          have hpos := hr.window_pos s n hn
          have hall : r.Bytewise push window s
              ((b :: data).take n ++ (b :: data).drop n) (v + v') s' := by
            rw [List.take_append_drop]
            exact .cons hwindow hd hb
          -- there is room for the first items, and then for the others
          obtain ⟨x, t, x', htake, hdrop, hsum⟩ := hall.of_append
          have hlt : ((b :: data).drop n).length < len := by
            rw [List.length_drop, ← hlen, List.length_cons]
            omega
          have ht := htake.stuck_right hstuck
          rw [hsum]
          exact .load (List.cons_ne_nil _ _) hn (htake.drains hr hstable hstuck) (ih _ hlt hdrop ht rfl)

/-- **A stream that is read item by item is read in every other way of cutting it.** -/
theorem calls_of_bytewise {chunks : List (List β)} (hne : chunks ≠ []) (hd : r.Drains s w s')
    (h : r.Bytewise push window s' chunks.flatten w' s'') :
    (r.calls chunks).exec s = (.ok (w + w'), s'') := by
  induction chunks generalizing s s' w w' with
  | nil => exact absurd rfl hne
  | cons data rest ih =>
      obtain ⟨v, t, v', hdata, hrest, rfl⟩ := h.of_append
      have hcall := (exec_call hr).mpr ⟨w, s', v, hd, hdata.feeds hr hstable hd.stuck_right, rfl⟩
      have ht := hdata.stuck_right hd.stuck_right
      refine exec_calls_cons.mpr ⟨w + v, t, v', hcall, ?_, by rw [add_assoc]⟩
      by_cases hnil : rest = []
      · subst hnil
        cases hrest
        rfl
      · have htail := ih hnil (.stuck ht) hrest
        rwa [zero_add] at htail

/-! ### Room for the next item -/

/-- Conditions under which there is always room for the next item, as long as what the frames
give is `Good`: `Safe s n` says that `n` more items may arrive at once. -/
structure Roomy (r : FrameReader ε σ ω β) (push : σ → List β → σ) (window : σ → Option ℕ)
    (Good : ω → Prop) (Safe : σ → ℕ → Prop) : Prop where
  good_add : ∀ w w', Good (w + w') → Good w ∧ Good w'
  safe_of_window : ∀ s n k, r.Stuck s → window s = some n → k ≤ n → Safe s k
  window_ne : ∀ s n, r.Stuck s → Safe s (n + 1) → window s ≠ none
  safe_push : ∀ s n b w s', r.Stuck s → Safe s (n + 1) → r.Drains (push s [b]) w s' → Good w →
    Safe s' n

variable {Good : ω → Prop} {Safe : σ → ℕ → Prop} (hroomy : r.Roomy push window Good Safe)

include hroomy

/-- Items that there is room for may as well arrive one by one. -/
lemma bytewise_of_drains (hstuck : r.Stuck s) (hsafe : Safe s data.length)
    (h : r.Drains (push s data) w s') (hgood : Good w) :
    r.Bytewise push window s data w s' := by
  induction data generalizing s w with
  | nil =>
      rw [hr.push_nil] at h
      obtain ⟨rfl, rfl⟩ := h.of_stuck hstuck
      exact .nil _
  | cons b data ih =>
      have hsplit : push s (b :: data) = push (push s [b]) data := (hr.push_push s [b] data).symm
      rw [hsplit] at h
      obtain ⟨v, t, v', hd, hrest, rfl⟩ := h.of_push hr hstable
      obtain ⟨hv, hv'⟩ := hroomy.good_add v v' hgood
      have hsafe' := hroomy.safe_push s data.length b v t hstuck hsafe hd hv
      exact .cons (hroomy.window_ne s _ hstuck hsafe) hd (ih hd.stuck_right hsafe' hrest hv')

lemma Feeds.bytewise (h : r.Feeds push window s data w s') (hstuck : r.Stuck s) (hgood : Good w) :
    r.Bytewise push window s data w s' := by
  induction h with
  | nil => exact .nil _
  | @load s t _ data n v v' _ hwindow hd _ ih =>
      obtain ⟨hv, hv'⟩ := hroomy.good_add v v' hgood
      have hsafe := hroomy.safe_of_window s n (data.take n).length hstuck hwindow
        (List.length_take_le n data)
      have htake := bytewise_of_drains hr hstable hroomy hstuck hsafe hd hv
      have hall := htake.append (ih hd.stuck_right hv')
      rwa [List.take_append_drop] at hall

/-- Calls that end well have taken their bytes as if they came one at a time. -/
lemma bytewise_of_calls {chunks : List (List β)} (h : (r.calls chunks).exec s = (.ok w, s'))
    (hne : chunks ≠ []) (hgood : Good w) :
    ∃ v t v', r.Drains s v t ∧ r.Bytewise push window t chunks.flatten v' s' ∧ w = v + v' := by
  induction chunks generalizing s w with
  | nil => exact absurd rfl hne
  | cons data rest ih =>
      obtain ⟨v, t, v', hcall, hcalls, rfl⟩ := exec_calls_cons.mp h
      obtain ⟨x, u, x', hd, hf, rfl⟩ := (exec_call hr).mp hcall
      obtain ⟨hgood, hgood'⟩ := hroomy.good_add _ _ hgood
      have hdata := hf.bytewise hr hstable hroomy hd.stuck_right (hroomy.good_add _ _ hgood).2
      by_cases hrest : rest = []
      · subst hrest
        cases hcalls
        exact ⟨x, u, x', hd, by rwa [List.flatten_singleton], add_zero _⟩
      · obtain ⟨y, u', y', hd', hb, rfl⟩ := ih hcalls hrest hgood'
        obtain ⟨rfl, rfl⟩ := hd'.of_stuck (hdata.stuck_right hd.stuck_right)
        exact ⟨x, u, x' + y', hd, hdata.append hb, by rw [zero_add, add_assoc]⟩

/-- **A stream that is read in one way of cutting it is read in every other one.** -/
theorem calls_of_calls {chunks chunks' : List (List β)} (hne : chunks ≠ []) (hne' : chunks' ≠ [])
    (hflat : chunks.flatten = chunks'.flatten) (h : (r.calls chunks).exec s = (.ok w, s'))
    (hgood : Good w) : (r.calls chunks').exec s = (.ok w, s') := by
  obtain ⟨v, t, v', hd, hb, rfl⟩ := bytewise_of_calls hr hstable hroomy h hne hgood
  exact calls_of_bytewise hr hstable hne' hd (hflat ▸ hb)

end Cuts

end Chunks

/-! ### Two readers that agree on some states -/

/-- The errors of a computation, among others. -/
def within {τ α : Type} (x : Stateful ε τ α) : Stateful (Option ε) τ α :=
  .ofFn fun s => ((x.exec s).1.mapError some, (x.exec s).2)

/-- The reader that gives up when it is to look for a frame in a state other than those of `P`. -/
def guarded (P : σ → Prop) [DecidablePred P] : FrameReader (Option ε) σ ω β where
  next := do
    let s ← get
    if P s.1 then within r.next else throw none
  load data := within (r.load data)
  weight := r.weight

/-- All states in which a frame is looked for are in `P`. -/
def KeepsTo (P : σ → Prop) [DecidablePred P] (s : σ) (chunks : List (List β)) : Prop :=
  (((r.guarded P).calls chunks).exec s).1 ≠ .error none

/-- The first computation does what the second one does, unless it gives up. -/
def Guards {τ α : Type} (x : Stateful (Option ε) τ α) (y : Stateful ε τ α) : Prop :=
  ∀ s, (∃ t, x.exec s = (.error none, t)) ∨
    x.exec s = ((y.exec s).1.mapError some, (y.exec s).2)

section Guards

variable {τ α α' : Type}

lemma Guards.within (y : Stateful ε τ α) : Guards (within y) y := fun _ => Or.inr rfl

lemma Guards.bind {x : Stateful (Option ε) τ α} {y : Stateful ε τ α}
    {f : α → Stateful (Option ε) τ α'} {g : α → Stateful ε τ α'} (h : Guards x y)
    (hf : ∀ a, Guards (f a) (g a)) : Guards (x >>= f) (y >>= g) := by
  intro s
  rcases h s with ⟨t, ht⟩ | hx
  · exact Or.inl ⟨t, Stateful.exec_bind_error ht⟩
  · rw [Stateful.exec_bind, Stateful.exec_bind, hx]
    rcases y.exec s with ⟨e | a, t⟩
    · exact Or.inr rfl
    · exact hf a t

end Guards

section Agrees

variable {r} {P : σ → Prop} [DecidablePred P]

omit [AddMonoid ω] in
/-- The guarded reader takes the same frames. -/
lemma drainFrames_guards (fuel : ℕ) :
    Guards ((r.guarded P).drainFrames fuel) (r.drainFrames fuel) := by
  induction fuel with
  | zero => exact fun _ => Or.inr rfl
  | succ fuel ih =>
      refine Guards.bind (fun s => ?_) fun more => ?_
      · rw [guarded, Stateful.exec_bind, Stateful.exec_get]
        simp only [Stateful.exec_ite, Stateful.exec_throw]
        split_ifs with hP
        · exact Or.inr rfl
        · exact Or.inl ⟨s, rfl⟩
      · cases more with
        | false => exact fun _ => Or.inr rfl
        | true => exact ih

omit [AddMonoid ω] in
lemma drain_guards : Guards (r.guarded P).drain r.drain :=
  .bind (fun _ => Or.inr rfl) fun _ => drainFrames_guards _

omit [AddMonoid ω] in
lemma feed_guards (fuel : ℕ) (data : List β) :
    Guards ((r.guarded P).feed fuel data) (r.feed fuel data) := by
  induction fuel generalizing data with
  | zero => exact fun _ => Or.inr rfl
  | succ fuel ih =>
      cases data with
      | nil => exact fun _ => Or.inr rfl
      | cons b data =>
          exact .bind (fun _ => Or.inr rfl) fun rest => .bind drain_guards fun _ => ih rest

lemma call_guards (data : List β) : Guards ((r.guarded P).call data) (r.call data) := by
  intro s
  have hreceive : Guards ((r.guarded P).receive data) (r.receive data) :=
    .bind drain_guards fun _ => feed_guards _ data
  rw [call, Stateful.exec_ofFn, call, Stateful.exec_ofFn]
  rcases hreceive (s, 0) with ⟨t, ht⟩ | hexec
  · exact Or.inl ⟨t.1, by rw [ht]; rfl⟩
  · rw [hexec]
    rcases (r.receive data).exec (s, 0) with ⟨e | a, t⟩
    · exact Or.inr rfl
    · exact Or.inr rfl

lemma calls_guards (chunks : List (List β)) :
    Guards ((r.guarded P).calls chunks) (r.calls chunks) := by
  induction chunks with
  | nil => exact fun _ => Or.inr rfl
  | cons data rest ih =>
      exact .bind (call_guards data) fun w => .bind ih fun w' => fun _ => Or.inr rfl

/-- The second reader looks for frames as the first one does, in the states of `P`. -/
structure Agrees (r r' : FrameReader ε σ ω β) (P : σ → Prop) : Prop where
  next_eq : ∀ s w, P s → r.next.exec (s, w) = r'.next.exec (s, w)
  load_eq : r.load = r'.load
  weight_eq : r.weight = r'.weight

variable {r' : FrameReader ε σ ω β} (hagree : r.Agrees r' P)

include hagree

omit [AddMonoid ω] in
/-- Readers that agree on good states are equal when they are guarded. -/
lemma Agrees.guarded_eq : r.guarded P = r'.guarded P := by
  have hnext : (r.guarded P).next = (r'.guarded P).next := by
    funext s
    show Stateful.exec (r.guarded P).next s = Stateful.exec (r'.guarded P).next s
    rw [guarded, guarded, Stateful.exec_bind, Stateful.exec_bind]
    simp only [Stateful.exec_get, Stateful.exec_ite, Stateful.exec_throw]
    split_ifs with hP
    · rw [within, within, Stateful.exec_ofFn, Stateful.exec_ofFn, hagree.next_eq s.1 s.2 hP]
    · rfl
  have hload : (r.guarded P).load = (r'.guarded P).load := by
    rw [guarded, guarded, hagree.load_eq]
  have hweight : (r.guarded P).weight = (r'.guarded P).weight := hagree.weight_eq
  exact (mk.injEq ..).mpr ⟨hnext, hload, hweight⟩

/-- **A run in the states where two readers agree is the same for both.** -/
theorem Agrees.calls_eq {s : σ} {chunks : List (List β)} (h : r.KeepsTo P s chunks) :
    (r.calls chunks).exec s = (r'.calls chunks).exec s := by
  rcases calls_guards (r := r) (P := P) chunks s with ⟨t, ht⟩ | hleft
  · rw [KeepsTo, ht] at h
    exact absurd rfl h
  · rcases calls_guards (r := r') (P := P) chunks s with ⟨t, ht⟩ | hright
    · rw [KeepsTo, hagree.guarded_eq, ht] at h
      exact absurd rfl h
    · rw [hagree.guarded_eq, hright] at hleft
      generalize (r.calls chunks).exec s = u at hleft ⊢
      generalize (r'.calls chunks).exec s = v at hleft ⊢
      obtain ⟨_ | _, t⟩ := u <;> obtain ⟨_ | _, t'⟩ := v <;> cases hleft <;> rfl

variable {push : σ → List β → σ} {window : σ → Option ℕ} {s s' s'' : σ} {w w' : ω}
  {data : List β}

/-- Every state that a stream leads to, item by item, is in `P`. -/
def Leads (r : FrameReader ε σ ω β) (push : σ → List β → σ) (window : σ → Option ℕ) (P : σ → Prop)
    (s : σ) (data : List β) : Prop :=
  ∀ begun left, data = begun ++ left → ∀ w t, r.Bytewise push window s begun w t → P t

omit [DecidablePred P] hagree in
lemma Leads.append {begun left : List β} (h : r'.Leads push window P s (begun ++ left))
    (hb : r'.Bytewise push window s begun w s') : r'.Leads push window P s' left :=
  fun begun' left' heq v t hv =>
    h (begun ++ begun') left' (by rw [heq, List.append_assoc]) (w + v) t (hb.append hv)

omit [DecidablePred P] in
lemma Agrees.drains (hmoving : ∀ s, ¬ r'.Stuck s → P s) (h : r'.Drains s w s') (hP : P s') :
    r.Drains s w s' := by
  induction h with
  | stuck h =>
      refine .stuck ?_
      rw [Stuck, hagree.next_eq _ _ hP]
      exact h
  | step h _ ih =>
      refine .step ?_ (ih hP)
      rw [Step, hagree.next_eq _ _ (hmoving _ h.not_stuck)]
      exact h

omit [DecidablePred P] in
/-- **Two readers that agree up to where one of them is stuck drain the same.** -/
theorem Agrees.drains_iff (Inv : σ → Prop) (hstep : ∀ s w s', Inv s → r'.Step s w s' → Inv s')
    (hmoving : ∀ s, Inv s → ¬ r'.Stuck s → P s) (hs : Inv s)
    (hP : ∀ w t, r'.Drains s w t → P t) : r.Drains s w s' ↔ r'.Drains s w s' := by
  have hstuck : ∀ {s}, P s → (r.Stuck s ↔ r'.Stuck s) := by
    intro s h
    rw [Stuck, Stuck, hagree.next_eq s 0 h]
  constructor
  · intro h
    induction h with
    | @stuck s h =>
        refine .stuck ?_
        by_contra hmore
        exact hmore ((hstuck (hmoving s hs hmore)).mp h)
    | @step s t _ v _ h _ ih =>
        have hPs : P s := by
          by_cases hmore : r'.Stuck s
          · exact hP 0 s (.stuck hmore)
          · exact hmoving s hs hmore
        have h' : r'.Step s v t := by
          rw [Step, ← hagree.next_eq s 0 hPs]
          exact h
        exact .step h' (ih (hstep s _ t hs h') fun w u hu => hP _ u (.step h' hu))
  · intro h
    induction h with
    | @stuck s h => exact .stuck ((hstuck (hP 0 s (.stuck h))).mpr h)
    | @step s t _ _ _ h _ ih =>
        refine .step ?_ (ih (hstep s _ t hs h) fun w u hu => hP _ u (.step h hu))
        rw [Step, hagree.next_eq s 0 (hmoving s hs h.not_stuck)]
        exact h

variable (hr' : r'.Lawful push window) (hstable : r'.Stable push)
  (hmoving : ∀ s, ¬ r'.Stuck s → P s)

include hr' hstable hmoving

omit [DecidablePred P] in
/-- A reader that agrees along the way feeds the data in the same way. -/
lemma Agrees.feeds (h : r'.Feeds push window s data w s') (hstuck : r'.Stuck s)
    (hb : r'.Bytewise push window s data w' s'') (hP : r'.Leads push window P s data) :
    r.Feeds push window s data w s' := by
  induction h generalizing w' s'' with
  | nil => exact .nil _
  | @load s t _ data n _ _ hdata hwindow hd hf ih =>
      have hsplit := hb
      rw [← List.take_append_drop n data] at hsplit hP
      obtain ⟨v, u, v', htake, hdrop, -⟩ := hsplit.of_append
      obtain ⟨rfl, rfl⟩ := hd.unique (htake.drains hr' hstable hstuck)
      have hrest := ih hd.stuck_right hdrop (hP.append htake)
      exact .load hdata hwindow (hagree.drains hmoving hd (hP _ _ rfl _ _ htake)) hrest

omit [DecidablePred P] in
/-- **A stream that is read item by item, in states where two readers agree, is read by the other
reader in every way of cutting it.** -/
theorem Agrees.calls_of_bytewise (hr : r.Lawful push window) {chunks : List (List β)}
    (hne : chunks ≠ []) (hd : r'.Drains s w s')
    (h : r'.Bytewise push window s' chunks.flatten w' s'')
    (hP : r'.Leads push window P s' chunks.flatten) :
    (r.calls chunks).exec s = (.ok (w + w'), s'') := by
  induction chunks generalizing s s' w w' with
  | nil => exact absurd rfl hne
  | cons data rest ih =>
      have hstuck := hd.stuck_right
      obtain ⟨v, t, v', hdata, hrest, rfl⟩ := h.of_append
      have hfeeds := hagree.feeds hr' hstable hmoving (hdata.feeds hr' hstable hstuck) hstuck hdata
        fun begun left heq => hP begun (left ++ rest.flatten) (by
          rw [List.flatten_cons, heq, List.append_assoc])
      have hs' : P s' := hP [] _ rfl 0 s' (.nil s')
      have hcall := (exec_call hr).mpr ⟨w, s', v, hagree.drains hmoving hd hs', hfeeds, rfl⟩
      have ht := hdata.stuck_right hstuck
      refine exec_calls_cons.mpr ⟨w + v, t, v', hcall, ?_, by rw [add_assoc]⟩
      by_cases hnil : rest = []
      · subst hnil
        cases hrest
        rfl
      · have htail := ih hnil (.stuck ht) hrest (hP.append hdata)
        rwa [zero_add] at htail

end Agrees

end FrameReader
