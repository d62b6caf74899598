import RustyTinc.Library.FrameStream

/-!
A stream of pieces whose extent is known, read from chunks that are cut at any place.

* `Pieces.calls`: the stream is read when every piece fits, and when no chunk ends in a piece at a
  place where the reader does not wait for the rest of it;
* `Pieces.of_calls`: it is not read otherwise.
-/

namespace FrameReader

/-- What a stream is made of: the items of a piece, the pieces that there is room for, and the
parts of a piece after which a reader waits for the rest. -/
structure Format (β π : Type) where
  items : π → List β
  Fits : π → Prop
  Waits : π → List β → Prop

namespace Format

variable {β π : Type} (f : Format β π)

/-- The items of some pieces, one piece after the other. -/
def flat (xs : List π) : List β := xs.flatMap f.items

/-- A part of the first piece, but not all of it. -/
def Begins (a : List β) : List π → Prop
  | [] => a = []
  | x :: _ => ∃ b, f.items x = a ++ b ∧ b ≠ []

/-- No chunk ends in a piece at a place where the reader does not wait for the rest of it; the
first items have arrived before. -/
def EndsWell (a : List β) (xs : List π) (chunks : List (List β)) : Prop :=
  ∀ done later, chunks = done ++ later → ∀ ys x zs b c, xs = ys ++ x :: zs →
    f.items x = b ++ c → c ≠ [] → a ++ done.flatten = f.flat ys ++ b → f.Waits x b

variable {f} {a b c data : List β} {x : π} {xs ys zs : List π} {rest : List (List β)}

@[simp] lemma flat_nil : f.flat [] = [] := rfl

@[simp] lemma flat_cons : f.flat (x :: xs) = f.items x ++ f.flat xs := List.flatMap_cons

@[simp] lemma flat_append : f.flat (xs ++ ys) = f.flat xs ++ f.flat ys := List.flatMap_append

/-- A place within a piece is not before the pieces that come earlier. -/
lemma split_of_le {done left : List π} (hlen : (f.flat done).length ≤ (f.flat ys ++ b).length)
    (hsplit : done ++ left = ys ++ x :: zs) (hx : f.items x = b ++ c) (hc : c ≠ []) :
    ∃ ys', ys = done ++ ys' ∧ left = ys' ++ x :: zs := by
  rcases List.append_eq_append_iff.mp hsplit with ⟨ys', rfl, rfl⟩ | ⟨zs', rfl, hzs⟩
  · exact ⟨ys', rfl, rfl⟩
  · cases zs' with
    | nil => exact ⟨[], by simp, by simpa using hzs.symm⟩
    | cons y zs' =>
        -- the pieces before would include the piece itself
        obtain ⟨rfl, -⟩ := List.cons.inj hzs
        have hpos := List.length_pos_iff.mpr hc
        simp only [flat_append, flat_cons, List.length_append, hx] at hlen
        omega

lemma EndsWell.tail {done left : List π} {a' : List β}
    (h : f.EndsWell a (done ++ left) (data :: rest)) (heq : a ++ data = f.flat done ++ a') :
    f.EndsWell a' left rest := by
  rintro chunks later rfl ys y zs b c rfl hy hc hplace
  refine h (data :: chunks) later rfl (done ++ ys) y zs b c (by simp) hy hc ?_
  rw [List.flatten_cons, ← List.append_assoc, heq, List.append_assoc, hplace, flat_append,
    List.append_assoc]

lemma EndsWell.head (h : f.EndsWell a xs (data :: rest)) (hxs : xs = ys ++ x :: zs)
    (hx : f.items x = b ++ c) (hc : c ≠ []) (hplace : a ++ data = f.flat ys ++ b) : f.Waits x b :=
  h [data] rest rfl ys x zs b c hxs hx hc (by rwa [List.flatten_singleton])

/-- All that has arrived is a part of the first piece. -/
lemma Begins.waits (h : f.Begins a xs) (hwaits : ∀ x ∈ xs.head?, f.Waits x a)
    (hxs : xs = ys ++ x :: zs) (hx : f.items x = b ++ c) (hplace : a = f.flat ys ++ b) :
    f.Waits x b := by
  cases ys with
  | nil =>
      subst hxs
      obtain rfl : a = b := by simpa using hplace
      exact hwaits x rfl
  | cons y ys =>
      subst hxs
      obtain ⟨b', hy, hb'⟩ := h
      have hlen := congrArg List.length hplace
      have hpos := List.length_pos_iff.mpr hb'
      simp only [flat_cons, hy, List.length_append] at hlen
      omega

end Format

variable {ε σ ω β π : Type} [AddMonoid ω] (r : FrameReader ε σ ω β) (push : σ → List β → σ)
  (window : σ → Option ℕ) (f : Format β π)

/-- A state in which a piece can arrive. -/
structure Expects (s : σ) (x : π) : Prop where
  items_ne : f.items x ≠ []
  waits_nil : f.Waits x []
  /-- There is room for a part of the rest, at the end of which the reader waits. -/
  room : f.Fits x → ∀ a b, f.items x = a ++ b → b ≠ [] → ∃ n, window (push s a) = some n ∧
    n ≤ b.length ∧ (n < b.length → f.Waits x (a ++ b.take n))
  stuck : ∀ a b, f.items x = a ++ b → b ≠ [] → f.Waits x a → r.Stuck (push s a)

/-- A state in which a piece cannot arrive in any other way. -/
structure Insists (s : σ) (x : π) : Prop where
  fits : ∀ a b, f.items x = a ++ b → b ≠ [] → window (push s a) ≠ none → f.Fits x
  waits : ∀ a b, f.items x = a ++ b → b ≠ [] → ∀ w t, r.Drains (push s a) w t → f.Waits x a

/-- A stream of pieces, each of which arrives in a state of the given kind. -/
inductive Pieces (Takes : σ → π → Prop) : σ → List π → ω → σ → Prop where
  | nil {s : σ} (h : r.Stuck s) : Pieces Takes s [] 0 s
  | cons {s s' s'' : σ} {x : π} {xs : List π} {w w' : ω} (hx : Takes s x)
      (hd : r.Drains (push s (f.items x)) w s') (hp : Pieces Takes s' xs w' s'') :
      Pieces Takes s (x :: xs) (w + w') s''

variable {r push window f} {Takes : σ → π → Prop} {s s' t : σ} {xs ys : List π} {w w' v : ω}
  {a data left : List β} {chunks : List (List β)}

lemma Pieces.append (h : r.Pieces push f Takes s xs w s')
    (h' : r.Pieces push f Takes s' ys w' t) : r.Pieces push f Takes s (xs ++ ys) (w + w') t := by
  induction h with
  | nil _ => rwa [zero_add]
  | cons hx hd _ ih =>
      rw [add_assoc]
      exact .cons hx hd (ih h')

/-- A stream without items has no pieces. -/
lemma Pieces.of_flat (h : r.Pieces push f Takes s xs w t) (hbegins : f.Begins a xs)
    (hflat : a = f.flat xs) : xs = [] := by
  cases h with
  | nil _ => rfl
  | cons hx _ _ =>
      obtain ⟨b, hb, hne⟩ := hbegins
      have hlen := congrArg List.length hflat
      have hpos := List.length_pos_iff.mpr hne
      simp only [Format.flat_cons, hb, List.length_append] at hlen
      omega

omit [AddMonoid ω] in
/-- The items that are taken next are the rest of a piece, or a part of it. -/
lemma take_of_room {n : ℕ} {b rest : List β} (hle : n ≤ b.length)
    (hflat : a ++ (data ++ left) = (a ++ b) ++ rest) :
    ∃ c, b = data.take n ++ c ∧ data.drop n ++ left = c ++ rest := by
  have hflat' : data ++ left = b ++ rest := by
    rw [List.append_assoc] at hflat
    exact List.append_cancel_left hflat
  have htake : data.take n <+: b := by
    have hdata : data.take n <+: data ++ left :=
      (List.take_prefix n data).trans (List.prefix_append data left)
    refine List.prefix_of_prefix_length_le hdata ?_ ((List.length_take_le n data).trans hle)
    rw [hflat']
    exact List.prefix_append b rest
  obtain ⟨c, rfl⟩ := htake
  refine ⟨c, rfl, ?_⟩
  rw [← List.append_right_inj (data.take n), ← List.append_assoc, List.take_append_drop, hflat',
    List.append_assoc]

variable (hr : r.Lawful push window)
  (hexpects : ∀ s x, Takes s x → r.Expects push window f s x)

include hexpects

lemma Pieces.begins (h : r.Pieces push f Takes s xs w t) : f.Begins [] xs := by
  cases h with
  | nil _ => rfl
  | cons hx _ _ => exact ⟨_, rfl, (hexpects _ _ hx).items_ne⟩

include hr

/-- One chunk of a stream of pieces that fit. -/
lemma Pieces.feeds (hp : r.Pieces push f Takes s xs w t) (hfits : ∀ x ∈ xs, f.Fits x)
    (hbegins : f.Begins a xs) (hflat : a ++ (data ++ left) = f.flat xs)
    (hend : ∀ ys x zs b c, xs = ys ++ x :: zs → f.items x = b ++ c → c ≠ [] →
      a ++ data = f.flat ys ++ b → f.Waits x b) :
    ∃ v u ys a' xs' w', r.Feeds push window (push s a) data v (push u a') ∧
      r.Pieces push f Takes u xs' w' t ∧ f.Begins a' xs' ∧ xs = ys ++ xs' ∧
        a ++ data = f.flat ys ++ a' ∧ w = v + w' := by
  induction hlen : data.length using Nat.strong_induction_on generalizing s xs w a data with
  | _ len ih =>
      by_cases hdata : data = []
      · subst hdata
        exact ⟨0, s, [], a, xs, w, .nil _, hp, hbegins, rfl, by simp, (zero_add w).symm⟩
      cases hp with
      | nil _ =>
          have hnil : a ++ (data ++ left) = [] := hflat
          simp [hdata] at hnil
      | @cons _ s' _ x xs w w' hx hd hp =>
          obtain ⟨b, hb, hbne⟩ := hbegins
          have hx' := hexpects s x hx
          obtain ⟨n, hn, hle, hwaits⟩ := hx'.room (hfits x List.mem_cons_self) a b hb hbne
          have hpos := hr.window_pos _ n hn
          have hroom : a ++ (data ++ left) = (a ++ b) ++ f.flat xs := by
            rw [hflat, Format.flat_cons, hb]
          obtain ⟨c, hbc, hrest⟩ := take_of_room hle hroom
          have hsplit : data.take n ++ data.drop n = data := List.take_append_drop n data
          have hshort : (data.drop n).length < len := by
            have := List.length_pos_iff.mpr hdata
            rw [List.length_drop, ← hlen]
            omega
          by_cases hc : c = []
          · -- the rest of the piece has arrived, and others follow
            subst hc
            rw [List.append_nil] at hbc
            have hd' : r.Drains (push (push s a) (data.take n)) w s' := by
              rwa [hr.push_push, ← hbc, ← hb]
            have hdata' : a ++ data = f.items x ++ data.drop n := by
              rw [hb, hbc, List.append_assoc, hsplit]
            obtain ⟨v, u, ys, a', xs', v', hf, hp', hbegins', rfl, hplace, rfl⟩ :=
              ih _ hshort hp (fun y hy => hfits y (List.mem_cons_of_mem x hy)) (hp.begins hexpects)
                hrest (fun ys y zs b' c' hys hy hc' hplace => by
                  refine hend (x :: ys) y zs b' c' (by rw [hys, List.cons_append]) hy hc' ?_
                  rw [hdata', Format.flat_cons, List.append_assoc, ← hplace, List.nil_append])
                rfl
            rw [hr.push_nil] at hf
            refine ⟨w + v, u, x :: ys, a', xs', v', .load hdata hn hd' hf, hp', hbegins', rfl, ?_,
              (add_assoc w v v').symm⟩
            rw [hdata', Format.flat_cons, List.append_assoc, ← hplace, List.nil_append]
          · -- a part of the rest has arrived, after which the reader waits
            have hitems : f.items x = (a ++ data.take n) ++ c := by
              rw [hb, hbc, List.append_assoc]
            have hwait : f.Waits x (a ++ data.take n) := by
              by_cases hmore : n < data.length
              · have htake : b.take n = data.take n := by
                  rw [hbc, List.take_left' (by rw [List.length_take]; omega)]
                rw [← htake]
                refine hwaits ?_
                have := List.length_pos_iff.mpr hc
                rw [hbc, List.length_append, List.length_take]
                omega
              · rw [List.take_of_length_le (not_lt.mp hmore)] at hitems ⊢
                exact hend [] x xs (a ++ data) c rfl hitems hc rfl
            have hstuck := hx'.stuck _ c hitems hc hwait
            have hd' : r.Drains (push (push s a) (data.take n)) 0 (push s (a ++ data.take n)) := by
              rw [hr.push_push]
              exact .stuck hstuck
            obtain ⟨v, u, ys, a', xs', v', hf, hp', hbegins', hxs, hplace, hw⟩ :=
              @ih _ hshort s (x :: xs) (w + w') (a ++ data.take n) (data.drop n) (.cons hx hd hp)
                hfits ⟨c, hitems, hc⟩
                (by rw [hrest, Format.flat_cons, hitems, List.append_assoc _ c])
                (fun ys y zs b' c' hys hy hc' hplace => hend ys y zs b' c' hys hy hc'
                  (by rwa [List.append_assoc, hsplit] at hplace)) rfl
            rw [List.append_assoc, hsplit] at hplace
            exact ⟨0 + v, u, ys, a', xs', v', .load hdata hn hd' hf, hp', hbegins', hxs, hplace,
              by rw [zero_add, hw]⟩

/-- **A stream of pieces is read** when every piece fits and the chunks end well. -/
theorem Pieces.calls (hp : r.Pieces push f Takes s xs w t) (hfits : ∀ x ∈ xs, f.Fits x)
    (hbegins : f.Begins a xs) (hstuck : r.Stuck (push s a)) (hflat : a ++ chunks.flatten = f.flat xs)
    (hend : f.EndsWell a xs chunks) : (r.calls chunks).exec (push s a) = (.ok w, t) := by
  induction chunks generalizing s xs w a with
  | nil =>
      rw [List.flatten_nil, List.append_nil] at hflat
      obtain rfl := hp.of_flat hbegins hflat
      obtain rfl : a = [] := hbegins
      cases hp
      rw [hr.push_nil]
      rfl
  | cons data rest ih =>
      rw [List.flatten_cons] at hflat
      obtain ⟨v, u, ys, a', xs', v', hf, hp', hbegins', rfl, hplace, rfl⟩ :=
        hp.feeds hr hexpects hfits hbegins hflat fun ys x zs b c hys hx hc hplace =>
          hend.head hys hx hc hplace
      have hcall : (r.call data).exec (push s a) = (.ok (0 + v), push u a') :=
        (exec_call hr).mpr ⟨0, push s a, v, .stuck hstuck, hf, rfl⟩
      refine exec_calls_cons.mpr ⟨0 + v, push u a', v', hcall, ?_, by rw [zero_add]⟩
      refine ih hp' (fun x hx => hfits x (List.mem_append_right ys hx)) hbegins'
        (hf.stuck_right hstuck) ?_ (hend.tail hplace)
      have hall : f.flat ys ++ (a' ++ rest.flatten) = f.flat ys ++ f.flat xs' := by
        rw [← List.append_assoc, ← hplace, ← Format.flat_append, ← hflat, List.append_assoc]
      exact List.append_cancel_left hall

/-- One chunk that is received well. -/
lemma Pieces.of_feeds (hinsists : ∀ s, ∀ x ∈ xs, Takes s x → r.Insists push window f s x)
    (hp : r.Pieces push f Takes s xs w t) (hbegins : f.Begins a xs)
    (hflat : a ++ (data ++ left) = f.flat xs) (hwaits : ∀ x ∈ xs.head?, f.Waits x a)
    (hf : r.Feeds push window (push s a) data v s') :
    ∃ u ys a' xs' w', s' = push u a' ∧ r.Pieces push f Takes u xs' w' t ∧ f.Begins a' xs' ∧
      xs = ys ++ xs' ∧ a ++ data = f.flat ys ++ a' ∧ (∀ y ∈ ys, f.Fits y) ∧
        ∀ x ∈ xs'.head?, f.Waits x a' := by
  induction hlen : data.length using Nat.strong_induction_on generalizing s xs w v a data with
  | _ len ih =>
      by_cases hdata : data = []
      · subst hdata
        obtain ⟨-, rfl⟩ := hf.of_nil
        exact ⟨s, [], a, xs, w, rfl, hp, hbegins, rfl, by simp, by simp, hwaits⟩
      cases hp with
      | nil _ =>
          have hnil : a ++ (data ++ left) = [] := hflat
          simp [hdata] at hnil
      | @cons _ s₁ _ x xs w w' hx hd hp =>
          obtain ⟨b, hb, hbne⟩ := hbegins
          have hx' := hexpects s x hx
          cases hf with
          | nil => exact absurd rfl hdata
          | @load _ s₂ _ _ n v v' _ hn hd₂ hf =>
          have hfits : f.Fits x :=
            (hinsists s x List.mem_cons_self hx).fits a b hb hbne (by rw [hn]; simp)
          have htail : ∀ s, ∀ y ∈ xs, Takes s y → r.Insists push window f s y :=
            fun s y hy => hinsists s y (List.mem_cons_of_mem x hy)
          obtain ⟨m, hm, hle, -⟩ := hx'.room hfits a b hb hbne
          obtain rfl := Option.some.inj (hn.symm.trans hm)
          have hpos := hr.window_pos _ n hn
          have hroom : a ++ (data ++ left) = (a ++ b) ++ f.flat xs := by
            rw [hflat, Format.flat_cons, hb]
          obtain ⟨c, hbc, hrest⟩ := take_of_room hle hroom
          have hsplit : data.take n ++ data.drop n = data := List.take_append_drop n data
          have hshort : (data.drop n).length < len := by
            have := List.length_pos_iff.mpr hdata
            rw [List.length_drop, ← hlen]
            omega
          rw [hr.push_push] at hd₂
          by_cases hc : c = []
          · -- the rest of the piece has arrived
            subst hc
            rw [List.append_nil] at hbc
            rw [← hbc, ← hb] at hd₂
            obtain ⟨-, rfl⟩ := hd.unique hd₂
            rw [← hr.push_nil s₁] at hf
            obtain ⟨u, ys, a', xs', w'', hu, hp', hbegins', rfl, hplace, hys, hwaits'⟩ :=
              ih _ hshort htail hp (hp.begins hexpects) hrest (fun y hy => by
                cases hp with
                | nil _ => cases hy
                | cons hx _ _ =>
                    obtain rfl := Option.some.inj hy
                    exact (hexpects _ _ hx).waits_nil) hf rfl
            refine ⟨u, x :: ys, a', xs', w'', hu, hp', hbegins', rfl, ?_,
              List.forall_mem_cons.mpr ⟨hfits, hys⟩, hwaits'⟩
            rw [Format.flat_cons, List.append_assoc, ← hplace, List.nil_append, hb,
              List.append_assoc, hbc, hsplit]
          · -- a part of the rest has arrived
            have hitems : f.items x = (a ++ data.take n) ++ c := by
              rw [hb, hbc, List.append_assoc]
            have hwait := (hinsists s x List.mem_cons_self hx).waits _ c hitems hc _ _ hd₂
            obtain ⟨-, rfl⟩ := hd₂.of_stuck (hx'.stuck _ c hitems hc hwait)
            obtain ⟨u, ys, a', xs', w'', hu, hp', hbegins', hxs, hplace, hys, hwaits'⟩ :=
              @ih _ hshort s (x :: xs) (w + w') _ (a ++ data.take n) (data.drop n) hinsists
                (.cons hx hd hp) ⟨c, hitems, hc⟩ (by rw [hrest, Format.flat_cons, hitems, List.append_assoc _ c])
                (fun y hy => by obtain rfl := Option.some.inj hy; exact hwait) hf rfl
            rw [List.append_assoc, hsplit] at hplace
            exact ⟨u, ys, a', xs', w'', hu, hp', hbegins', hxs, hplace, hys, hwaits'⟩

/-- **Every piece fits and the chunks end well** when the stream is read. -/
theorem Pieces.of_calls (hinsists : ∀ s, ∀ x ∈ xs, Takes s x → r.Insists push window f s x)
    (hp : r.Pieces push f Takes s xs w t) (hbegins : f.Begins a xs) (hstuck : r.Stuck (push s a))
    (hflat : a ++ chunks.flatten = f.flat xs) (hwaits : ∀ x ∈ xs.head?, f.Waits x a)
    (h : (r.calls chunks).exec (push s a) = (.ok v, s')) :
    (∀ x ∈ xs, f.Fits x) ∧ f.EndsWell a xs chunks := by
  induction chunks generalizing s xs w v a with
  | nil =>
      rw [List.flatten_nil, List.append_nil] at hflat
      obtain rfl := hp.of_flat hbegins hflat
      refine ⟨by simp, ?_⟩
      rintro done later heq ys x zs b c hxs
      simp at hxs
  | cons data rest ih =>
      rw [List.flatten_cons] at hflat
      obtain ⟨v, s₁, v', hcall, hcalls, rfl⟩ := exec_calls_cons.mp h
      obtain ⟨u, s₂, u', hd, hf, rfl⟩ := (exec_call hr).mp hcall
      obtain ⟨rfl, rfl⟩ := hd.of_stuck hstuck
      obtain ⟨u, ys, a', xs', w', rfl, hp', hbegins', rfl, hplace, hys, hwaits'⟩ :=
        hp.of_feeds hr hexpects hinsists hbegins hflat hwaits hf
      have hflat' : a' ++ rest.flatten = f.flat xs' := by
        have hall : f.flat ys ++ (a' ++ rest.flatten) = f.flat ys ++ f.flat xs' := by
          rw [← List.append_assoc, ← hplace, ← Format.flat_append, ← hflat, List.append_assoc]
        exact List.append_cancel_left hall
      obtain ⟨hfits, hends⟩ := ih (fun s x hx => hinsists s x (List.mem_append_right ys hx)) hp' hbegins'
        (hf.stuck_right hstuck) hflat' hwaits' hcalls
      refine ⟨List.forall_mem_append.mpr ⟨hys, hfits⟩, ?_⟩
      intro done later heq zs x zs' b c hxs hx hc hend
      cases done with
      | nil =>
          rw [List.flatten_nil, List.append_nil] at hend
          exact hbegins.waits hwaits hxs hx hend
      | cons data' done =>
          obtain ⟨rfl, rfl⟩ := List.cons.inj heq
          rw [List.flatten_cons, ← List.append_assoc, hplace] at hend
          have hle : (f.flat ys).length ≤ (f.flat zs ++ b).length := by
            rw [← hend]
            simp only [List.length_append]
            omega
          obtain ⟨ys', rfl, rfl⟩ := Format.split_of_le hle hxs hx hc
          refine hends done later rfl ys' x zs' b c rfl hx hc ?_
          rw [Format.flat_append, List.append_assoc, List.append_assoc] at hend
          exact List.append_cancel_left hend

end FrameReader
