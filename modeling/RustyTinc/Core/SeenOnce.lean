import RustyTinc.Core.PastRequests

/-!
The cache of the requests seen, over a whole history of calls.

* `Remembers`: after the call at `now` the cache holds the requests of the history that have not
  run out, each of them under the time of its first copy;
* `markSeen_eq_false_iff`: a request counts as new exactly when no copy that counted as new is
  less than a retention period old;
* `spaced_firstSeen`: hence copies that count as new are a retention period apart.
-/

namespace RustyTinc

/-- A call that changes the cache. -/
inductive PastRequestCall where
  | markSeen (request : String) (nowSecs : ℕ)
  | age (nowSecs : ℕ)

/-- The time of a call. -/
def PastRequestCall.nowSecs : PastRequestCall → ℕ
  | markSeen _ nowSecs => nowSecs
  | age nowSecs => nowSecs

namespace PastRequestCache

/-- The cache after a call. -/
def call (c : PastRequestCache) : PastRequestCall → PastRequestCache
  | .markSeen request nowSecs => (c.markSeen request nowSecs).1
  | .age nowSecs => c.age nowSecs

/-- The cache after some calls. -/
def run (c : PastRequestCache) (calls : List PastRequestCall) : PastRequestCache :=
  calls.foldl call c

/-- The request that a call finds new, with the time of the call. -/
def fresh (c : PastRequestCache) : PastRequestCall → List (String × ℕ)
  | .markSeen request nowSecs =>
      if (c.markSeen request nowSecs).2 then [] else [(request, nowSecs)]
  | .age _ => []

/-- The requests that are found new, in order. -/
def firstSeen : PastRequestCache → List PastRequestCall → List (String × ℕ)
  | _, [] => []
  | c, x :: calls => c.fresh x ++ (c.call x).firstSeen calls

/-! ### Calls -/

@[simp] lemma run_nil (c : PastRequestCache) : c.run [] = c := rfl

@[simp] lemma run_cons (c : PastRequestCache) (x : PastRequestCall)
    (calls : List PastRequestCall) : c.run (x :: calls) = (c.call x).run calls := rfl

@[simp] lemma retentionSecs_age (c : PastRequestCache) (nowSecs : ℕ) :
    (c.age nowSecs).retentionSecs = c.retentionSecs := rfl

@[simp] lemma retentionSecs_call (c : PastRequestCache) (x : PastRequestCall) :
    (c.call x).retentionSecs = c.retentionSecs := by
  cases x with
  | markSeen request nowSecs =>
      rw [call, markSeen]
      split_ifs <;> rfl
  | age nowSecs => rfl

@[simp] lemma retentionSecs_run (c : PastRequestCache) (calls : List PastRequestCall) :
    (c.run calls).retentionSecs = c.retentionSecs := by
  induction calls generalizing c with
  | nil => rfl
  | cons x calls ih => rw [run_cons, ih, retentionSecs_call]

lemma firstSeen_append (c : PastRequestCache) (calls calls' : List PastRequestCall) :
    c.firstSeen (calls ++ calls') = c.firstSeen calls ++ (c.run calls).firstSeen calls' := by
  induction calls generalizing c with
  | nil => rfl
  | cons x calls ih => rw [List.cons_append, firstSeen, ih, firstSeen, List.append_assoc, run_cons]

/-- A call brings an entry when the request was not in the cache. -/
lemma mem_fresh {c : PastRequestCache} {x : PastRequestCall} {request : String} {t : ℕ} :
    (request, t) ∈ c.fresh x ↔ x = .markSeen request t ∧ (c.markSeen request t).2 = false := by
  cases x with
  | markSeen r nowSecs =>
      rw [fresh]
      split_ifs with hseen
      · refine iff_of_false List.not_mem_nil ?_
        rintro ⟨heq, hfalse⟩
        obtain ⟨rfl, rfl⟩ := PastRequestCall.markSeen.inj heq
        exact absurd (hseen.symm.trans hfalse) (by decide)
      · rw [List.mem_singleton, Prod.mk.injEq, PastRequestCall.markSeen.injEq]
        constructor
        · rintro ⟨rfl, rfl⟩
          exact ⟨⟨rfl, rfl⟩, Bool.eq_false_of_not_eq_true hseen⟩
        · rintro ⟨⟨rfl, rfl⟩, -⟩
          exact ⟨rfl, rfl⟩
  | age nowSecs => exact iff_of_false List.not_mem_nil fun h => PastRequestCall.noConfusion h.1

/-- A request is found new by one of the calls, in the state that the earlier ones left. -/
lemma mem_firstSeen {c : PastRequestCache} {calls : List PastRequestCall} {request : String}
    {t : ℕ} : (request, t) ∈ c.firstSeen calls ↔
      ∃ before after, calls = before ++ .markSeen request t :: after ∧
        ((c.run before).markSeen request t).2 = false := by
  induction calls generalizing c with
  | nil => simp [firstSeen]
  | cons x calls ih =>
      rw [firstSeen, List.mem_append, mem_fresh, ih]
      constructor
      · rintro (⟨rfl, hfalse⟩ | ⟨before, after, rfl, hfalse⟩)
        · exact ⟨[], calls, rfl, hfalse⟩
        · exact ⟨x :: before, after, rfl, hfalse⟩
      · rintro ⟨before, after, heq, hfalse⟩
        cases before with
        | nil =>
            obtain ⟨rfl, rfl⟩ := List.cons.inj heq
            exact Or.inl ⟨rfl, hfalse⟩
        | cons y before =>
            obtain ⟨rfl, rfl⟩ := List.cons.inj heq
            exact Or.inr ⟨before, after, rfl, hfalse⟩

/-! ### What the cache remembers -/

/-- A request that was found new at `t` still counts at `nowSecs`. -/
def Live (c : PastRequestCache) (t nowSecs : ℕ) : Prop :=
  nowSecs < saturatingAdd64 t c.retentionSecs

/-- **What the cache remembers** of the requests that were found new up to `now`. -/
structure Remembers (c : PastRequestCache) (now : ℕ) (history : List (String × ℕ)) : Prop where
  le_now : ∀ e ∈ history, e.2 ≤ now
  mem_history : ∀ request t, c.entries.get? request = some t → (request, t) ∈ history
  get?_eq : ∀ request t, (request, t) ∈ history → c.Live t now → c.entries.get? request = some t
  spaced : history.Pairwise fun a b => a.1 = b.1 → ¬ c.Live a.2 b.2

namespace Remembers

variable {c : PastRequestCache} {now nowSecs : ℕ} {history : List (String × ℕ)}

lemma new (retentionSecs : ℕ) : (PastRequestCache.new retentionSecs).Remembers 0 [] where
  le_now := by simp
  mem_history request t h := by cases h
  get?_eq := by simp
  spaced := List.Pairwise.nil

/-- After ageing, the entries are the requests of the history that have not run out. -/
lemma get?_age (h : c.Remembers now history) (hle : now ≤ nowSecs) (request : String) (t : ℕ) :
    (c.age nowSecs).entries.get? request = some t ↔
      (request, t) ∈ history ∧ c.Live t nowSecs := by
  have hage : (c.age nowSecs).entries.get? request = some t ↔
      c.entries.get? request = some t ∧ c.Live t nowSecs := by
    rw [PastRequestCache.age, OrdMap.get?_retain, Option.filter_eq_some_iff, decide_eq_true_iff]
    rfl
  rw [hage]
  refine and_congr_left fun hlive => ⟨h.mem_history request t, fun hmem => ?_⟩
  exact h.get?_eq request t hmem (lt_of_le_of_lt hle hlive)

lemma age (h : c.Remembers now history) (hle : now ≤ nowSecs) :
    (c.age nowSecs).Remembers nowSecs history where
  le_now e he := (h.le_now e he).trans hle
  mem_history request t hget := ((h.get?_age hle request t).mp hget).1
  get?_eq request t hmem hlive := (h.get?_age hle request t).mpr ⟨hmem, hlive⟩
  spaced := h.spaced

/-- **A request is found new exactly when no copy of it that was found new still counts.** -/
lemma markSeen_eq_false (h : c.Remembers now history) (hle : now ≤ nowSecs) (request : String) :
    (c.markSeen request nowSecs).2 = false ↔
      ∀ t, (request, t) ∈ history → ¬ c.Live t nowSecs := by
  have hcontains : (c.age nowSecs).entries.contains request = true ↔
      ∃ t, (request, t) ∈ history ∧ c.Live t nowSecs := by
    rw [OrdMap.contains_eq_true, OrdMap.mem_keys]
    exact exists_congr fun t => h.get?_age hle request t
  rw [PastRequestCache.markSeen]
  split_ifs with hseen
  · obtain ⟨t, hmem, hlive⟩ := hcontains.mp hseen
    exact iff_of_false id fun hnone => hnone t hmem hlive
  · refine iff_of_true rfl fun t hmem hlive => hseen (hcontains.mpr ⟨t, hmem, hlive⟩)

/-- What one call keeps. -/
lemma call (h : c.Remembers now history) (x : PastRequestCall) (hle : now ≤ x.nowSecs) :
    (c.call x).Remembers x.nowSecs (history ++ c.fresh x) := by
  cases x with
  | age nowSecs =>
      rw [fresh, List.append_nil]
      exact h.age hle
  | markSeen request nowSecs =>
      have hage := h.age hle
      by_cases hseen : (c.markSeen request nowSecs).2 = false
      · have hnone := (h.markSeen_eq_false hle request).mp hseen
        have hnew : ¬ (c.age nowSecs).entries.contains request = true := by
          intro hmem
          rw [PastRequestCache.markSeen, if_pos hmem] at hseen
          cases hseen
        have hcall : c.call (.markSeen request nowSecs) =
            { c.age nowSecs with
              entries := (c.age nowSecs).entries.insert request nowSecs } := by
          rw [PastRequestCache.call, PastRequestCache.markSeen, if_neg hnew]
        rw [hcall, fresh, hseen, if_neg Bool.false_ne_true]
        refine ⟨?_, ?_, ?_, ?_⟩
        · intro e he
          rcases List.mem_append.mp he with he | he
          · exact hage.le_now e he
          · rw [List.mem_singleton.mp he]
            exact le_rfl
        · intro r t hget
          rw [List.mem_append]
          rw [OrdMap.get?_insert] at hget
          split_ifs at hget with hr
          · obtain rfl := Option.some.inj hget
            exact Or.inr (List.mem_singleton.mpr (by rw [hr]))
          · exact Or.inl (hage.mem_history r t hget)
        · intro r t hmem hlive
          rw [OrdMap.get?_insert]
          split_ifs with hr
          · -- An older copy of the request would still have counted.
            rcases List.mem_append.mp hmem with hmem | hmem
            · exact absurd hlive (hnone t (hr ▸ hmem))
            · rw [(Prod.mk.inj (List.mem_singleton.mp hmem)).2]
          · rcases List.mem_append.mp hmem with hmem | hmem
            · exact hage.get?_eq r t hmem hlive
            · exact absurd (Prod.mk.inj (List.mem_singleton.mp hmem)).1 hr
        · refine List.pairwise_append.mpr ⟨h.spaced, List.pairwise_singleton _ _, ?_⟩
          rintro ⟨r, t⟩ ha b hb heq
          rw [List.mem_singleton.mp hb] at heq ⊢
          obtain rfl : r = request := heq
          exact hnone t ha
      · have htrue : (c.markSeen request nowSecs).2 = true := Bool.eq_true_of_not_eq_false hseen
        have hold : (c.age nowSecs).entries.contains request = true := by
          by_contra hmem
          rw [PastRequestCache.markSeen, if_neg hmem] at htrue
          cases htrue
        have hcall : c.call (.markSeen request nowSecs) = c.age nowSecs := by
          rw [PastRequestCache.call, PastRequestCache.markSeen, if_pos hold]
        rw [hcall, fresh, if_pos htrue, List.append_nil]
        exact hage

/-- What a run keeps, when time does not go back. -/
lemma run (h : c.Remembers now history) {calls : List PastRequestCall}
    (hmono : (now :: calls.map PastRequestCall.nowSecs).Pairwise (· ≤ ·)) {last : ℕ}
    (hlast : ∀ t ∈ now :: calls.map PastRequestCall.nowSecs, t ≤ last) :
    ∃ now' ≤ last, (c.run calls).Remembers now' (history ++ c.firstSeen calls) := by
  induction calls generalizing c now history with
  | nil =>
      rw [firstSeen, List.append_nil]
      exact ⟨now, hlast now List.mem_cons_self, h⟩
  | cons x calls ih =>
      obtain ⟨hfirst, hmono⟩ := List.pairwise_cons.mp hmono
      have hx := h.call x (hfirst _ List.mem_cons_self)
      rw [firstSeen, ← List.append_assoc]
      exact ih hx hmono fun t ht => hlast t (List.mem_cons_of_mem _ ht)

end Remembers

/-! ### Whole histories -/

lemma not_live_iff {c : PastRequestCache} {t nowSecs : ℕ} : ¬ c.Live t nowSecs ↔
    2 ^ 64 - 1 ≤ nowSecs ∨ t + c.retentionSecs ≤ nowSecs := by
  rw [Live, saturatingAdd64]
  omega

variable {retentionSecs nowSecs : ℕ} {calls : List PastRequestCall}

/-- A cache that was empty at first remembers what it has found new. -/
lemma remembers_run
    (hmono : (calls.map PastRequestCall.nowSecs ++ [nowSecs]).Pairwise (· ≤ ·)) :
    ∃ now ≤ nowSecs, ((new retentionSecs).run calls).Remembers now
      ((new retentionSecs).firstSeen calls) := by
  obtain ⟨hcalls, -, hlast⟩ := List.pairwise_append.mp hmono
  refine (Remembers.new retentionSecs).run ?_ ?_
  · exact List.pairwise_cons.mpr ⟨fun t _ => Nat.zero_le t, hcalls⟩
  · exact List.forall_mem_cons.mpr
      ⟨Nat.zero_le _, fun t ht => hlast t ht nowSecs (List.mem_singleton_self _)⟩

/-- A request counts as new exactly when no copy of it that counted as new is less than a
retention period old; at the last second that a clock can show, everything counts as new. -/
lemma markSeen_run_eq_false (request : String)
    (hmono : (calls.map PastRequestCall.nowSecs ++ [nowSecs]).Pairwise (· ≤ ·)) :
    (((new retentionSecs).run calls).markSeen request nowSecs).2 = false ↔
      2 ^ 64 - 1 ≤ nowSecs ∨ ∀ before t after, calls = before ++ .markSeen request t :: after →
        (((new retentionSecs).run before).markSeen request t).2 = false →
          t + retentionSecs ≤ nowSecs := by
  obtain ⟨now, hle, hrun⟩ := remembers_run hmono
  rw [hrun.markSeen_eq_false hle request]
  simp only [not_live_iff, retentionSecs_run, mem_firstSeen]
  constructor
  · intro h
    refine or_iff_not_imp_left.mpr fun hnow before t after hcalls hfalse => ?_
    exact (h t ⟨before, after, hcalls, hfalse⟩).resolve_left hnow
  · rintro (hnow | h) t ⟨before, after, hcalls, hfalse⟩
    · exact Or.inl hnow
    · exact Or.inr (h before t after hcalls hfalse)

/-- Copies that count as new are a retention period apart. -/
lemma spaced_firstSeen (hmono : (calls.map PastRequestCall.nowSecs).Pairwise (· ≤ ·)) :
    ((new retentionSecs).firstSeen calls).Pairwise fun a b =>
      a.1 = b.1 → 2 ^ 64 - 1 ≤ b.2 ∨ a.2 + retentionSecs ≤ b.2 := by
  have hend : ∀ t ∈ calls.map PastRequestCall.nowSecs,
      t ≤ (calls.map PastRequestCall.nowSecs).sum := fun t ht => List.le_sum_of_mem ht
  obtain ⟨now, -, hrun⟩ := @remembers_run retentionSecs _ calls
    (List.pairwise_append.mpr ⟨hmono, List.pairwise_singleton _ _, fun t ht b hb =>
      (hend t ht).trans (List.mem_singleton.mp hb).ge⟩)
  refine hrun.spaced.imp fun hab heq => ?_
  have := not_live_iff.mp (hab heq)
  rwa [retentionSecs_run] at this

/-- What has run out is forgotten with the next call. -/
lemma notMem_keys_of_runOut {x : PastRequestCall} {request : String}
    (hmono : (calls.map PastRequestCall.nowSecs ++ [x.nowSecs]).Pairwise (· ≤ ·))
    (hx : ∀ t, x ≠ .markSeen request t)
    (hout : ∀ t, (request, t) ∈ (new retentionSecs).firstSeen calls →
      t + retentionSecs ≤ x.nowSecs) :
    request ∉ (((new retentionSecs).run calls).call x).entries.keys := by
  obtain ⟨now, hle, hrun⟩ := remembers_run hmono
  intro hmem
  obtain ⟨t, ht⟩ := OrdMap.mem_keys.mp hmem
  have hage : (((new retentionSecs).run calls).age x.nowSecs).entries.get? request = some t := by
    cases x with
    | age nowSecs => exact ht
    | markSeen r nowSecs =>
        rw [call, markSeen] at ht
        split_ifs at ht
        · exact ht
        · rw [OrdMap.get?_insert] at ht
          split_ifs at ht with hr
          · exact absurd (congrArg (PastRequestCall.markSeen · nowSecs) hr.symm) (hx nowSecs)
          · exact ht
  obtain ⟨hhist, hlive⟩ := (hrun.get?_age hle request t).mp hage
  refine not_live_iff.mpr (Or.inr ?_) hlive
  rw [retentionSecs_run]
  exact hout t hhist

end PastRequestCache

end RustyTinc
