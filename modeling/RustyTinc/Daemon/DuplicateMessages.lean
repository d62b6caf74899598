import RustyTinc.Core.SeenOnce

/-!
How a daemon drops copies of a message that it has handled already.

* `markSeenRuntimeMessage`, `agePastRequestsAt`: the cache of the daemon and the timer that ages
  it;
* `passed_eq_firstSeen`: the messages that a daemon goes on with are those that the calls to its
  cache find new;
* `handled_once`: hence it goes on with each text at most once in a retention period.
-/

namespace RustyTinc

/-- What a daemon keeps about the messages it has seen: the cache, and when to age it next. -/
structure SeenMessages where
  pastRequests : PastRequestCache
  nextPastRequestAge : Option ℕ

/-- What may happen to it. The clock gives the seconds and the instant; `timer` is when the
daemon would want to be woken next. -/
inductive SeenEvent (M : Type) where
  | message (message : M) (nowSecs timer : ℕ)
  | poll (now nowSecs timer : ℕ)

/-- The time of an event. -/
def SeenEvent.nowSecs {M : Type} : SeenEvent M → ℕ
  | message _ nowSecs _ => nowSecs
  | poll _ nowSecs _ => nowSecs

namespace SeenMessages

/-- Nothing has been seen. -/
def new (retentionSecs : ℕ) : SeenMessages := ⟨.new retentionSecs, none⟩

/-- Whether a message was seen before; from the first one on the cache is aged at a time that is
set. -/
def markSeenRuntimeMessage (d : SeenMessages) (text : String) (nowSecs timer : ℕ) :
    SeenMessages × Bool :=
  let (pastRequests, seen) := d.pastRequests.markSeen text nowSecs
  let nextPastRequestAge :=
    if !seen && d.nextPastRequestAge.isNone then some timer
    else if pastRequests.entries.keys = [] then none
    else d.nextPastRequestAge
  (⟨pastRequests, nextPastRequestAge⟩, seen)

/-- The cache is aged when the time for it has come. -/
def agePastRequestsAt (d : SeenMessages) (now nowSecs timer : ℕ) : SeenMessages :=
  match d.nextPastRequestAge with
  | none => d
  | some deadline =>
      if now < deadline then d
      else
        let pastRequests := d.pastRequests.age nowSecs
        ⟨pastRequests, if pastRequests.entries.keys = [] then none else some timer⟩

section Run

variable {M : Type} (shouldBroadcast : M → Bool) (text : M → String)

/-- One event, and the message that the daemon goes on with, if any. -/
def step (d : SeenMessages) : SeenEvent M → SeenMessages × Option M
  | .message message nowSecs timer =>
      if shouldBroadcast message then
        let (d, seen) := d.markSeenRuntimeMessage (text message) nowSecs timer
        (d, if seen then none else some message)
      else (d, some message)
  | .poll now nowSecs timer => (d.agePastRequestsAt now nowSecs timer, none)

/-- The messages to broadcast that the daemon goes on with, and when. -/
def passed : SeenMessages → List (SeenEvent M) → List (M × ℕ)
  | _, [] => []
  | d, e :: events =>
      (((d.step shouldBroadcast text e).2.filter shouldBroadcast).map (·, e.nowSecs)).toList ++
        (d.step shouldBroadcast text e).1.passed events

/-- The calls to the cache that an event leads to. -/
def calls (d : SeenMessages) : SeenEvent M → List PastRequestCall
  | .message message nowSecs _ =>
      if shouldBroadcast message then [.markSeen (text message) nowSecs] else []
  | .poll now nowSecs _ =>
      match d.nextPastRequestAge with
      | none => []
      | some deadline => if now < deadline then [] else [.age nowSecs]

/-- The calls to the cache in a run. -/
def history : SeenMessages → List (SeenEvent M) → List PastRequestCall
  | _, [] => []
  | d, e :: events =>
      d.calls shouldBroadcast text e ++ (d.step shouldBroadcast text e).1.history events

variable {shouldBroadcast text}

/-- **The cache sees each event as the calls that it leads to**, and what they find new is what
the daemon goes on with. -/
lemma step_spec (d : SeenMessages) (e : SeenEvent M) :
    (d.step shouldBroadcast text e).1.pastRequests =
        d.pastRequests.run (d.calls shouldBroadcast text e) ∧
      (((d.step shouldBroadcast text e).2.filter shouldBroadcast).map
          fun m => (text m, e.nowSecs)).toList =
        d.pastRequests.firstSeen (d.calls shouldBroadcast text e) ∧
      ∀ x ∈ d.calls shouldBroadcast text e, x.nowSecs = e.nowSecs := by
  cases e with
  | message message nowSecs timer =>
      rw [step, calls]
      by_cases hbroadcast : shouldBroadcast message = true
      · rw [if_pos hbroadcast, if_pos hbroadcast]
        refine ⟨rfl, ?_, fun x hx => by rw [List.mem_singleton.mp hx]; rfl⟩
        simp only [markSeenRuntimeMessage, PastRequestCache.firstSeen, PastRequestCache.fresh]
        by_cases hseen : (d.pastRequests.markSeen (text message) nowSecs).2 = true
        · simp [hseen]
        · simp [hseen, hbroadcast, SeenEvent.nowSecs]
      · rw [if_neg hbroadcast, if_neg hbroadcast]
        exact ⟨rfl, by simp [Option.filter, hbroadcast, PastRequestCache.firstSeen],
          fun x hx => absurd hx List.not_mem_nil⟩
  | poll now nowSecs timer =>
      rw [step, calls, agePastRequestsAt]
      cases d.nextPastRequestAge with
      | none => exact ⟨rfl, rfl, fun x hx => absurd hx List.not_mem_nil⟩
      | some deadline =>
          by_cases hwait : now < deadline
          · simp only [hwait, if_true]
            exact ⟨rfl, rfl, fun x hx => absurd hx List.not_mem_nil⟩
          · simp only [hwait, if_false]
            exact ⟨rfl, rfl, fun x hx => by rw [List.mem_singleton.mp hx]; rfl⟩

variable {events : List (SeenEvent M)}

/-- **The daemon goes on with what the calls to its cache find new.** -/
lemma passed_eq_firstSeen (d : SeenMessages) (events : List (SeenEvent M)) :
    (d.passed shouldBroadcast text events).map (fun p => (text p.1, p.2)) =
      d.pastRequests.firstSeen (d.history shouldBroadcast text events) := by
  induction events generalizing d with
  | nil => rfl
  | cons e events ih =>
      obtain ⟨hcache, hpassed, -⟩ := @step_spec M shouldBroadcast text d e
      rw [passed, history, PastRequestCache.firstSeen_append, List.map_append, ih, hcache, ← hpassed]
      congr 1
      cases (d.step shouldBroadcast text e).2.filter shouldBroadcast <;> rfl

/-- The cache is called at the times of the events. -/
lemma history_mono (d : SeenMessages) (h : (events.map SeenEvent.nowSecs).Pairwise (· ≤ ·)) :
    (∀ x ∈ d.history shouldBroadcast text events, x.nowSecs ∈ events.map SeenEvent.nowSecs) ∧
      ((d.history shouldBroadcast text events).map PastRequestCall.nowSecs).Pairwise
        (· ≤ ·) := by
  induction events generalizing d with
  | nil => exact ⟨fun x hx => absurd hx List.not_mem_nil, List.Pairwise.nil⟩
  | cons e events ih =>
      obtain ⟨hfirst, hrest⟩ := List.pairwise_cons.mp h
      obtain ⟨-, -, htime⟩ := @step_spec M shouldBroadcast text d e
      obtain ⟨hmem, hmono⟩ := ih (d.step shouldBroadcast text e).1 hrest
      rw [history, List.map_append, List.map_cons]
      constructor
      · intro x hx
        rcases List.mem_append.mp hx with hx | hx
        · exact List.mem_cons.mpr (Or.inl (htime x hx))
        · exact List.mem_cons_of_mem _ (hmem x hx)
      · refine List.pairwise_append.mpr ⟨?_, hmono, ?_⟩
        · refine List.pairwise_map.mpr (List.pairwise_of_forall_mem_list fun x hx y hy => ?_)
          rw [htime x hx, htime y hy]
        · intro t ht t' ht'
          obtain ⟨x, hx, rfl⟩ := List.mem_map.mp ht
          obtain ⟨y, hy, rfl⟩ := List.mem_map.mp ht'
          rw [htime x hx]
          exact hfirst _ (hmem y hy)

lemma spaced_passed (retentionSecs : ℕ)
    (h : (events.map SeenEvent.nowSecs).Pairwise (· ≤ ·)) :
    ((new retentionSecs).passed shouldBroadcast text events).Pairwise fun a b =>
      text a.1 = text b.1 → 2 ^ 64 - 1 ≤ b.2 ∨ a.2 + retentionSecs ≤ b.2 := by
  have hmono := (@history_mono M shouldBroadcast text events (new retentionSecs) h).2
  have hspaced := @PastRequestCache.spaced_firstSeen retentionSecs _ hmono
  have hpassed := @passed_eq_firstSeen M shouldBroadcast text (new retentionSecs) events
  rw [show PastRequestCache.new retentionSecs = (new retentionSecs).pastRequests from rfl,
    ← hpassed] at hspaced
  exact List.pairwise_map.mp hspaced

end Run

end SeenMessages

open PastRequestCache in
/-- **A message counts as new exactly when no copy that counted as new is less than a retention
period old.** So a daemon goes on with copies of one text only a retention period apart, and what
has run out is forgotten with the next call. At the last second of a 64-bit clock, where the sum
saturates, everything counts as new. -/
theorem new_iff_no_recent_copy :
    (∀ (retentionSecs : ℕ) (calls : List PastRequestCall) (request : String) (nowSecs : ℕ),
      (calls.map PastRequestCall.nowSecs ++ [nowSecs]).Pairwise (· ≤ ·) →
      ((((new retentionSecs).run calls).markSeen request nowSecs).2 = false ↔
        2 ^ 64 - 1 ≤ nowSecs ∨ ∀ before t after, calls = before ++ .markSeen request t :: after →
          (((new retentionSecs).run before).markSeen request t).2 = false →
            t + retentionSecs ≤ nowSecs)) ∧
    (∀ (M : Type) (shouldBroadcast : M → Bool) (text : M → String) (retentionSecs : ℕ)
        (events : List (SeenEvent M)), (events.map SeenEvent.nowSecs).Pairwise (· ≤ ·) →
      ((SeenMessages.new retentionSecs).passed shouldBroadcast text events).Pairwise fun a b =>
        text a.1 = text b.1 → 2 ^ 64 - 1 ≤ b.2 ∨ a.2 + retentionSecs ≤ b.2) ∧
    (∀ (retentionSecs : ℕ) (calls : List PastRequestCall) (x : PastRequestCall)
        (request : String), (calls.map PastRequestCall.nowSecs ++ [x.nowSecs]).Pairwise (· ≤ ·) →
      (∀ t, x ≠ .markSeen request t) →
      (∀ before t after, calls = before ++ .markSeen request t :: after →
        (((new retentionSecs).run before).markSeen request t).2 = false →
          t + retentionSecs ≤ x.nowSecs) →
      request ∉ (((new retentionSecs).run calls).call x).entries.keys) := by
  refine ⟨fun _ _ request _ hmono => markSeen_run_eq_false request hmono,
    fun _ _ _ retentionSecs _ hmono => SeenMessages.spaced_passed retentionSecs hmono,
    fun retentionSecs calls x request hmono hx hout => notMem_keys_of_runOut hmono hx ?_⟩
  intro t ht
  obtain ⟨before, after, hcalls, hfalse⟩ := mem_firstSeen.mp ht
  exact hout before t after hcalls hfalse

open PastRequestCache in
/-- Three copies of a message: the second is dropped, and the third comes late enough to pass. -/
theorem new_iff_no_recent_copy_three_copies :
    ((((new 60).run [.markSeen "x" 0, .age 30]).markSeen "x" 59).2 = false ↔
      2 ^ 64 - 1 ≤ 59 ∨ ∀ before t after,
        [PastRequestCall.markSeen "x" 0, .age 30] = before ++ .markSeen "x" t :: after →
          (((new 60).run before).markSeen "x" t).2 = false → t + 60 ≤ 59) ∧
    ((SeenMessages.new 60).passed (fun _ => true) id
        [.message "x" 0 10, .message "x" 59 70, .poll 80 75 90, .message "x" 75 90]).Pairwise
      (fun a b => a.1 = b.1 → 2 ^ 64 - 1 ≤ b.2 ∨ a.2 + 60 ≤ b.2) ∧
    "x" ∉ (((new 60).run [.markSeen "x" 0]).call (.age 60)).entries.keys := by
  obtain ⟨hnew, hpassed, hforgotten⟩ := new_iff_no_recent_copy
  refine ⟨hnew 60 [.markSeen "x" 0, .age 30] "x" 59 (by decide),
    hpassed String (fun _ => true) id 60 _ (by decide),
    hforgotten 60 [.markSeen "x" 0] (.age 60) "x" (by decide) (fun t h => by cases h) ?_⟩
  intro before t after hcalls _
  have hmem : PastRequestCall.markSeen "x" t ∈ [PastRequestCall.markSeen "x" 0] := by
    rw [hcalls]
    exact List.mem_append_right _ List.mem_cons_self
  obtain ⟨-, rfl⟩ := PastRequestCall.markSeen.inj (List.mem_singleton.mp hmem)
  exact le_rfl

open PastRequestCache in
/-- At the last second of the clock a request is new although it has just been found new. -/
theorem new_at_last_second :
    ¬ ∀ (retentionSecs : ℕ) (calls : List PastRequestCall) (request : String) (nowSecs : ℕ),
      retentionSecs < 2 ^ 64 → nowSecs < 2 ^ 64 →
      (calls.map PastRequestCall.nowSecs ++ [nowSecs]).Pairwise (· ≤ ·) →
      ((((new retentionSecs).run calls).markSeen request nowSecs).2 = false ↔
        ∀ before t after, calls = before ++ .markSeen request t :: after →
          (((new retentionSecs).run before).markSeen request t).2 = false →
            t + retentionSecs ≤ nowSecs) := by
  intro h
  have hfirst : ((new 1).markSeen "x" (2 ^ 64 - 1)).2 = false := rfl
  have hsecond := (@markSeen_run_eq_false 1 (2 ^ 64 - 1) [.markSeen "x" (2 ^ 64 - 1)] "x"
    (by decide)).mpr (Or.inl le_rfl)
  have hclaim := (h 1 [.markSeen "x" (2 ^ 64 - 1)] "x" (2 ^ 64 - 1) (by decide) (by decide)
    (by decide)).mp hsecond [] (2 ^ 64 - 1) [] rfl hfirst
  omega

end RustyTinc
