import KernelRuntime.Queue.Conservation

/-! # How often a message is tried

A message carries the number of its failures with it. While no consumer is cancelled, this number, the
dead letters and the set of completed messages agree with what the handlers did. -/

namespace KernelRuntime.LocalBroker
set_option autoImplicit false

/-- A handler is called for a message, and it returns or raises. -/
inductive Attempt where
  | invoked
  | returned
  | raised
deriving DecidableEq

def handledBy (b : LocalDurableBroker) (k : ℕ) : Option StreamMessage :=
  match b.consumers[k]? with
  | none => none
  | some c =>
    match c.activity with
    | .handling message => some message
    | _ => none

/-- The message that the consumer calls its handler for, when it takes the next one. -/
def nextFor (b : LocalDurableBroker) (k : ℕ) : Option StreamMessage :=
  match b.consumers[k]? with
  | none => none
  | some c =>
    match c.activity, b.streams.lookup c.stream with
    | .waiting, some (message :: _) => if message.id ∈ b.completed then none else some message
    | _, _ => none

/-- What a step means for a handler. -/
def attempt (b : LocalDurableBroker) : Label → Option (Attempt × ℕ)
  | .take k => (nextFor b k).map fun m => (.invoked, m.id)
  | .succeed k => (handledBy b k).map fun m => (.returned, m.id)
  | .fail k _ => (handledBy b k).map fun m => (.raised, m.id)
  | _ => none

/-- The label cancels no consumer. -/
def Uncancelled : Label → Prop
  | .cancel _ => False
  | _ => True

instance (i : Label) : Decidable (Uncancelled i) := by
  cases i <;> unfold Uncancelled <;> infer_instance

/-! ## Messages in play -/

/-- The message is in a queue, or a handler works on it. -/
def InPlay (b : LocalDurableBroker) (m : StreamMessage) : Prop :=
  (∃ stream queue, b.streams.lookup stream = some queue ∧ m ∈ queue) ∨
    ∃ c ∈ b.consumers, c.activity = .handling m

section Play
variable {b : LocalDurableBroker} {m m' : StreamMessage}

theorem inPlay_enqueue {stream : String} (h : InPlay (enqueue stream m b) m') : InPlay b m' ∨ m' = m := by
  obtain ⟨s, queue, hqueue, hm⟩ | hhandling := h
  · unfold enqueue at hqueue
    cases hold : b.streams.lookup stream with
    | none =>
      rw [hold] at hqueue
      exact Or.inl (Or.inl ⟨s, queue, hqueue, hm⟩)
    | some old =>
      rw [hold] at hqueue
      simp only at hqueue
      rw [lookup_assocSet] at hqueue
      split_ifs at hqueue with hs
      · obtain rfl := Option.some.inj hqueue
        rcases List.mem_append.mp hm with hm | hm
        · exact Or.inl (Or.inl ⟨stream, old, hold, hm⟩)
        · exact Or.inr (List.mem_singleton.mp hm)
      · exact Or.inl (Or.inl ⟨s, queue, hqueue, hm⟩)
  · exact Or.inl (Or.inr hhandling)

theorem inPlay_setConsumer {k : ℕ} {c : Consumer} (h : InPlay (setConsumer k c b) m) :
    InPlay b m ∨ c.activity = .handling m := by
  obtain hqueue | ⟨d, hd, hm⟩ := h
  · exact Or.inl (Or.inl hqueue)
  · rcases List.mem_or_eq_of_mem_set hd with hd | rfl
    · exact Or.inl (Or.inr ⟨d, hd, hm⟩)
    · exact Or.inr hm

theorem inPlay_tail {b' : LocalDurableBroker} (h : InPlay b' m') {stream : String} {queue : List StreamMessage}
    (hqueue : b.streams.lookup stream = some (m :: queue))
    (hstreams : b'.streams = assocSet stream queue b.streams) (hconsumers : b'.consumers = b.consumers) :
    InPlay b m' := by
  obtain ⟨s, messages, hmessages, hm⟩ | ⟨c, hc, hm⟩ := h
  · rw [hstreams, lookup_assocSet] at hmessages
    split_ifs at hmessages with hs
    · obtain rfl := Option.some.inj hmessages
      exact Or.inl ⟨stream, _, hqueue, List.mem_cons_of_mem _ hm⟩
    · exact Or.inl ⟨s, messages, hmessages, hm⟩
  · rw [hconsumers] at hc
    exact Or.inr ⟨c, hc, hm⟩

/-- What is in play has a place among the queues and the consumers. -/
theorem placed_of_inPlay (h : InPlay b m) : 0 < queued b m.id + handled b m.id := by
  obtain ⟨stream, queue, hqueue, hm⟩ | ⟨c, hc, hm⟩ := h
  · have hcount := countAll_assocSet (hasId m.id) hqueue []
    have hpos : 0 < queue.countP (hasId m.id) := List.countP_pos_iff.mpr ⟨m, hm, by simp [hasId]⟩
    rw [List.countP_nil] at hcount
    unfold queued
    omega
  · have hpos : 0 < handled b m.id := by
      refine List.countP_pos_iff.mpr ⟨c, hc, ?_⟩
      rw [handles_handling m.id hm]
      exact decide_eq_true rfl
    omega

end Play

/-! ## The account -/

/-- How often the handlers did this with the message. -/
def times (a : Attempt) (id : ℕ) (history : List (Attempt × ℕ)) : ℕ := history.count (a, id)

/-- The broker agrees with what the handlers did. -/
structure Accounted (history : List (Attempt × ℕ)) (b : LocalDurableBroker) : Prop where
  invoked : ∀ id, times .invoked id history =
    times .returned id history + times .raised id history + handled b id
  returned : ∀ id, times .returned id history = done b id
  limit : ∀ id, times .raised id history ≤ 3
  raised : ∀ id, dead b id = if times .raised id history = 3 then 1 else 0
  attempts : ∀ m, InPlay b m → m.attemptCount = times .raised m.id history
  fresh : ∀ id, b.counter < id → times .raised id history = 0

theorem times_append (a a' : Attempt) (id id' : ℕ) (history : List (Attempt × ℕ)) :
    times a id (history ++ [(a', id')]) = times a id history + if a' = a ∧ id' = id then 1 else 0 := by
  unfold times
  rw [List.count_append, List.count_singleton]
  simp [Prod.ext_iff]

section Account
variable {b b' : LocalDurableBroker} {history : List (Attempt × ℕ)} {k : ℕ} {c : Consumer} {m : StreamMessage}

/-- A step that calls no handler and ends none. -/
theorem Accounted.quiet (h : Accounted history b) (hhandled : ∀ id, handled b' id = handled b id)
    (hdone : ∀ id, done b' id = done b id) (hdead : ∀ id, dead b' id = dead b id)
    (hcounter : b.counter ≤ b'.counter)
    (hplay : ∀ m, InPlay b' m → InPlay b m ∨ (b.counter < m.id ∧ m.attemptCount = 0)) :
    Accounted history b' where
  invoked id := by rw [hhandled, h.invoked id]
  returned id := by rw [hdone, h.returned id]
  limit := h.limit
  raised id := by rw [hdead, h.raised id]
  attempts m hm := by
    obtain hold | ⟨hnew, hzero⟩ := hplay m hm
    · exact h.attempts m hold
    · rw [hzero, h.fresh m.id hnew]
  fresh id hid := h.fresh id (Nat.lt_of_le_of_lt hcounter hid)

theorem accounted_publish (h : Accounted history b) (p : Publication) : Accounted history (publish p b) := by
  refine h.quiet (fun _ => rfl) (fun _ => rfl) (fun _ => rfl) (Nat.le_succ _) fun m hm => ?_
  obtain hold | rfl := inPlay_enqueue (b := b) (m := newMessage p b) hm
  · exact Or.inl hold
  · exact Or.inr ⟨Nat.lt_succ_self _, rfl⟩

theorem accounted_subscribe (h : Accounted history b) (stream group : String) :
    Accounted history (subscribe stream group b) := by
  refine h.quiet (fun id => (subscribe_counts stream group id).2.1) (fun _ => rfl) (fun _ => rfl) (Nat.le_refl _) ?_
  intro m hm
  refine Or.inl ?_
  obtain ⟨s, queue, hqueue, hm⟩ | ⟨c, hc, hm⟩ := hm
  · unfold subscribe at hqueue
    simp only at hqueue
    split_ifs at hqueue with hknown
    · exact Or.inl ⟨s, queue, hqueue, hm⟩
    · rw [lookup_assocSet] at hqueue
      split_ifs at hqueue with hs
      · obtain rfl := Option.some.inj hqueue
        cases hm
      · exact Or.inl ⟨s, queue, hqueue, hm⟩
  · rcases List.mem_append.mp hc with hc | hc
    · exact Or.inr ⟨c, hc, hm⟩
    · rw [List.mem_singleton.mp hc] at hm
      cases hm

theorem accounted_take (ht : Tracked b) (h : Accounted history b) (htake : take k b = some b') :
    Accounted (history ++ (attempt b (.take k)).toList) b' := by
  obtain ⟨c, m, queue, hc, hwaiting, hqueue, hb'⟩ := take_spec ht htake
  have hcounts := take_counts hc hwaiting hqueue hb'
  have hattempt : attempt b (.take k) = some (.invoked, m.id) := by
    show (nextFor b k).map _ = _
    unfold nextFor
    rw [hc]
    simp only
    rw [hwaiting, hqueue]
    simp only
    rw [if_neg (not_completed_of_first ht hqueue)]
    rfl
  rw [hattempt]
  show Accounted (history ++ [_]) b'
  have hraised : ∀ id, times .raised id (history ++ [(.invoked, m.id)]) = times .raised id history := by
    intro id
    rw [times_append, if_neg (by simp)]
    rfl
  refine ⟨fun id => ?_, fun id => ?_, fun id => ?_, fun id => ?_, fun m' hm' => ?_, fun id hid => ?_⟩
  · rw [times_append, times_append, times_append, (hcounts id).2.1, h.invoked id]
    simp only [true_and, reduceCtorEq, false_and, if_false]
    omega
  · rw [times_append, if_neg (by simp), h.returned id, hb']
    rfl
  · rw [hraised]
    exact h.limit id
  · rw [hraised, ← h.raised id, hb']
    rfl
  · rw [hraised]
    rw [hb'] at hm'
    obtain hplay | hnow := inPlay_setConsumer hm'
    · exact h.attempts m' (inPlay_tail hplay hqueue rfl rfl)
    · cases hnow
      exact h.attempts m (Or.inl ⟨c.stream, _, hqueue, List.mem_cons_self⟩)
  · rw [hraised]
    rw [hb'] at hid
    exact h.fresh id hid

theorem handledBy_of (hc : b.consumers[k]? = some c) (hm : c.activity = .handling m) : handledBy b k = some m := by
  unfold handledBy
  rw [hc]
  simp only
  rw [hm]

theorem accounted_complete (ht : Tracked b) (h : Accounted history b) (hc : b.consumers[k]? = some c)
    (hm : c.activity = .handling m) : Accounted (history ++ [(.returned, m.id)]) (complete k c m b) := by
  have hcounts := complete_counts ht hc hm
  have heq := complete_eq ht hc hm
  have hraised : ∀ id, times .raised id (history ++ [(.returned, m.id)]) = times .raised id history := by
    intro id
    rw [times_append, if_neg (by simp)]
    rfl
  refine ⟨fun id => ?_, fun id => ?_, fun id => ?_, fun id => ?_, fun m' hm' => ?_, fun id hid => ?_⟩
  · have hhandled := (hcounts id).2.1
    rw [times_append, times_append, times_append, h.invoked id]
    simp only [true_and, reduceCtorEq, false_and, if_false]
    omega
  · rw [times_append, h.returned id, heq]
    simp only [true_and]
    exact (count_addId id (not_completed_of_handled ht hc hm)).symm
  · rw [hraised]
    exact h.limit id
  · rw [hraised, ← h.raised id, heq]
    rfl
  · rw [hraised]
    rw [heq] at hm'
    obtain hplay | hnow := inPlay_setConsumer hm'
    · exact h.attempts m' hplay
    · cases hnow
  · rw [hraised]
    rw [heq] at hid
    exact h.fresh id hid

/-- When its handler is left, a message that is not in play yet is in play nowhere. -/
theorem not_inPlay_released (ht : Tracked b) (hc : b.consumers[k]? = some c) (hm : c.activity = .handling m)
    {m' : StreamMessage} (h : InPlay (setConsumer k { c with activity := .waiting } b) m') : m'.id ≠ m.id := by
  intro hid
  have hplaced := placed_of_inPlay h
  have hreleased : handled (setConsumer k { c with activity := .waiting } b) m'.id + (if m.id = m'.id then 1 else 0) =
      handled b m'.id := handled_released hc hm m'.id (handles_waiting m'.id rfl) rfl
  have hqueued : queued (setConsumer k { c with activity := .waiting } b) m'.id = queued b m'.id := rfl
  have hunique := ht.unique m'.id
  rw [if_pos hid.symm] at hreleased
  unfold places at hunique
  omega

theorem dead_retry (k : ℕ) (c : Consumer) (m : StreamMessage) (error : String) (b : LocalDurableBroker) (id : ℕ) :
    dead (retry k c m error b) id = dead b id + if m.id = id ∧ 3 ≤ m.attemptCount + 1 then 1 else 0 := by
  by_cases hlimit : 3 ≤ m.attemptCount + 1
  · rw [retry_given_up hlimit]
    simp only [hlimit, and_true]
    exact countP_hasId id _ b.dlq
  · rw [retry_again hlimit, if_neg (fun hboth => hlimit hboth.2)]
    rfl

theorem done_retry (k : ℕ) (c : Consumer) (m : StreamMessage) (error : String) (b : LocalDurableBroker) (id : ℕ) :
    done (retry k c m error b) id = done b id := by
  by_cases hlimit : 3 ≤ m.attemptCount + 1
  · rw [retry_given_up hlimit]
    rfl
  · rw [retry_again hlimit]
    rfl

theorem inPlay_retry {error : String} {m' : StreamMessage} (h : InPlay (retry k c m error b) m') :
    InPlay (setConsumer k { c with activity := .waiting } b) m' ∨
      m' = { m with attemptCount := m.attemptCount + 1 } := by
  by_cases hlimit : 3 ≤ m.attemptCount + 1
  · rw [retry_given_up hlimit] at h
    exact Or.inl h
  · rw [retry_again hlimit] at h
    exact inPlay_enqueue h

theorem accounted_retry (ht : Tracked b) (h : Accounted history b) (hc : b.consumers[k]? = some c)
    (hm : c.activity = .handling m) (error : String) :
    Accounted (history ++ [(.raised, m.id)]) (retry k c m error b) := by
  have hcounts := retry_counts ht hc hm error
  have hplaces := ht.unique m.id
  have hhandled := handled_pos hc hm
  have hattempts : m.attemptCount = times .raised m.id history :=
    h.attempts m (Or.inr ⟨c, List.mem_of_getElem? hc, hm⟩)
  have hbefore := h.raised m.id
  have hlimit := h.limit m.id
  have hthree : times .raised m.id history ≠ 3 := by
    intro heq
    rw [if_pos heq] at hbefore
    unfold places at hplaces
    omega
  have hraised : ∀ id, times .raised id (history ++ [(.raised, m.id)]) =
      times .raised id history + if m.id = id then 1 else 0 := by
    intro id
    rw [times_append]
    simp
  refine ⟨fun id => ?_, fun id => ?_, fun id => ?_, fun id => ?_, fun m' hm' => ?_, fun id hid => ?_⟩
  · have hcount := (hcounts id).2.1
    rw [times_append, times_append, times_append, h.invoked id]
    simp only [true_and, reduceCtorEq, false_and, if_false]
    omega
  · rw [times_append, if_neg (by simp), h.returned id, done_retry]
    rfl
  · have hold := h.limit id
    rw [hraised]
    split_ifs with hid
    · subst hid
      omega
    · omega
  · rw [hraised, dead_retry, h.raised id]
    by_cases hid : m.id = id
    · subst hid
      simp only [true_and, if_true, hattempts]
      split_ifs <;> omega
    · simp [hid]
  · rw [hraised]
    obtain hplay | rfl := inPlay_retry hm'
    · rw [if_neg (Ne.symm (not_inPlay_released ht hc hm hplay))]
      obtain hold | hnow := inPlay_setConsumer hplay
      · exact h.attempts m' hold
      · cases hnow
    · rw [if_pos rfl, ← hattempts]
  · rw [(retry_kept k c m error b).2.2.1] at hid
    have hknown : m.id ≤ b.counter := by
      by_contra hlt
      have hzero := ht.bounded m.id (by omega)
      unfold places at hzero
      omega
    rw [hraised, h.fresh id hid, if_neg (by omega)]

theorem accounted_step (ht : Tracked b) (h : Accounted history b) {i : Label} (hok : Uncancelled i)
    (hstep : step b i = some b') : Accounted (history ++ (attempt b i).toList) b' := by
  have hnone : attempt b i = none → history ++ (attempt b i).toList = history := by
    intro hnothing
    rw [hnothing]
    exact List.append_nil history
  cases i with
  | publish p =>
    obtain rfl := Option.some.inj hstep
    rw [hnone rfl]
    exact accounted_publish h p
  | subscribe stream group =>
    obtain rfl := Option.some.inj hstep
    rw [hnone rfl]
    exact accounted_subscribe h stream group
  | take k => exact accounted_take ht h hstep
  | succeed k =>
    obtain ⟨c, m, hc, hm, rfl⟩ := whileHandling_spec hstep
    rw [attempt, handledBy_of hc hm]
    exact accounted_complete ht h hc hm
  | fail k error =>
    obtain ⟨c, m, hc, hm, rfl⟩ := whileHandling_spec hstep
    rw [attempt, handledBy_of hc hm]
    exact accounted_retry ht h hc hm error
  | cancel k => exact hok.elim
  | subscribeChannel channel =>
    obtain rfl := Option.some.inj hstep
    rw [hnone rfl]
    exact ⟨h.invoked, h.returned, h.limit, h.raised, h.attempts, h.fresh⟩
  | hear k =>
    rw [hnone rfl]
    change hear k b = some b' at hstep
    unfold hear at hstep
    split at hstep
    · obtain rfl := Option.some.inj hstep
      exact ⟨h.invoked, h.returned, h.limit, h.raised, h.attempts, h.fresh⟩
    · cases hstep

theorem start_accounted : Accounted [] start where
  invoked _ := rfl
  returned _ := rfl
  limit _ := Nat.zero_le 3
  raised _ := rfl
  attempts m hm := by
    obtain ⟨_, _, hqueue, _⟩ | ⟨_, hc, _⟩ := hm
    · cases hqueue
    · cases hc
  fresh _ _ := rfl

end Account

/-! ## Runs -/

/-- What the handlers did in a run. -/
def history (is : List Label) : List (Attempt × ℕ) := trace step attempt start is

/-- The message is tried three times at most, ends among the dead letters after three failures and among the
completed after one success, and is never with two handlers. -/
structure TriedAtMostThrice (history : List (Attempt × ℕ)) (b : LocalDurableBroker) (id : ℕ) : Prop where
  limit : times .invoked id history ≤ 3
  dead : (∃ m ∈ b.dlq, m.id = id) ↔ times .raised id history = 3 ∧ times .returned id history = 0
  deadOnce : b.dlq.countP (hasId id) ≤ 1
  completed : id ∈ b.completed ↔ times .returned id history = 1
  apart : ¬ ((∃ m ∈ b.dlq, m.id = id) ∧ id ∈ b.completed)
  exclusive : b.consumers.countP (Consumer.handles id) ≤ 1

theorem tried_of_accounted {b : LocalDurableBroker} {history : List (Attempt × ℕ)} (ht : Tracked b)
    (h : Accounted history b) (id : ℕ) : TriedAtMostThrice history b id := by
  have hinvoked := h.invoked id
  have hreturned := h.returned id
  have hlimit := h.limit id
  have hraised := h.raised id
  have hunique := ht.unique id
  unfold places at hunique
  have hdead : (∃ m ∈ b.dlq, m.id = id) ↔ 0 < dead b id := by
    unfold dead
    rw [List.countP_pos_iff]
    simp [hasId]
  have hdone : id ∈ b.completed ↔ 0 < done b id := List.count_pos_iff.symm
  refine ⟨?_, ?_, ?_, ?_, ?_, ?_⟩
  · split_ifs at hraised <;> omega
  · rw [hdead]
    split_ifs at hraised <;> omega
  · show dead b id ≤ 1
    omega
  · rw [hdone]
    omega
  · rw [hdead, hdone]
    omega
  · show handled b id ≤ 1
    omega

/-- **At every moment of every run without cancellations, for every message.** -/
theorem tried_at_most_thrice {is : List Label} {b : LocalDurableBroker} (hrun : exec step start is = some b)
    (huncancelled : ∀ i ∈ is, Uncancelled i) (id : ℕ) : TriedAtMostThrice (history is) b id := by
  have hstep : ∀ history b i b', Tracked b ∧ Accounted history b → Uncancelled i → step b i = some b' →
      Tracked b' ∧ Accounted (history ++ (attempt b i).toList) b' :=
    fun history b i b' h hok hstep => ⟨tracked_step h.1 hstep, accounted_step h.1 h.2 hok hstep⟩
  have hkept := exec_trace hstep ⟨start_tracked, start_accounted⟩ (guarded_of_forall huncancelled start) hrun
  rw [List.nil_append] at hkept
  exact tried_of_accounted hkept.1 hkept.2 id

/-- Two consumers share a message that always fails. -/
def failingRun : List Label :=
  [.subscribe "execution_queue" "tool-workers", .subscribe "execution_queue" "tool-workers",
    .publish ⟨"execution_queue", .obj [], none, none, "trace"⟩, .take 0, .fail 0 "boom", .take 1, .fail 1 "boom",
    .take 0, .fail 0 "boom"]

theorem tried_at_most_thrice_failing : ∃ b, exec step start failingRun = some b ∧
    TriedAtMostThrice (history failingRun) b 1 ∧ b.dlq.map StreamMessage.id = [1] := by
  obtain ⟨b, hrun⟩ : ∃ b, exec step start failingRun = some b :=
    Option.isSome_iff_exists.mp (by decide +kernel)
  have htried := tried_at_most_thrice hrun (by unfold failingRun; simp [Uncancelled]) 1
  have hdead : (exec step start failingRun).map (fun b => b.dlq.map StreamMessage.id) = some [1] := by
    decide +kernel
  rw [hrun] at hdead
  exact ⟨b, hrun, htried, Option.some.inj hdead⟩

end KernelRuntime.LocalBroker
