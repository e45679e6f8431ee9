import KernelRuntime.Queue.LocalBroker

/-! # No accepted message is lost

Each operation of the broker moves a message between the queues, the consumers, the completed and the
dead letters, and the counts of these four say how. Three operations lose count of a message: a
publication before the first consumer has started, a third failure, which leaves the message pending,
and a cancellation while the handler runs. -/

namespace KernelRuntime.LocalBroker
set_option autoImplicit false

/-! ## The counts -/

section Counts
variable {b : LocalDurableBroker} {k : ℕ} {c : Consumer} {m : StreamMessage} (id : ℕ)

theorem countP_hasId (m : StreamMessage) (l : List StreamMessage) :
    (l ++ [m]).countP (hasId id) = l.countP (hasId id) + if m.id = id then 1 else 0 := by
  rw [List.countP_append]
  simp [List.countP_cons, hasId]

theorem countAll_enqueue (p : StreamMessage → Bool) {stream : String}
    (h : (b.streams.lookup stream).isSome = true) (m : StreamMessage) :
    countAll p (enqueue stream m b).streams = countAll p b.streams + if p m then 1 else 0 := by
  obtain ⟨queue, hqueue⟩ := Option.isSome_iff_exists.mp h
  have hcount := countAll_assocSet p hqueue (queue ++ [m])
  rw [List.countP_append, List.countP_singleton] at hcount
  unfold enqueue
  simp only [hqueue]
  omega

theorem enqueue_of_none {stream : String} (h : b.streams.lookup stream = none) (m : StreamMessage) :
    (enqueue stream m b).streams = b.streams := by
  unfold enqueue
  rw [h]

theorem countAll_tail (p : StreamMessage → Bool) {stream : String} {queue : List StreamMessage}
    (h : b.streams.lookup stream = some (m :: queue)) :
    countAll p (assocSet stream queue b.streams) + (if p m then 1 else 0) = countAll p b.streams := by
  have hcount := countAll_assocSet p h queue
  rw [List.countP_cons] at hcount
  omega

theorem handled_setConsumer (h : b.consumers[k]? = some c) (c' : Consumer) :
    handled (setConsumer k c' b) id + (if c.handles id then 1 else 0) =
      handled b id + (if c'.handles id then 1 else 0) :=
  countP_set_add (Consumer.handles id) h c'

theorem handles_waiting (h : c.activity = .waiting) : c.handles id = false := by
  unfold Consumer.handles
  rw [h]

theorem handles_handling (h : c.activity = .handling m) : c.handles id = decide (m.id = id) := by
  unfold Consumer.handles
  rw [h]
  rfl

theorem handles_stopped (h : c.activity = .stopped) : c.handles id = false := by
  unfold Consumer.handles
  rw [h]

theorem count_addId {ids : List ℕ} {i : ℕ} (h : i ∉ ids) :
    (addId i ids).count id = ids.count id + if i = id then 1 else 0 := by
  unfold addId
  rw [if_neg h, List.count_append, List.count_singleton]
  simp

theorem retrying_le_queued : retrying b id ≤ queued b id := by
  unfold retrying queued countAll
  refine List.countP_mono_left fun m _ h => ?_
  exact (Bool.and_eq_true_iff.mp h).1

theorem handled_pos (h : b.consumers[k]? = some c) (hc : c.activity = .handling m) :
    0 < handled b m.id := by
  unfold handled
  rw [List.countP_pos_iff]
  refine ⟨c, List.mem_of_getElem? h, ?_⟩
  rw [handles_handling m.id hc]
  exact decide_eq_true rfl

end Counts

/-! ## What every run keeps -/

/-- A message is in one place at most, and a message that is handled is pending. -/
structure Tracked (b : LocalDurableBroker) : Prop where
  unique : ∀ id, places b id ≤ 1
  bounded : ∀ id, b.counter < id → places b id = 0
  known : ∀ e ∈ b.published, e.2 ≤ b.counter
  told : ∀ e ∈ b.handed, e.2 ≤ b.counter
  joined : ∀ c ∈ b.consumers, (b.streams.lookup c.stream).isSome = true
  nodup : b.pending.Nodup
  held : ∀ id, 0 < handled b id → id ∈ b.pending

theorem start_tracked : Tracked start := by
  have hplaces : ∀ id, places start id = 0 := fun _ => rfl
  refine ⟨fun id => by rw [hplaces]; omega, fun id _ => hplaces id, nofun, nofun, nofun, List.nodup_nil, ?_⟩
  intro id h
  exact absurd h (by unfold handled start; simp)

section Operations
variable {b : LocalDurableBroker} {k : ℕ} {c : Consumer} {m : StreamMessage}

theorem isSome_enqueue (stream stream' : String) (m : StreamMessage) :
    ((enqueue stream m b).streams.lookup stream').isSome = (b.streams.lookup stream').isSome := by
  unfold enqueue
  cases hqueue : b.streams.lookup stream with
  | none => rfl
  | some queue =>
    simp only
    rw [lookup_assocSet]
    split_ifs with h
    · rw [h, hqueue]
      rfl
    · rfl

theorem queued_publish (p : Publication) (id : ℕ) : queued (publish p b) id = queued b id +
    if b.counter + 1 = id ∧ (b.streams.lookup p.stream).isSome = true then 1 else 0 := by
  show countAll _ (enqueue p.stream (newMessage p b) b).streams = _
  by_cases hqueue : (b.streams.lookup p.stream).isSome = true
  · rw [countAll_enqueue _ hqueue, hasId]
    simp only [hqueue, and_true, decide_eq_true_eq]
    rfl
  · have hnone : b.streams.lookup p.stream = none := Option.not_isSome_iff_eq_none.mp hqueue
    rw [enqueue_of_none hnone, if_neg (fun h => hqueue h.2)]
    rfl

/-- A publication puts the new message into one place, or, without a queue, into none. -/
theorem places_publish (p : Publication) (id : ℕ) : places (publish p b) id = places b id +
    if b.counter + 1 = id ∧ (b.streams.lookup p.stream).isSome = true then 1 else 0 := by
  have hqueued := queued_publish (b := b) p id
  have hhandled : handled (publish p b) id = handled b id := rfl
  have hdone : done (publish p b) id = done b id := rfl
  have hdead : dead (publish p b) id = dead b id := rfl
  unfold places
  omega

theorem retrying_publish (p : Publication) (id : ℕ) : retrying (publish p b) id = retrying b id := by
  show countAll _ (enqueue p.stream (newMessage p b) b).streams = _
  by_cases hqueue : (b.streams.lookup p.stream).isSome = true
  · rw [countAll_enqueue _ hqueue, if_neg (by simp [wasTried, newMessage])]
    rfl
  · have hnone : b.streams.lookup p.stream = none := Option.not_isSome_iff_eq_none.mp hqueue
    rw [enqueue_of_none hnone]
    rfl

theorem not_completed_of_first (ht : Tracked b) {stream : String} {queue : List StreamMessage}
    (hqueue : b.streams.lookup stream = some (m :: queue)) : m.id ∉ b.completed := by
  intro hmem
  have hone : 0 < queued b m.id := by
    have hcount := countAll_tail (hasId m.id) hqueue
    rw [if_pos (by simp [hasId])] at hcount
    unfold queued
    omega
  have hdone : 0 < done b m.id := List.count_pos_iff.mpr hmem
  have hunique := ht.unique m.id
  unfold places at hunique
  omega

/-- A consumer takes the first message of its stream; it was not completed before. -/
theorem take_spec (ht : Tracked b) {b' : LocalDurableBroker} (h : take k b = some b') :
    ∃ c m queue, b.consumers[k]? = some c ∧ c.activity = .waiting ∧
      b.streams.lookup c.stream = some (m :: queue) ∧
      b' = setConsumer k { c with activity := .handling (delivered c m) }
        { b with
          streams := assocSet c.stream queue b.streams
          pending := addId m.id b.pending
          handed := b.handed ++ [(c.group, m.id)] } := by
  unfold take at h
  cases hc : b.consumers[k]? with
  | none =>
    rw [hc] at h
    cases h
  | some c =>
    rw [hc] at h
    simp only at h
    cases hactivity : c.activity with
    | waiting =>
      cases hqueue : b.streams.lookup c.stream with
      | none =>
        rw [hactivity, hqueue] at h
        cases h
      | some messages =>
        cases messages with
        | nil =>
          rw [hactivity, hqueue] at h
          cases h
        | cons m queue =>
          rw [hactivity, hqueue] at h
          simp only at h
          rw [if_neg (not_completed_of_first ht hqueue)] at h
          exact ⟨c, m, queue, rfl, hactivity, hqueue, (Option.some.inj h).symm⟩
    | _ =>
      rw [hactivity] at h
      cases h

/-- What became of the message that a consumer handled, and of the count of those handled. -/
theorem whileHandling_spec {b' : LocalDurableBroker} {f : Consumer → StreamMessage → LocalDurableBroker}
    (h : whileHandling k b f = some b') : ∃ c m, b.consumers[k]? = some c ∧
      c.activity = .handling m ∧ b' = f c m := by
  unfold whileHandling at h
  cases hc : b.consumers[k]? with
  | none =>
    rw [hc] at h
    cases h
  | some c =>
    rw [hc] at h
    simp only at h
    cases hactivity : c.activity with
    | handling m =>
      rw [hactivity] at h
      exact ⟨c, m, rfl, hactivity, (Option.some.inj h).symm⟩
    | _ =>
      rw [hactivity] at h
      cases h

theorem cancel_spec {b' : LocalDurableBroker} (h : cancel k b = some b') : ∃ c,
    b.consumers[k]? = some c ∧ c.activity ≠ .stopped ∧
      b' = setConsumer k { c with activity := .stopped } b := by
  unfold cancel at h
  cases hc : b.consumers[k]? with
  | none =>
    rw [hc] at h
    cases h
  | some c =>
    rw [hc] at h
    simp only at h
    split_ifs at h with hstopped
    exact ⟨c, rfl, hstopped, (Option.some.inj h).symm⟩

theorem complete_eq (ht : Tracked b) (hc : b.consumers[k]? = some c) (hm : c.activity = .handling m) :
    complete k c m b = setConsumer k { c with activity := .waiting }
      { b with completed := addId m.id b.completed, pending := b.pending.erase m.id } := by
  unfold complete
  rw [if_pos (ht.held m.id (handled_pos hc hm))]

theorem handled_released (hc : b.consumers[k]? = some c) (hm : c.activity = .handling m) (id : ℕ)
    {c' : Consumer} (hc' : c'.handles id = false) {b' : LocalDurableBroker}
    (hb' : b'.consumers = b.consumers.set k c') :
    handled b' id + (if m.id = id then 1 else 0) = handled b id := by
  have hcount := handled_setConsumer id hc c'
  rw [hc', handles_handling id hm] at hcount
  have hset : handled b' id = handled (setConsumer k c' b) id := by
    unfold handled setConsumer
    rw [hb']
  rw [hset]
  simpa using hcount

theorem take_counts {queue : List StreamMessage} (hc : b.consumers[k]? = some c)
    (hwaiting : c.activity = .waiting) (hqueue : b.streams.lookup c.stream = some (m :: queue))
    {b' : LocalDurableBroker} (hb' : b' = setConsumer k { c with activity := .handling (delivered c m) }
      { b with
        streams := assocSet c.stream queue b.streams
        pending := addId m.id b.pending
        handed := b.handed ++ [(c.group, m.id)] }) (id : ℕ) :
    places b' id = places b id ∧ handled b' id = handled b id + (if m.id = id then 1 else 0) ∧
      retrying b' id + (if wasTried id m then 1 else 0) = retrying b id := by
  have hhandled : handled b' id = handled b id + if m.id = id then 1 else 0 := by
    have hcount := handled_setConsumer id hc { c with activity := .handling (delivered c m) }
    rw [handles_waiting id hwaiting, handles_handling id (m := delivered c m) rfl] at hcount
    simp only [decide_eq_true_eq] at hcount
    have hset : handled b' id =
        handled (setConsumer k { c with activity := .handling (delivered c m) } b) id := by
      rw [hb']
      rfl
    rw [hset]
    exact hcount
  have hqueued := countAll_tail (hasId id) hqueue
  have hretrying := countAll_tail (wasTried id) hqueue
  refine ⟨?_, hhandled, ?_⟩
  · have hqueued' : queued b' id + (if m.id = id then 1 else 0) = queued b id := by
      rw [hb']
      simp only [hasId, decide_eq_true_eq] at hqueued
      exact hqueued
    have hdone : done b' id = done b id := by rw [hb']; rfl
    have hdead : dead b' id = dead b id := by rw [hb']; rfl
    unfold places
    omega
  · rw [hb']
    exact hretrying

theorem not_completed_of_handled (ht : Tracked b) (hc : b.consumers[k]? = some c)
    (hm : c.activity = .handling m) : m.id ∉ b.completed := by
  intro hmem
  have hdone : 0 < done b m.id := List.count_pos_iff.mpr hmem
  have hpos := handled_pos hc hm
  have hunique := ht.unique m.id
  unfold places at hunique
  omega

theorem complete_counts (ht : Tracked b) (hc : b.consumers[k]? = some c) (hm : c.activity = .handling m)
    (id : ℕ) : places (complete k c m b) id = places b id ∧
      handled (complete k c m b) id + (if m.id = id then 1 else 0) = handled b id ∧
      retrying (complete k c m b) id = retrying b id := by
  have hhandled : handled (complete k c m b) id + (if m.id = id then 1 else 0) = handled b id := by
    rw [complete_eq ht hc hm]
    exact handled_released hc hm id (handles_waiting id rfl) rfl
  have hdone : done (complete k c m b) id = done b id + if m.id = id then 1 else 0 := by
    rw [complete_eq ht hc hm]
    exact count_addId id (not_completed_of_handled ht hc hm)
  have hqueued : queued (complete k c m b) id = queued b id := by rw [complete_eq ht hc hm]; rfl
  have hdead : dead (complete k c m b) id = dead b id := by rw [complete_eq ht hc hm]; rfl
  refine ⟨?_, hhandled, by rw [complete_eq ht hc hm]; rfl⟩
  unfold places
  omega

/-! A failure moves the message and releases its consumer: nothing else changes. -/

theorem retry_consumers (k : ℕ) (c : Consumer) (m : StreamMessage) (error : String)
    (b : LocalDurableBroker) :
    (retry k c m error b).consumers = b.consumers.set k { c with activity := .waiting } := by
  unfold retry
  simp only
  split_ifs <;> rfl

theorem retry_kept (k : ℕ) (c : Consumer) (m : StreamMessage) (error : String)
    (b : LocalDurableBroker) : (retry k c m error b).pending = b.pending ∧
      (retry k c m error b).handed = b.handed ∧ (retry k c m error b).counter = b.counter ∧
      (retry k c m error b).published = b.published := by
  unfold retry
  simp only
  split_ifs <;> exact ⟨rfl, rfl, rfl, rfl⟩

theorem isSome_retry (k : ℕ) (c : Consumer) (m : StreamMessage) (error : String)
    (b : LocalDurableBroker) (s : String) :
    ((retry k c m error b).streams.lookup s).isSome = (b.streams.lookup s).isSome := by
  unfold retry
  simp only
  split_ifs
  · rfl
  · exact isSome_enqueue _ s _

theorem retry_given_up {m : StreamMessage} (hlimit : 3 ≤ m.attemptCount + 1) (k : ℕ) (c : Consumer)
    (error : String) (b : LocalDurableBroker) :
    retry k c m error b = { setConsumer k { c with activity := .waiting } b with
      dlq := b.dlq ++ [{ m with
        attemptCount := m.attemptCount + 1, status := .deadLetter, error := some error }] } :=
  if_pos hlimit

theorem retry_again {m : StreamMessage} (hlimit : ¬ 3 ≤ m.attemptCount + 1) (k : ℕ) (c : Consumer)
    (error : String) (b : LocalDurableBroker) :
    retry k c m error b = enqueue c.stream { m with attemptCount := m.attemptCount + 1 }
      (setConsumer k { c with activity := .waiting } b) :=
  if_neg hlimit

/-- A message that failed is in one place; after the third failure nothing waits for it. -/
theorem retry_counts (ht : Tracked b) (hc : b.consumers[k]? = some c) (hm : c.activity = .handling m)
    (error : String) (id : ℕ) : places (retry k c m error b) id = places b id ∧
      handled (retry k c m error b) id + (if m.id = id then 1 else 0) = handled b id ∧
      retrying (retry k c m error b) id = retrying b id +
        (if m.id = id ∧ m.attemptCount + 1 < 3 then 1 else 0) := by
  have hjoined := ht.joined c (List.mem_of_getElem? hc)
  have hhandled := handled_released hc hm id (handles_waiting id rfl) (retry_consumers k c m error b)
  by_cases hlimit : 3 ≤ m.attemptCount + 1
  · have hretry := retry_given_up hlimit k c error b
    have hdead : dead (retry k c m error b) id = dead b id + if m.id = id then 1 else 0 := by
      rw [hretry]
      exact countP_hasId id _ b.dlq
    have hqueued : queued (retry k c m error b) id = queued b id := by rw [hretry]; rfl
    have hdone : done (retry k c m error b) id = done b id := by rw [hretry]; rfl
    refine ⟨?_, hhandled, ?_⟩
    · unfold places
      omega
    · rw [if_neg (by omega), hretry]
      rfl
  · have hretry := retry_again hlimit k c error b
    have hstreams : ∀ p, countAll p (retry k c m error b).streams = countAll p b.streams +
        if p { m with attemptCount := m.attemptCount + 1 } then 1 else 0 := by
      intro p
      rw [hretry]
      exact countAll_enqueue p hjoined _
    have hqueued : queued (retry k c m error b) id = queued b id + if m.id = id then 1 else 0 := by
      unfold queued
      rw [hstreams, hasId]
      simp
    have hdone : done (retry k c m error b) id = done b id := by rw [hretry]; rfl
    have hdead : dead (retry k c m error b) id = dead b id := by rw [hretry]; rfl
    refine ⟨?_, hhandled, ?_⟩
    · unfold places
      omega
    · unfold retrying
      rw [hstreams]
      by_cases hid : m.id = id
      · rw [if_pos (by simp [wasTried, hasId, hid]), if_pos ⟨hid, by omega⟩]
      · rw [if_neg (by simp [wasTried, hasId, hid]), if_neg (fun h => hid h.1)]

/-- A consumer that handles nothing is cancelled without a loss. -/
theorem cancel_counts (hc : b.consumers[k]? = some c) (id : ℕ) :
    places (setConsumer k { c with activity := .stopped } b) id +
        (if c.handles id then 1 else 0) = places b id ∧
      handled (setConsumer k { c with activity := .stopped } b) id +
        (if c.handles id then 1 else 0) = handled b id := by
  have hcount := handled_setConsumer id hc { c with activity := .stopped }
  rw [handles_stopped id (c := { c with activity := .stopped }) rfl] at hcount
  have hqueued : queued (setConsumer k { c with activity := .stopped } b) id = queued b id := rfl
  have hdone : done (setConsumer k { c with activity := .stopped } b) id = done b id := rfl
  have hdead : dead (setConsumer k { c with activity := .stopped } b) id = dead b id := rfl
  unfold places
  simp only [Bool.false_eq_true, if_false] at hcount
  omega

theorem subscribe_counts (stream group : String) (id : ℕ) :
    places (subscribe stream group b) id = places b id ∧
      handled (subscribe stream group b) id = handled b id ∧
      retrying (subscribe stream group b) id = retrying b id := by
  have hstreams : ∀ p, countAll p (subscribe stream group b).streams = countAll p b.streams := by
    intro p
    unfold subscribe
    simp only
    split_ifs with hqueue
    · rfl
    · rw [countAll_assocSet_new p (Option.not_isSome_iff_eq_none.mp hqueue)]
      rfl
  have hhandled : handled (subscribe stream group b) id = handled b id := by
    show (b.consumers ++ [Consumer.mk stream group .waiting]).countP _ = _
    rw [List.countP_append, List.countP_singleton, handles_waiting id rfl]
    rfl
  have hqueued : queued (subscribe stream group b) id = queued b id := hstreams _
  have hdone : done (subscribe stream group b) id = done b id := rfl
  have hdead : dead (subscribe stream group b) id = dead b id := rfl
  refine ⟨?_, hhandled, hstreams _⟩
  unfold places
  omega

end Operations

/-! ## The steps -/

section Steps
variable {b b' : LocalDurableBroker}

/-- A step that publishes nothing and puts no message into a second place. -/
theorem Tracked.of_le (ht : Tracked b) (hplaces : ∀ id, places b' id ≤ places b id)
    (hcounter : b'.counter = b.counter) (hpublished : b'.published = b.published)
    (htold : ∀ e ∈ b'.handed, e.2 ≤ b.counter)
    (hjoined : ∀ c ∈ b'.consumers, (b'.streams.lookup c.stream).isSome = true)
    (hnodup : b'.pending.Nodup) (hheld : ∀ id, 0 < handled b' id → id ∈ b'.pending) : Tracked b' := by
  refine ⟨fun id => Nat.le_trans (hplaces id) (ht.unique id), fun id hid => ?_, ?_, ?_, hjoined, hnodup, hheld⟩
  · have hzero := ht.bounded id (hcounter ▸ hid)
    have hle := hplaces id
    omega
  · rw [hpublished, hcounter]
    exact ht.known
  · rw [hcounter]
    exact htold

theorem joined_setConsumer {k : ℕ} {c d : Consumer} (ht : Tracked b) (hc : b.consumers[k]? = some c)
    (hstream : d.stream = c.stream) :
    ∀ e ∈ b.consumers.set k d, (b.streams.lookup e.stream).isSome = true := by
  intro e he
  rcases List.mem_or_eq_of_mem_set he with he | rfl
  · exact ht.joined e he
  · rw [hstream]
    exact ht.joined c (List.mem_of_getElem? hc)

theorem mem_addId {i j : ℕ} {ids : List ℕ} : j ∈ addId i ids ↔ j = i ∨ j ∈ ids := by
  unfold addId
  split_ifs with h
  · constructor
    · exact Or.inr
    · rintro (rfl | hj)
      · exact h
      · exact hj
  · simp [or_comm]

theorem nodup_addId {i : ℕ} {ids : List ℕ} (h : ids.Nodup) : (addId i ids).Nodup := by
  unfold addId
  split_ifs with hi
  · exact h
  · rw [List.nodup_append]
    refine ⟨h, List.nodup_singleton i, ?_⟩
    intro a ha x hx
    rw [List.mem_singleton.mp hx]
    exact fun he => hi (he ▸ ha)

theorem tracked_publish (ht : Tracked b) (p : Publication) : Tracked (publish p b) := by
  have hnew := places_publish (b := b) p
  refine ⟨fun id => ?_, fun id hid => ?_, ?_, ?_, ?_, ht.nodup, ht.held⟩
  · rw [hnew]
    have hunique := ht.unique id
    split_ifs with h
    · have hzero := ht.bounded id (by omega)
      omega
    · exact hunique
  · change b.counter + 1 < id at hid
    rw [hnew, if_neg (by omega), ht.bounded id (by omega)]
  · intro e he
    show e.2 ≤ b.counter + 1
    rcases List.mem_append.mp he with he | he
    · have hle := ht.known e he
      omega
    · rw [List.mem_singleton.mp he]
      exact Nat.le_refl _
  · intro e he
    have hle := ht.told e he
    show e.2 ≤ b.counter + 1
    omega
  · intro c hc
    show ((enqueue p.stream (newMessage p b) b).streams.lookup c.stream).isSome = true
    rw [isSome_enqueue]
    exact ht.joined c hc

theorem tracked_subscribe (ht : Tracked b) (stream group : String) :
    Tracked (subscribe stream group b) := by
  have hlookup : ∀ s, ((subscribe stream group b).streams.lookup s).isSome = true ↔
      s = stream ∨ (b.streams.lookup s).isSome = true := by
    intro s
    unfold subscribe
    simp only
    split_ifs with hqueue
    · constructor
      · exact Or.inr
      · rintro (rfl | h)
        · exact hqueue
        · exact h
    · rw [lookup_assocSet]
      by_cases hs : s = stream
      · simp [hs]
      · simp [hs]
  refine ht.of_le (fun id => Nat.le_of_eq (subscribe_counts stream group id).1) rfl rfl ht.told ?_ ht.nodup ?_
  · intro c hc
    rw [hlookup]
    rcases List.mem_append.mp hc with hc | hc
    · exact Or.inr (ht.joined c hc)
    · rw [List.mem_singleton.mp hc]
      exact Or.inl rfl
  · intro id hid
    rw [(subscribe_counts stream group id).2.1] at hid
    exact ht.held id hid

theorem le_counter_of_first (ht : Tracked b) {stream : String} {m : StreamMessage}
    {queue : List StreamMessage} (hqueue : b.streams.lookup stream = some (m :: queue)) :
    m.id ≤ b.counter := by
  by_contra hlt
  have hzero := ht.bounded m.id (by omega)
  have hcount := countAll_tail (hasId m.id) hqueue
  rw [if_pos (by simp [hasId])] at hcount
  unfold places queued at hzero
  omega

theorem tracked_take (ht : Tracked b) {k : ℕ} (h : take k b = some b') : Tracked b' := by
  obtain ⟨c, m, queue, hc, hwaiting, hqueue, rfl⟩ := take_spec ht h
  have hcounts := take_counts hc hwaiting hqueue rfl
  refine ht.of_le (fun id => Nat.le_of_eq (hcounts id).1) rfl rfl ?_ ?_ (nodup_addId ht.nodup) ?_
  · intro e he
    rcases List.mem_append.mp he with he | he
    · exact ht.told e he
    · rw [List.mem_singleton.mp he]
      exact le_counter_of_first ht hqueue
  · intro d hd
    have hjoined := joined_setConsumer ht hc
      (d := { c with activity := .handling (delivered c m) }) rfl d hd
    show ((assocSet c.stream queue b.streams).lookup d.stream).isSome = true
    rw [lookup_assocSet]
    split_ifs
    · rfl
    · exact hjoined
  · intro id hid
    rw [(hcounts id).2.1] at hid
    refine mem_addId.mpr ?_
    by_cases hm : m.id = id
    · exact Or.inl hm.symm
    · rw [if_neg hm] at hid
      exact Or.inr (ht.held id hid)

theorem tracked_complete (ht : Tracked b) {k : ℕ} {c : Consumer} {m : StreamMessage}
    (hc : b.consumers[k]? = some c) (hm : c.activity = .handling m) : Tracked (complete k c m b) := by
  have hcounts := complete_counts ht hc hm
  have heq := complete_eq ht hc hm
  refine ht.of_le (fun id => Nat.le_of_eq (hcounts id).1) (by rw [heq]; rfl) (by rw [heq]; rfl)
    (by rw [heq]; exact ht.told) ?_ ?_ ?_
  · intro d hd
    rw [heq] at hd ⊢
    exact joined_setConsumer ht hc (d := { c with activity := .waiting }) rfl d hd
  · rw [heq]
    exact ht.nodup.erase m.id
  · intro id hid
    have hcount := (hcounts id).2.1
    rw [heq]
    by_cases hmid : m.id = id
    · have hunique := ht.unique id
      unfold places at hunique
      rw [if_pos hmid] at hcount
      omega
    · rw [if_neg hmid] at hcount
      have hpending := ht.held id (by omega)
      exact (List.mem_erase_of_ne (Ne.symm hmid)).mpr hpending

theorem tracked_retry (ht : Tracked b) {k : ℕ} {c : Consumer} {m : StreamMessage}
    (hc : b.consumers[k]? = some c) (hm : c.activity = .handling m) (error : String) :
    Tracked (retry k c m error b) := by
  have hcounts := retry_counts ht hc hm error
  obtain ⟨hpending, hhanded, hcounter, hpublished⟩ := retry_kept k c m error b
  refine ht.of_le (fun id => Nat.le_of_eq (hcounts id).1) hcounter hpublished ?_ ?_ ?_ ?_
  · rw [hhanded]
    exact ht.told
  · intro d hd
    rw [retry_consumers] at hd
    rw [isSome_retry]
    exact joined_setConsumer ht hc (d := { c with activity := .waiting }) rfl d hd
  · rw [hpending]
    exact ht.nodup
  · intro id hid
    have hcount := (hcounts id).2.1
    rw [hpending]
    exact ht.held id (by omega)

theorem tracked_cancel (ht : Tracked b) {k : ℕ} (h : cancel k b = some b') : Tracked b' := by
  obtain ⟨c, hc, _, rfl⟩ := cancel_spec h
  have hcounts := cancel_counts hc
  refine ht.of_le (fun id => ?_) rfl rfl ht.told ?_ ht.nodup fun id hid => ?_
  · have hcount := (hcounts id).1
    omega
  · exact joined_setConsumer ht hc rfl
  · have hcount := (hcounts id).2
    exact ht.held id (by omega)

theorem tracked_step (ht : Tracked b) {i : Label} (h : step b i = some b') : Tracked b' := by
  cases i with
  | publish p =>
    obtain rfl := Option.some.inj h
    exact tracked_publish ht p
  | subscribe stream group =>
    obtain rfl := Option.some.inj h
    exact tracked_subscribe ht stream group
  | take k => exact tracked_take ht h
  | succeed k =>
    obtain ⟨c, m, hc, hm, rfl⟩ := whileHandling_spec h
    exact tracked_complete ht hc hm
  | fail k error =>
    obtain ⟨c, m, hc, hm, rfl⟩ := whileHandling_spec h
    exact tracked_retry ht hc hm error
  | cancel k => exact tracked_cancel ht h
  | subscribeChannel channel =>
    obtain rfl := Option.some.inj h
    exact ⟨ht.unique, ht.bounded, ht.known, ht.told, ht.joined, ht.nodup, ht.held⟩
  | hear k =>
    change hear k b = some b' at h
    unfold hear at h
    split at h
    · obtain rfl := Option.some.inj h
      exact ⟨ht.unique, ht.bounded, ht.known, ht.told, ht.joined, ht.nodup, ht.held⟩
    · cases h

/-- A step that loses no message, publishes nothing, and leaves nothing pending for nothing. -/
theorem Conserved.of_eq {work : String → Prop} (h : Conserved work b)
    (hplaces : ∀ id, places b' id = places b id) (hpublished : b'.published = b.published)
    (hpending : ∀ id ∈ b'.pending, 0 < handled b' id + retrying b' id) : Conserved work b' := by
  refine ⟨fun e he hwork => ?_, hpending⟩
  rw [hpublished] at he
  rw [hplaces]
  exact h.once e he hwork

theorem conserved_publish {work : String → Prop} (ht : Tracked b) (h : Conserved work b)
    (p : Publication) (hok : StepOk work b (.publish p)) : Conserved work (publish p b) := by
  refine ⟨fun e he hwork => ?_, fun id hid => ?_⟩
  · rcases List.mem_append.mp he with he | he
    · have hle := ht.known e he
      rw [places_publish, if_neg (by omega), h.once e he hwork]
    · obtain rfl : e = (p.stream, b.counter + 1) := List.mem_singleton.mp he
      have hzero := ht.bounded (b.counter + 1) (by omega)
      rw [places_publish, hzero, if_pos ⟨rfl, hok hwork⟩]
  · rw [retrying_publish]
    exact h.pending id hid

theorem conserved_take {work : String → Prop} (ht : Tracked b) (h : Conserved work b) {k : ℕ}
    (htake : take k b = some b') : Conserved work b' := by
  obtain ⟨c, m, queue, hc, hwaiting, hqueue, rfl⟩ := take_spec ht htake
  have hcounts := take_counts hc hwaiting hqueue rfl
  refine h.of_eq (fun id => (hcounts id).1) rfl fun id hid => ?_
  obtain ⟨_, hhandled, hretrying⟩ := hcounts id
  rw [hhandled]
  by_cases hm : m.id = id
  · rw [if_pos hm]
    omega
  · have htried : wasTried id m = false := by simp [wasTried, hasId, hm]
    rw [htried] at hretrying
    have hold := h.pending id ((mem_addId.mp hid).resolve_left (Ne.symm hm))
    simp only [Bool.false_eq_true, if_false] at hretrying
    omega

theorem conserved_complete {work : String → Prop} (ht : Tracked b) (h : Conserved work b) {k : ℕ}
    {c : Consumer} {m : StreamMessage} (hc : b.consumers[k]? = some c) (hm : c.activity = .handling m) :
    Conserved work (complete k c m b) := by
  have hcounts := complete_counts ht hc hm
  have heq := complete_eq ht hc hm
  refine h.of_eq (fun id => (hcounts id).1) (by rw [heq]; rfl) fun id hid => ?_
  obtain ⟨_, hhandled, hretrying⟩ := hcounts id
  rw [heq] at hid
  obtain ⟨hne, hpending⟩ := ht.nodup.mem_erase_iff.mp hid
  rw [if_neg (Ne.symm hne)] at hhandled
  have hold := h.pending id hpending
  omega

theorem conserved_retry {work : String → Prop} (ht : Tracked b) (h : Conserved work b) {k : ℕ}
    {c : Consumer} {m : StreamMessage} (hc : b.consumers[k]? = some c) (hm : c.activity = .handling m)
    (error : String) (hlimit : m.attemptCount + 1 < 3) : Conserved work (retry k c m error b) := by
  have hcounts := retry_counts ht hc hm error
  have hretry := retry_again (m := m) (by omega) k c error b
  refine h.of_eq (fun id => (hcounts id).1) (by rw [hretry]; rfl) fun id hid => ?_
  obtain ⟨_, hhandled, hretrying⟩ := hcounts id
  have hpending : id ∈ b.pending := by
    rw [hretry] at hid
    exact hid
  have hold := h.pending id hpending
  by_cases hmid : m.id = id
  · rw [if_pos ⟨hmid, hlimit⟩] at hretrying
    omega
  · rw [if_neg hmid] at hhandled
    omega

theorem conserved_step {work : String → Prop} (ht : Tracked b) (h : Conserved work b) {i : Label}
    (hok : StepOk work b i) (hstep : step b i = some b') : Conserved work b' := by
  cases i with
  | publish p =>
    obtain rfl := Option.some.inj hstep
    exact conserved_publish ht h p hok
  | subscribe stream group =>
    obtain rfl := Option.some.inj hstep
    have hcounts := subscribe_counts (b := b) stream group
    refine h.of_eq (fun id => (hcounts id).1) rfl fun id hid => ?_
    rw [(hcounts id).2.1, (hcounts id).2.2]
    exact h.pending id hid
  | take k => exact conserved_take ht h hstep
  | succeed k =>
    obtain ⟨c, m, hc, hm, rfl⟩ := whileHandling_spec hstep
    exact conserved_complete ht h hc hm
  | fail k error =>
    obtain ⟨c, m, hc, hm, rfl⟩ := whileHandling_spec hstep
    exact conserved_retry ht h hc hm error (hok c m hc hm)
  | cancel k =>
    obtain ⟨c, hc, hstopped, rfl⟩ := cancel_spec hstep
    have hidle : ∀ id, c.handles id = false := by
      intro id
      cases hactivity : c.activity with
      | handling m => exact absurd hactivity (hok c m hc)
      | waiting => exact handles_waiting id hactivity
      | stopped => exact absurd hactivity hstopped
    have hcounts := cancel_counts hc
    refine h.of_eq (fun id => ?_) rfl fun id hid => ?_
    · have hcount := (hcounts id).1
      rw [hidle id] at hcount
      simpa using hcount
    · have hcount := (hcounts id).2
      rw [hidle id] at hcount
      have hretrying : retrying (setConsumer k { c with activity := .stopped } b) id = retrying b id := rfl
      have hold := h.pending id hid
      simp only [Bool.false_eq_true, if_false] at hcount
      omega
  | subscribeChannel channel =>
    obtain rfl := Option.some.inj hstep
    exact ⟨h.once, h.pending⟩
  | hear k =>
    change hear k b = some b' at hstep
    unfold hear at hstep
    split at hstep
    · obtain rfl := Option.some.inj hstep
      exact ⟨h.once, h.pending⟩
    · cases hstep

/-- Nothing handles a message that only one consumer handled, and no queue holds it. -/
theorem handled_only (ht : Tracked b) {k : ℕ} {c : Consumer} {m : StreamMessage}
    (hc : b.consumers[k]? = some c) (hm : c.activity = .handling m) :
    handled b m.id = 1 ∧ retrying b m.id = 0 := by
  have hpos := handled_pos hc hm
  have hunique := ht.unique m.id
  have hle : retrying b m.id ≤ queued b m.id := retrying_le_queued m.id
  unfold places at hunique
  omega

/-- A step that does not meet the condition loses count of a message. -/
theorem not_conserved_step {work : String → Prop} (ht : Tracked b) {i : Label}
    (hnot : ¬ StepOk work b i) : ∃ b', step b i = some b' ∧ ¬ Conserved work b' := by
  cases i with
  | publish p =>
    unfold StepOk at hnot
    push Not at hnot
    obtain ⟨hwork, hqueue⟩ := hnot
    refine ⟨_, rfl, fun hconserved => ?_⟩
    have honce := hconserved.once (p.stream, b.counter + 1)
      (List.mem_append_right _ List.mem_cons_self) hwork
    have hzero := ht.bounded (b.counter + 1) (by omega)
    rw [places_publish, hzero, if_neg (fun h => hqueue h.2)] at honce
    exact absurd honce (by decide)
  | fail k error =>
    unfold StepOk at hnot
    push Not at hnot
    obtain ⟨c, m, hc, hm, hlimit⟩ := hnot
    have hstep : step b (.fail k error) = some (retry k c m error b) := by
      show whileHandling k b _ = _
      unfold whileHandling
      rw [hc]
      simp only
      rw [hm]
    refine ⟨_, hstep, fun hconserved => ?_⟩
    obtain ⟨_, hhandled, hretrying⟩ := retry_counts ht hc hm error m.id
    obtain ⟨hone, hnone⟩ := handled_only ht hc hm
    have hpending : m.id ∈ (retry k c m error b).pending := by
      rw [(retry_kept k c m error b).1]
      exact ht.held m.id (handled_pos hc hm)
    have hlost := hconserved.pending m.id hpending
    rw [if_neg (by omega)] at hretrying
    rw [if_pos rfl] at hhandled
    omega
  | cancel k =>
    unfold StepOk at hnot
    push Not at hnot
    obtain ⟨c, m, hc, hm⟩ := hnot
    have hstep : step b (.cancel k) = some (setConsumer k { c with activity := .stopped } b) := by
      show cancel k b = _
      unfold cancel
      rw [hc]
      simp only
      rw [if_neg (by rw [hm]; exact nofun)]
    refine ⟨_, hstep, fun hconserved => ?_⟩
    have hcount := (cancel_counts hc m.id).2
    obtain ⟨hone, hnone⟩ := handled_only ht hc hm
    have hlost := hconserved.pending m.id (ht.held m.id (handled_pos hc hm))
    have hretrying : retrying (setConsumer k { c with activity := .stopped } b) m.id =
      retrying b m.id := rfl
    rw [handles_handling m.id hm, decide_eq_true rfl, if_pos rfl] at hcount
    omega
  | _ => exact absurd True.intro hnot

end Steps

/-! ## Runs -/

/-- **Every message of the work streams is in exactly one place, and what is pending is handled or
tried again, in exactly the runs that meet the condition.** -/
theorem conserved_iff_guarded (work : String → Prop) (is : List Label) :
    (∀ js ks t, is = js ++ ks → exec step start js = some t → Conserved work t) ↔
      Guarded step (StepOk work) start is :=
  always_iff_guarded (fun _ _ _ ht hs => tracked_step ht hs)
    (fun _ _ _ ht h hok hs => conserved_step ht h hok hs)
    (fun _ _ ht _ hnot => not_conserved_step ht hnot) start_tracked ⟨nofun, nofun⟩ is

/-- The streams of the two workers. -/
def WorkStream (stream : String) : Prop := stream = "task_queue" ∨ stream = "execution_queue"

/-- A message is published before the worker has subscribed: it is nowhere. -/
theorem published_before_subscribe : ¬ ∀ is t, exec step start is = some t → Conserved WorkStream t := by
  intro h
  have hconserved := h [.publish ⟨"task_queue", .obj [], none, none, "trace"⟩,
    .subscribe "task_queue" "brain-workers"] _ rfl
  have honce := hconserved.once ("task_queue", 1) (by decide) (Or.inl rfl)
  exact absurd honce (by decide)

end KernelRuntime.LocalBroker
