import KernelRuntime.Queue.Conservation

/-! # Consumer groups

The consumers of a stream share its one queue, whatever group they name. A message is handed to one of
them, so it reaches every group only when there is one. -/

namespace KernelRuntime.LocalBroker
set_option autoImplicit false

/-- The steps of runs in which messages are published and consumed, and every handler succeeds. -/
def serve (b : LocalDurableBroker) : Label → Option LocalDurableBroker
  | .publish p => step b (.publish p)
  | .take k => step b (.take k)
  | .succeed k => step b (.succeed k)
  | _ => none

/-- The message was handed to every group that has subscribed the stream in `b`. -/
def FanOut (b : LocalDurableBroker) (stream : String) (id : ℕ) (t : LocalDurableBroker) : Prop :=
  ∀ c ∈ b.consumers, c.stream = stream → (c.group, id) ∈ t.handed

/-- All consumers of the stream are of one group. -/
def OneGroup (b : LocalDurableBroker) (stream : String) : Prop :=
  ∀ c ∈ b.consumers, ∀ d ∈ b.consumers, c.stream = stream → d.stream = stream → c.group = d.group

/-! ## One message -/

def Consumer.key (c : Consumer) : String × String := (c.stream, c.group)

/-- To how many handlers the message was handed. -/
def handedTo (b : LocalDurableBroker) (id : ℕ) : ℕ := b.handed.countP fun e => decide (e.2 = id)

/-- What becomes of a message in a run from `b`. -/
structure Served (b : LocalDurableBroker) (id : ℕ) (t : LocalDurableBroker) : Prop where
  tracked : Tracked t
  keys : t.consumers.map Consumer.key = b.consumers.map Consumer.key
  streams : ∀ s, (t.streams.lookup s).isSome = (b.streams.lookup s).isSome
  routed : ∀ e ∈ t.streams, ∀ m ∈ e.2, m.id = id → (e.1, id) ∈ t.published
  single : ∀ s s', (s, id) ∈ t.published → (s', id) ∈ t.published → s = s'
  groups : ∀ g, (g, id) ∈ t.handed → ∃ c ∈ b.consumers, c.group = g ∧ (c.stream, id) ∈ t.published
  total : ∀ s, (s, id) ∈ t.published → (t.streams.lookup s).isSome = true →
    handedTo t id + queued t id = 1

section Steps
variable {b t t' : LocalDurableBroker} {id : ℕ}

theorem handedTo_eq_zero (ht : Tracked t) (hid : t.counter < id) : handedTo t id = 0 := by
  unfold handedTo
  rw [List.countP_eq_zero]
  intro e he hmatch
  have hle := ht.told e he
  have heq : e.2 = id := of_decide_eq_true hmatch
  omega

theorem served_start (hb : Tracked b) (hid : b.counter < id) : Served b id b := by
  have hplaces := hb.bounded id hid
  have hnone : ∀ s, (s, id) ∉ b.published := by
    intro s hs
    have hle := hb.known (s, id) hs
    simp only at hle
    omega
  refine ⟨hb, rfl, fun _ => rfl, ?_, fun s _ hs => absurd hs (hnone s), ?_,
    fun s hs => absurd hs (hnone s)⟩
  · intro e he m hm hmid
    have hzero : queued b id = 0 := by
      unfold places at hplaces
      omega
    unfold queued countAll at hzero
    rw [List.countP_eq_zero] at hzero
    exact absurd (decide_eq_true hmid) (hzero m (List.mem_flatMap.mpr ⟨e, he, hm⟩))
  · intro g hg
    have hle := hb.told (g, id) hg
    simp only at hle
    omega

theorem mem_assocSet {κ α : Type} [DecidableEq κ] {k : κ} {v : α} {entries : List (κ × α)} {e : κ × α}
    (h : e ∈ assocSet k v entries) : e = (k, v) ∨ e ∈ entries := by
  induction entries with
  | nil => exact Or.inl (List.mem_singleton.mp h)
  | cons first entries ih =>
    unfold assocSet at h
    split_ifs at h
    · rcases List.mem_cons.mp h with h | h
      · exact Or.inl h
      · exact Or.inr (List.mem_cons_of_mem _ h)
    · rcases List.mem_cons.mp h with h | h
      · exact Or.inr (h ▸ List.mem_cons_self)
      · exact (ih h).imp_right (List.mem_cons_of_mem _)

theorem mem_of_lookup {κ α : Type} [DecidableEq κ] {k : κ} {v : α} {entries : List (κ × α)}
    (h : entries.lookup k = some v) : (k, v) ∈ entries := by
  obtain ⟨l, l', rfl, _⟩ := List.lookup_eq_some_iff.mp h
  exact List.mem_append_right _ List.mem_cons_self

theorem mem_streams_publish {p : Publication} {e : String × List StreamMessage} {m : StreamMessage}
    (he : e ∈ (publish p t).streams) (hm : m ∈ e.2) :
    (∃ e' ∈ t.streams, e'.1 = e.1 ∧ m ∈ e'.2) ∨ (e.1 = p.stream ∧ m.id = t.counter + 1) := by
  change e ∈ (enqueue p.stream (newMessage p t) t).streams at he
  unfold enqueue at he
  cases hqueue : t.streams.lookup p.stream with
  | none =>
    simp only [hqueue] at he
    exact Or.inl ⟨e, he, rfl, hm⟩
  | some queue =>
    simp only [hqueue] at he
    rcases mem_assocSet he with rfl | he
    · rcases List.mem_append.mp hm with hm | hm
      · exact Or.inl ⟨_, mem_of_lookup hqueue, rfl, hm⟩
      · rw [List.mem_singleton.mp hm]
        exact Or.inr ⟨rfl, rfl⟩
    · exact Or.inl ⟨e, he, rfl, hm⟩

theorem served_publish (h : Served b id t) (p : Publication) : Served b id (publish p t) := by
  have ht := h.tracked
  have hmem : ∀ s, (s, id) ∈ (publish p t).published ↔
      (s, id) ∈ t.published ∨ (s = p.stream ∧ id = t.counter + 1) := by
    intro s
    show (s, id) ∈ t.published ++ [(p.stream, t.counter + 1)] ↔ _
    rw [List.mem_append, List.mem_singleton, Prod.mk.injEq]
  have hold : ∀ s, (s, id) ∈ t.published → id ≠ t.counter + 1 := by
    intro s hs hnew
    have hle := ht.known (s, id) hs
    simp only at hle
    omega
  refine ⟨tracked_publish ht p, h.keys, fun s => ?_, ?_, ?_, ?_, ?_⟩
  · show ((enqueue p.stream (newMessage p t) t).streams.lookup s).isSome = _
    rw [isSome_enqueue, h.streams]
  · intro e he m hm hmid
    rw [hmem]
    rcases mem_streams_publish he hm with ⟨e', he', hstream, hm'⟩ | ⟨hstream, hnew⟩
    · rw [← hstream]
      exact Or.inl (h.routed e' he' m hm' hmid)
    · exact Or.inr ⟨hstream, hmid.symm.trans hnew⟩
  · intro s s' hs hs'
    rcases (hmem s).mp hs with hs | ⟨rfl, hnew⟩
    · rcases (hmem s').mp hs' with hs' | ⟨_, hnew⟩
      · exact h.single s s' hs hs'
      · exact absurd hnew (hold s hs)
    · rcases (hmem s').mp hs' with hs' | ⟨rfl, _⟩
      · exact absurd hnew (hold s' hs')
      · rfl
  · intro g hg
    obtain ⟨c, hc, hgroup, hpublished⟩ := h.groups g hg
    exact ⟨c, hc, hgroup, (hmem c.stream).mpr (Or.inl hpublished)⟩
  · intro s hs hqueue
    change ((enqueue p.stream (newMessage p t) t).streams.lookup s).isSome = true at hqueue
    rw [isSome_enqueue] at hqueue
    have hhanded : handedTo (publish p t) id = handedTo t id := rfl
    have hqueued : queued (publish p t) id = queued t id +
        if t.counter + 1 = id ∧ (t.streams.lookup p.stream).isSome = true then 1 else 0 :=
      queued_publish p id
    rcases (hmem s).mp hs with hs | ⟨rfl, hnew⟩
    · have htotal := h.total s hs hqueue
      rw [hhanded, hqueued, if_neg (fun hn => hold s hs hn.1.symm), Nat.add_zero, htotal]
    · have hplaces := ht.bounded id (by omega)
      have hzero := handedTo_eq_zero ht (show t.counter < id by omega)
      unfold places at hplaces
      rw [hhanded, hqueued, if_pos ⟨hnew.symm, hqueue⟩]
      omega

theorem set_same {α : Type} {l : List α} {k : ℕ} {a : α} (h : l[k]? = some a) : l.set k a = l := by
  obtain ⟨hk, rfl⟩ := List.getElem?_eq_some_iff.mp h
  exact List.set_getElem_self hk

theorem served_take (h : Served b id t) {k : ℕ} (htake : take k t = some t') : Served b id t' := by
  obtain ⟨c, m, queue, hc, hwaiting, hqueue, rfl⟩ := take_spec h.tracked htake
  have htracked := tracked_take h.tracked htake
  have hfirst : (c.stream, m :: queue) ∈ t.streams := mem_of_lookup hqueue
  refine ⟨htracked, ?_, fun s => ?_, ?_, h.single, ?_, ?_⟩
  · show (t.consumers.set k _).map Consumer.key = _
    rw [List.map_set, ← h.keys]
    exact set_same (by rw [List.getElem?_map, hc]; rfl)
  · show ((assocSet c.stream queue t.streams).lookup s).isSome = _
    rw [lookup_assocSet, ← h.streams]
    split_ifs with hs
    · rw [hs, hqueue]
      rfl
    · rfl
  · intro e he m' hm' hmid
    rcases mem_assocSet he with rfl | he
    · exact h.routed (c.stream, m :: queue) hfirst m' (List.mem_cons_of_mem _ hm') hmid
    · exact h.routed e he m' hm' hmid
  · intro g hg
    rcases List.mem_append.mp hg with hg | hg
    · exact h.groups g hg
    · obtain ⟨rfl, hmid⟩ := Prod.mk.inj (List.mem_singleton.mp hg)
      have hkey : c.key ∈ b.consumers.map Consumer.key := by
        rw [← h.keys]
        exact List.mem_map_of_mem (List.mem_of_getElem? hc)
      obtain ⟨d, hd, hdkey⟩ := List.mem_map.mp hkey
      obtain ⟨hstream, hgroup⟩ := Prod.mk.inj hdkey
      refine ⟨d, hd, hgroup, ?_⟩
      rw [hstream]
      exact h.routed (c.stream, m :: queue) hfirst m List.mem_cons_self hmid.symm
  · intro s hs hsome
    have hqueued := countAll_tail (hasId id) hqueue
    have htotal := h.total s hs (by
      change ((assocSet c.stream queue t.streams).lookup s).isSome = true at hsome
      rw [lookup_assocSet] at hsome
      split_ifs at hsome with hstream
      · rw [hstream, hqueue]
        rfl
      · exact hsome)
    have hhanded : (t.handed ++ [(c.group, m.id)]).countP (fun e => decide (e.2 = id)) =
        handedTo t id + if m.id = id then 1 else 0 := by
      rw [List.countP_append, List.countP_singleton]
      simp only [decide_eq_true_eq]
      rfl
    have hfirstId : hasId id m = decide (m.id = id) := rfl
    rw [hfirstId] at hqueued
    simp only [decide_eq_true_eq] at hqueued
    change handedTo t id + countAll (hasId id) t.streams = 1 at htotal
    show (t.handed ++ [(c.group, m.id)]).countP (fun e => decide (e.2 = id)) +
      countAll (hasId id) (assocSet c.stream queue t.streams) = 1
    rw [hhanded]
    omega

theorem served_complete (h : Served b id t) {k : ℕ} {c : Consumer} {m : StreamMessage}
    (hc : t.consumers[k]? = some c) (hm : c.activity = .handling m) :
    Served b id (complete k c m t) := by
  have htracked := tracked_complete h.tracked hc hm
  rw [complete_eq h.tracked hc hm] at htracked ⊢
  refine ⟨htracked, ?_, h.streams, h.routed, h.single, h.groups, h.total⟩
  show (t.consumers.set k _).map Consumer.key = _
  rw [List.map_set, ← h.keys]
  exact set_same (by rw [List.getElem?_map, hc]; rfl)

theorem served_step (h : Served b id t) {i : Label} (hstep : serve t i = some t') : Served b id t' := by
  cases i with
  | publish p =>
    obtain rfl := Option.some.inj hstep
    exact served_publish h p
  | take k => exact served_take h hstep
  | succeed k =>
    obtain ⟨c, m, hc, hm, rfl⟩ := whileHandling_spec hstep
    exact served_complete h hc hm
  | _ => cases hstep

theorem served_run (h : Served b id t) {is : List Label} (hrun : exec serve t is = some t') :
    Served b id t' :=
  exec_invariant_all (fun _ _ _ h hs => served_step h hs) h hrun

end Steps

/-! ## Every group -/

theorem eq_of_countP_le_one {α : Type} {p : α → Bool} {l : List α} (h : l.countP p ≤ 1) {x y : α}
    (hx : x ∈ l) (hy : y ∈ l) (hpx : p x = true) (hpy : p y = true) : x = y := by
  rw [List.countP_eq_length_filter] at h
  have hx' : x ∈ l.filter p := List.mem_filter.mpr ⟨hx, hpx⟩
  have hy' : y ∈ l.filter p := List.mem_filter.mpr ⟨hy, hpy⟩
  cases hfilter : l.filter p with
  | nil =>
    rw [hfilter] at hx'
    exact absurd hx' List.not_mem_nil
  | cons a rest =>
    rw [hfilter] at h hx' hy'
    have hrest : rest = [] := by
      rw [List.length_cons] at h
      exact List.eq_nil_of_length_eq_zero (by omega)
    rw [hrest, List.mem_singleton] at hx' hy'
    rw [hx', hy']

/-- **A message that is published after the consumers have subscribed, and consumed, is handed to
every group of the stream exactly when there is only one.** -/
theorem fanOut_iff_oneGroup (subscribed is : List Label) (b t : LocalDurableBroker) (stream : String)
    (id : ℕ) (hb : exec step start subscribed = some b) (hrun : exec serve b is = some t)
    (hnew : b.counter < id) (hpublished : (stream, id) ∈ t.published) (hconsumed : queued t id = 0) :
    FanOut b stream id t ↔ OneGroup b stream := by
  have hbTracked : Tracked b := exec_invariant_all (fun _ _ _ h hs => tracked_step h hs) start_tracked hb
  have h := served_run (served_start hbTracked hnew) hrun
  constructor
  · intro hfan c hc d hd hcs hds
    have hqueue : (t.streams.lookup stream).isSome = true := by
      rw [h.streams, ← hcs]
      exact hbTracked.joined c hc
    have htotal := h.total stream hpublished hqueue
    have hle : t.handed.countP (fun e => decide (e.2 = id)) ≤ 1 := by
      unfold handedTo at htotal
      omega
    have heq := eq_of_countP_le_one hle (hfan c hc hcs) (hfan d hd hds) (decide_eq_true rfl)
      (decide_eq_true rfl)
    exact (Prod.mk.inj heq).1
  · intro hone c hc hcs
    have hqueue : (t.streams.lookup stream).isSome = true := by
      rw [h.streams, ← hcs]
      exact hbTracked.joined c hc
    have htotal := h.total stream hpublished hqueue
    have hpos : 0 < t.handed.countP fun e => decide (e.2 = id) := by
      unfold handedTo at htotal
      omega
    obtain ⟨⟨g, i⟩, hg, hi⟩ := List.countP_pos_iff.mp hpos
    obtain rfl : i = id := of_decide_eq_true hi
    obtain ⟨d, hd, hgroup, hdpublished⟩ := h.groups g hg
    have hds := h.single d.stream stream hdpublished hpublished
    rw [hone c hc d hd hcs hds, hgroup]
    exact hg

/-- One client of a session's state stream. -/
def oneClient : List Label := [.subscribe "state:s1" "sse-acme:1"]

/-- Two clients of it, each in its own group. -/
def twoClients : List Label := [.subscribe "state:s1" "sse-acme:1", .subscribe "state:s1" "sse-acme:2"]

/-- An event is published, and both clients take what they get. -/
def oneEvent : List Label :=
  [.publish ⟨"state:s1", .obj [("type", .str "task")], none, none, "trace"⟩, .take 0, .succeed 0]

theorem fanOut_oneClient : ∃ b t, exec step start oneClient = some b ∧ exec serve b oneEvent = some t ∧
    FanOut b "state:s1" 1 t := by
  obtain ⟨b, hb⟩ : ∃ b, exec step start oneClient = some b := ⟨_, rfl⟩
  obtain ⟨t, ht⟩ : ∃ t, exec serve b oneEvent = some t := by
    obtain rfl := Option.some.inj hb
    exact ⟨_, rfl⟩
  refine ⟨b, t, hb, ht, ?_⟩
  refine (fanOut_iff_oneGroup oneClient oneEvent b t "state:s1" 1 hb ht ?_ ?_ ?_).mpr ?_
  · obtain rfl := Option.some.inj hb
    decide
  · obtain rfl := Option.some.inj hb
    obtain rfl := Option.some.inj ht
    decide
  · obtain rfl := Option.some.inj hb
    obtain rfl := Option.some.inj ht
    decide
  · obtain rfl := Option.some.inj hb
    intro c hc d hd _ _
    rw [List.mem_singleton.mp hc, List.mem_singleton.mp hd]

/-- Of two clients one gets the event, and the queue is empty. -/
theorem second_client_misses_event : ¬ ∀ (subscribed is : List Label) (b t : LocalDurableBroker)
    (stream : String) (id : ℕ), exec step start subscribed = some b → exec serve b is = some t →
    b.counter < id → (stream, id) ∈ t.published → queued t id = 0 → FanOut b stream id t := by
  intro h
  have hfan := h twoClients oneEvent _ _ "state:s1" 1 rfl rfl (by decide) (by decide) (by decide)
  have hsecond := hfan ⟨"state:s1", "sse-acme:2", .waiting⟩
    (List.mem_cons_of_mem _ List.mem_cons_self) rfl
  exact absurd hsecond (by decide)

end KernelRuntime.LocalBroker
