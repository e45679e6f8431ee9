import KernelRuntime.Ui.WebSocketHook

/-! # The messages of the WebSocket hook

A message is sent at once where the socket in the ref is open, and waits in the queue otherwise. -/

namespace KernelRuntime.Ui
set_option autoImplicit false

theorem length_le_quoted (text : List Char) : text.length ≤ (text.flatMap quoteChar).length := by
  induction text with
  | nil => exact Nat.le_refl 0
  | cons c text ih =>
    have hone : 0 < (quoteChar c).length := by
      unfold quoteChar Encoder.unicodeEscape
      split_ifs <;> simp
    rw [List.flatMap_cons, List.length_append, List.length_cons]
    omega

/-- A text is not its own JSON. -/
theorem quoteString_ne (text : List Char) : quoteString text ≠ text := by
  intro h
  have hlength := congrArg List.length h
  have hle := length_le_quoted text
  unfold quoteString at hlength
  rw [List.length_cons, List.length_append, List.length_singleton] at hlength
  omega

theorem stringify_eq_messageText_iff (data : JsonValue) : stringify data = messageText data ↔ data.isString = false := by
  cases data with
  | string text =>
    rw [stringify, messageText]
    exact iff_of_false (quoteString_ne text) (by simp [JsonValue.isString])
  | null => exact iff_of_true rfl rfl
  | bool b => exact iff_of_true rfl rfl
  | number text => exact iff_of_true rfl rfl
  | array items => exact iff_of_true rfl rfl
  | object members => exact iff_of_true rfl rfl

namespace Hook

/-! ## Messages along a run -/

/-- What was sent is the first of what was given, each as `sendMessage` would send it, and all of it where a socket is
open. -/
structure Delivered (s : Hook) : Prop where
  order : s.sent.map Prod.fst <+: s.given
  text : ∀ m ∈ s.sent, m.2 = messageText m.1
  all : .opened ∈ s.sockets → s.sent.map Prod.fst = s.given

/-- Every message that was given was sent or waits, and none waits where the socket in the ref is open. -/
structure Accounted (s : Hook) : Prop where
  kept : s.sent.map Prod.fst ++ s.queue = s.given
  drained : s.refState = some .opened → s.queue = []

/-- No text is in the queue when a socket opens, and nothing is queued while another socket is open. -/
def Punctual (s : Hook) : Input → Prop
  | .opens i => s.sockets[i]? = some .connecting → ∀ data ∈ s.queue, data.isString = false
  | .sendMessage _ => .opened ∈ s.sockets → s.refState = some .opened
  | _ => True

/-- The messages stay, and no socket becomes open. -/
structure Passive (s t : Hook) : Prop where
  queue : t.queue = s.queue
  given : t.given = s.given
  sent : t.sent = s.sent
  refState : t.refState = some .opened → s.refState = some .opened
  sockets : .opened ∈ t.sockets → .opened ∈ s.sockets

section Passive
variable {o : Options} {s t u : Hook}

theorem Passive.trans (h : s.Passive t) (h' : t.Passive u) : s.Passive u where
  queue := h'.queue.trans h.queue
  given := h'.given.trans h.given
  sent := h'.sent.trans h.sent
  refState hu := h.refState (h'.refState hu)
  sockets hu := h.sockets (h'.sockets hu)

/-- Where neither the sockets nor the ref change. -/
theorem Passive.of_eq (hsockets : t.sockets = s.sockets) (href : t.wsRef = s.wsRef) (hqueue : t.queue = s.queue)
    (hgiven : t.given = s.given) (hsent : t.sent = s.sent) : s.Passive t where
  queue := hqueue
  given := hgiven
  sent := hsent
  refState ht := by
    unfold Hook.refState at ht ⊢
    rwa [hsockets, href] at ht
  sockets ht := hsockets ▸ ht

/-- Where a socket ends. -/
theorem Passive.set {i : ℕ} {r : ReadyState} (hr : r ≠ .opened) (hsockets : t.sockets = s.sockets.set i r)
    (href : t.wsRef = s.wsRef) (hqueue : t.queue = s.queue) (hgiven : t.given = s.given) (hsent : t.sent = s.sent) :
    s.Passive t where
  queue := hqueue
  given := hgiven
  sent := hsent
  refState ht := by
    obtain ⟨j, hj, hopen⟩ := Option.bind_eq_some_iff.mp ht
    rw [hsockets] at hopen
    unfold Hook.refState
    rw [← href, hj, Option.bind_some]
    by_cases hij : i = j
    · subst hij
      have hlt := (List.getElem?_eq_some_iff.mp hopen).1
      rw [List.length_set] at hlt
      rw [List.getElem?_set_self hlt] at hopen
      exact absurd (Option.some.inj hopen) hr
    · rwa [List.getElem?_set_ne hij] at hopen
  sockets ht := by
    rw [hsockets] at ht
    exact (List.mem_or_eq_of_mem_set ht).resolve_right hr.symm

theorem passive_connect (made : Bool) (s : Hook) : s.Passive (s.connect made) := by
  unfold connect
  split_ifs with hopen hmade
  · exact Passive.of_eq rfl rfl rfl rfl rfl
  · refine ⟨rfl, rfl, rfl, fun ht => ?_, fun ht => ?_⟩
    · unfold Hook.refState at ht
      simp only [Option.bind_some, List.getElem?_concat_length] at ht
      cases ht
    · exact (List.mem_append.mp ht).resolve_right (by decide)
  · exact Passive.of_eq rfl rfl rfl rfl rfl

theorem passive_disconnect (o : Options) (s : Hook) : s.Passive (s.disconnect o) := by
  obtain ⟨timers, timerRef, hclear⟩ := clearTimer_eq s
  refine ⟨?_, ?_, ?_, fun ht => ?_, fun ht => ?_⟩
  · unfold disconnect
    rw [hclear]
  · unfold disconnect
    rw [hclear]
  · unfold disconnect
    rw [hclear]
  · rw [disconnect_refState] at ht
    cases ht
  · rw [disconnect_sockets] at ht
    cases hwsRef : s.wsRef with
    | none =>
      rw [hwsRef] at ht
      exact ht
    | some i =>
      rw [hwsRef] at ht
      simp only [closeAt] at ht
      split at ht
      · exact (List.mem_or_eq_of_mem_set ht).resolve_right (by decide)
      · exact (List.mem_or_eq_of_mem_set ht).resolve_right (by decide)
      · exact ht

/-- Only an open event and a message that is given touch the messages. -/
theorem passive_step {input : Input} (hopens : ∀ i, input ≠ .opens i) (hsend : ∀ data, input ≠ .sendMessage data)
    (hstep : s.step o input = some t) : s.Passive t := by
  cases input with
  | connect made =>
    obtain rfl := Option.some.inj hstep
    exact passive_connect made s
  | disconnect =>
    obtain rfl := Option.some.inj hstep
    exact passive_disconnect o s
  | reconnect made =>
    obtain rfl := Option.some.inj hstep
    have hreset : (s.disconnect o).Passive { s.disconnect o with attempts := 0 } := Passive.of_eq rfl rfl rfl rfl rfl
    exact ((passive_disconnect o s).trans hreset).trans (passive_connect made _)
  | unmount =>
    obtain rfl := Option.some.inj hstep
    exact passive_disconnect o s
  | sendMessage data => exact absurd rfl (hsend data)
  | opens i => exact absurd rfl (hopens i)
  | fails i =>
    obtain ⟨-, rfl⟩ := of_enabled hstep
    exact Passive.of_eq rfl rfl rfl rfl rfl
  | closes i =>
    obtain ⟨-, rfl⟩ := of_enabled hstep
    exact Passive.set (by decide) rfl rfl rfl rfl rfl
  | closed i =>
    obtain ⟨-, rfl⟩ := of_enabled hstep
    exact Passive.set (r := .closed) (by decide) rfl rfl rfl rfl rfl
  | retry =>
    obtain ⟨-, rfl⟩ := of_enabled hstep
    unfold afterClose
    simp only
    split_ifs
    · exact Passive.of_eq rfl rfl rfl rfl rfl
    · exact Passive.of_eq rfl rfl rfl rfl rfl
  | timer timeout made =>
    obtain ⟨-, rfl⟩ := of_enabled hstep
    have herase : s.Passive { s with timers := s.timers.erase timeout } := Passive.of_eq rfl rfl rfl rfl rfl
    exact herase.trans (passive_connect made _)

end Passive

section Messages
variable {o : Options} {s t : Hook} {input : Input}

theorem Accounted.passive (h : s.Accounted) (ht : s.Passive t) : t.Accounted where
  kept := by rw [ht.sent, ht.queue, ht.given, h.kept]
  drained hopen := by rw [ht.queue, h.drained (ht.refState hopen)]

theorem Accounted.step (h : s.Accounted) (hstep : s.step o input = some t) : t.Accounted := by
  by_cases hopens : ∃ i, input = .opens i
  · obtain ⟨i, rfl⟩ := hopens
    obtain ⟨-, rfl⟩ := of_enabled hstep
    refine ⟨?_, fun _ => rfl⟩
    unfold onOpen
    rw [List.map_append, List.map_map, List.append_nil, ← h.kept]
    simp [Function.comp_def]
  · by_cases hsend : ∃ data, input = .sendMessage data
    · obtain ⟨data, rfl⟩ := hsend
      obtain rfl := Option.some.inj hstep
      unfold sendMessage
      split_ifs with hopen
      · have hempty := h.drained hopen
        have hkept := h.kept
        rw [hempty, List.append_nil] at hkept
        refine ⟨?_, fun _ => hempty⟩
        simp only [List.map_append, List.map_cons, List.map_nil, hempty, List.append_nil, hkept]
      · refine ⟨?_, fun hthen => absurd hthen hopen⟩
        simp only [← List.append_assoc, h.kept]
    · exact h.passive (passive_step (fun i hi => hopens ⟨i, hi⟩) (fun data hdata => hsend ⟨data, hdata⟩) hstep)

theorem Delivered.passive (h : s.Delivered) (ht : s.Passive t) : t.Delivered where
  order := by
    rw [ht.sent, ht.given]
    exact h.order
  text := by
    rw [ht.sent]
    exact h.text
  all hopen := by rw [ht.sent, ht.given, h.all (ht.sockets hopen)]

theorem Delivered.step (hs : s.Accounted) (h : s.Delivered) (hpunctual : s.Punctual input) (hstep : s.step o input = some t) :
    t.Delivered := by
  have ht := hs.step hstep
  have horder : t.sent.map Prod.fst <+: t.given := ⟨t.queue, ht.kept⟩
  by_cases hopens : ∃ i, input = .opens i
  · obtain ⟨i, rfl⟩ := hopens
    obtain ⟨hi, rfl⟩ := of_enabled hstep
    refine ⟨horder, fun m hm => ?_, fun _ => ?_⟩
    · obtain hold | hnew := List.mem_append.mp hm
      · exact h.text m hold
      · obtain ⟨data, hdata, rfl⟩ := List.mem_map.mp hnew
        exact (stringify_eq_messageText_iff data).mpr (hpunctual hi data hdata)
    · have hkept := ht.kept
      rwa [show (s.onOpen i).queue = [] from rfl, List.append_nil] at hkept
  · by_cases hsend : ∃ data, input = .sendMessage data
    · obtain ⟨data, rfl⟩ := hsend
      obtain rfl := Option.some.inj hstep
      refine ⟨horder, ?_, fun hopen => ?_⟩
      · unfold sendMessage
        split_ifs
        · intro m hm
          obtain hold | hnew := List.mem_append.mp hm
          · exact h.text m hold
          · rw [List.mem_singleton.mp hnew]
        · exact h.text
      · have hsockets : (s.sendMessage data).sockets = s.sockets := by
          unfold sendMessage
          split_ifs
          · rfl
          · rfl
        have hready : s.refState = some .opened := hpunctual (hsockets ▸ hopen)
        have hkept := ht.kept
        have hempty : (s.sendMessage data).queue = [] := by
          unfold sendMessage
          rw [if_pos hready]
          exact hs.drained hready
        rwa [hempty, List.append_nil] at hkept
    · exact h.passive (passive_step (fun i hi => hopens ⟨i, hi⟩) (fun data hdata => hsend ⟨data, hdata⟩) hstep)

/-- A text that waited is sent as another text; a message that waits beside an open socket is missing there. -/
theorem undelivered_of_late (hs : s.Accounted) (hlate : ¬ s.Punctual input) :
    ∃ t, s.step o input = some t ∧ ¬ t.Delivered := by
  cases input with
  | opens i =>
    obtain ⟨hi, htext⟩ := Classical.not_imp.mp hlate
    refine ⟨s.onOpen i, if_pos hi, fun h => htext fun data hdata => ?_⟩
    have hm : (data, stringify data) ∈ (s.onOpen i).sent :=
      List.mem_append_right _ (List.mem_map.mpr ⟨data, hdata, rfl⟩)
    exact (stringify_eq_messageText_iff data).mp (h.text _ hm)
  | sendMessage data =>
    obtain ⟨hopen, hready⟩ := Classical.not_imp.mp hlate
    refine ⟨s.sendMessage data, rfl, fun h => ?_⟩
    have hqueued : s.sendMessage data = { s with given := s.given ++ [data], queue := s.queue ++ [data] } := if_neg hready
    rw [hqueued] at h
    have hall := congrArg List.length (h.all hopen)
    have hkept := congrArg List.length hs.kept
    simp only [List.length_append, List.length_map, List.length_cons, List.length_nil] at hall hkept
    omega
  | connect made => exact absurd trivial hlate
  | disconnect => exact absurd trivial hlate
  | reconnect made => exact absurd trivial hlate
  | unmount => exact absurd trivial hlate
  | fails i => exact absurd trivial hlate
  | closes i => exact absurd trivial hlate
  | closed i => exact absurd trivial hlate
  | retry => exact absurd trivial hlate
  | timer timeout made => exact absurd trivial hlate

end Messages

theorem accounted_init : init.Accounted := ⟨rfl, fun _ => rfl⟩

theorem delivered_init : init.Delivered := ⟨List.prefix_refl _, nofun, nofun⟩

/-- Whatever the schedule is, no message is lost, repeated or overtaken. -/
theorem accounted_run {o : Options} {inputs : List Input} {t : Hook} (hrun : exec (step o) init inputs = some t) :
    t.Accounted :=
  exec_invariant_all (fun _ _ _ h hstep => h.step hstep) accounted_init hrun

/-- **Messages are delivered throughout a run exactly if no text waits when a socket opens, and nothing is given while a
socket is open that is not the one in the ref.** -/
theorem delivered_iff_punctual (o : Options) (inputs : List Input) :
    (∀ js ks t, inputs = js ++ ks → exec (step o) init js = some t → t.Delivered) ↔
      Guarded (step o) Punctual init inputs := by
  have hkeep : ∀ s input t, Accounted s → step o s input = some t → Accounted t := fun _ _ _ h hstep => h.step hstep
  exact always_iff_guarded hkeep (fun _ _ _ hs h hpunctual hstep => h.step hs hpunctual hstep)
    (fun _ _ hs _ hlate => undelivered_of_late hs hlate) accounted_init delivered_init inputs

/-- A text that is given before the socket opens is sent in quotes. -/
theorem queued_text_quoted : ¬ ∀ (o : Options) (inputs : List Input) (t : Hook),
    exec (step o) init inputs = some t → t.Delivered := by
  intro h
  have hlast := h defaults [.connect true, .sendMessage (.string ['a']), .opens 0] _ rfl
  have htext := hlast.text (.string ['a'], quoteString ['a']) List.mem_cons_self
  exact quoteString_ne ['a'] htext

end Hook
end KernelRuntime.Ui
