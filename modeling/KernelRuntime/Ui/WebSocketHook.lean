import KernelRuntime.Foundations.Execution
import KernelRuntime.Foundations.JsonEncoder

/-! # The WebSocket hook

`useWebSocket` keeps a socket in a ref and makes a new one after a close. A socket opens and closes in a task of its own,
which also runs the handler; a close that has begun leaves the event pending. Which delays the timers have is left out,
and so is what is received. -/

namespace KernelRuntime.Ui
set_option autoImplicit false

/-! ## Messages -/

/-- A JSON value; a number is the text that it is printed as. -/
inductive JsonValue where
  | null
  | bool (b : Bool)
  | number (text : List Char)
  | string (text : List Char)
  | array (items : List JsonValue)
  | object (members : List (List Char × JsonValue))

/-- `QuoteJSONString`, one character of it. -/
def quoteChar (c : Char) : List Char :=
  if c = '"' then ['\\', '"']
  else if c = '\\' then ['\\', '\\']
  else if c = '\n' then ['\\', 'n']
  else if c = '\r' then ['\\', 'r']
  else if c = '\t' then ['\\', 't']
  else if c = Char.ofNat 12 then ['\\', 'f']
  else if c = Char.ofNat 8 then ['\\', 'b']
  else if c.toNat < 32 then Encoder.unicodeEscape c.toNat
  else [c]

def quoteString (text : List Char) : List Char := '"' :: (text.flatMap quoteChar ++ ['"'])

mutual

/-- `JSON.stringify`. -/
def stringify : JsonValue → List Char
  | .null => "null".toList
  | .bool b => if b then "true".toList else "false".toList
  | .number text => text
  | .string text => quoteString text
  | .array items => '[' :: (stringifyItems items ++ [']'])
  | .object members => '\x7b' :: (stringifyMembers members ++ ['\x7d'])

def stringifyItems : List JsonValue → List Char
  | [] => []
  | [item] => stringify item
  | item :: next :: items => stringify item ++ ',' :: stringifyItems (next :: items)

def stringifyMembers : List (List Char × JsonValue) → List Char
  | [] => []
  | [(key, value)] => quoteString key ++ ':' :: stringify value
  | (key, value) :: next :: members => quoteString key ++ ':' :: (stringify value ++ ',' :: stringifyMembers (next :: members))

end

def JsonValue.isString : JsonValue → Bool
  | .string _ => true
  | _ => false

/-- What `sendMessage` sends. -/
def messageText : JsonValue → List Char
  | .string text => text
  | data => stringify data

/-! ## The hook -/

/-- `readyState`. -/
inductive ReadyState where
  | connecting
  | opened
  | closing
  | closed
deriving DecidableEq

def ReadyState.live : ReadyState → Bool
  | .connecting | .opened => true
  | .closing | .closed => false

structure Options where
  autoReconnect : Bool
  maxReconnectAttempts : ℕ

/-- The sockets are all that were made, in order; `ending` counts the close handlers that wait for `onClose`. What was
given to `sendMessage` and what was passed to `send`, each with the message that it stands for, is written down. -/
structure Hook where
  sockets : List ReadyState
  wsRef : Option ℕ
  isConnected : Bool
  isConnecting : Bool
  connectionError : Option String
  attempts : ℕ
  timers : List ℕ
  timerRef : Option ℕ
  nextTimer : ℕ
  ending : ℕ
  queue : List JsonValue
  given : List JsonValue
  sent : List (JsonValue × List Char)

inductive Input where
  | connect (made : Bool)
  | disconnect
  | reconnect (made : Bool)
  | unmount
  | sendMessage (data : JsonValue)
  | opens (i : ℕ)
  | fails (i : ℕ)
  | closes (i : ℕ)
  | closed (i : ℕ)
  | retry
  | timer (t : ℕ) (made : Bool)

namespace Hook

def init : Hook where
  sockets := []
  wsRef := none
  isConnected := false
  isConnecting := false
  connectionError := none
  attempts := 0
  timers := []
  timerRef := none
  nextTimer := 0
  ending := 0
  queue := []
  given := []
  sent := []

/-- `wsRef.current?.readyState`. -/
def refState (s : Hook) : Option ReadyState := s.wsRef.bind fun i => s.sockets[i]?

def clearTimer (s : Hook) : Hook :=
  match s.timerRef with
  | none => s
  | some t => { s with timers := s.timers.erase t, timerRef := none }

/-- The constructor of the socket may throw. -/
def connect (made : Bool) (s : Hook) : Hook :=
  if s.refState = some .opened then s
  else if made then
    { s with
      isConnecting := true, connectionError := none, sockets := s.sockets ++ [.connecting], wsRef := some s.sockets.length }
  else { s with isConnecting := false, connectionError := some "Failed to connect" }

/-- `ws.close()`. -/
def closeAt (sockets : List ReadyState) (i : ℕ) : List ReadyState :=
  match sockets[i]? with
  | some .connecting | some .opened => sockets.set i .closing
  | _ => sockets

def disconnect (o : Options) (s : Hook) : Hook :=
  let s := s.clearTimer
  { s with
    attempts := o.maxReconnectAttempts
    sockets := match s.wsRef with
      | some i => closeAt s.sockets i
      | none => s.sockets
    wsRef := none }

def reconnect (o : Options) (made : Bool) (s : Hook) : Hook := connect made { disconnect o s with attempts := 0 }

def sendMessage (data : JsonValue) (s : Hook) : Hook :=
  if s.refState = some .opened then
    { s with given := s.given ++ [data], sent := s.sent ++ [(data, messageText data)] }
  else { s with given := s.given ++ [data], queue := s.queue ++ [data] }

/-- `onopen`: the queue is sent. -/
def onOpen (i : ℕ) (s : Hook) : Hook :=
  { s with
    sockets := s.sockets.set i .opened
    isConnected := true
    isConnecting := false
    attempts := 0
    sent := s.sent ++ s.queue.map fun data => (data, stringify data)
    queue := [] }

/-- `onclose`, up to the call of the option `onClose`. -/
def onClose (i : ℕ) (s : Hook) : Hook :=
  { s with sockets := s.sockets.set i .closed, isConnected := false, isConnecting := false, ending := s.ending + 1 }

/-- The rest of `onclose`. -/
def afterClose (o : Options) (s : Hook) : Hook :=
  let s := { s with ending := s.ending - 1 }
  if !o.autoReconnect || decide (o.maxReconnectAttempts ≤ s.attempts) then s
  else
    { s with
      attempts := s.attempts + 1
      timers := s.timers ++ [s.nextTimer]
      timerRef := some s.nextTimer
      nextTimer := s.nextTimer + 1 }

def step (o : Options) (s : Hook) : Input → Option Hook
  | .connect made => some (s.connect made)
  | .disconnect => some (s.disconnect o)
  | .reconnect made => some (s.reconnect o made)
  | .unmount => some (s.disconnect o)
  | .sendMessage data => some (s.sendMessage data)
  | .opens i => if s.sockets[i]? = some .connecting then some (s.onOpen i) else none
  | .fails i =>
    if i < s.sockets.length ∧ s.sockets[i]? ≠ some .closed then
      some { s with connectionError := some "Connection failed" }
    else none
  | .closes i => if s.sockets[i]? = some .opened then some { s with sockets := s.sockets.set i .closing } else none
  | .closed i => if i < s.sockets.length ∧ s.sockets[i]? ≠ some .closed then some (s.onClose i) else none
  | .retry => if 0 < s.ending then some (s.afterClose o) else none
  | .timer t made => if t ∈ s.timers then some (connect made { s with timers := s.timers.erase t }) else none

/-! ## Steps -/

section Steps
variable {o : Options} {s : Hook}

theorem of_enabled {c : Prop} [Decidable c] {s t : Hook} (h : (if c then some s else none) = some t) : c ∧ s = t := by
  split_ifs at h with hc
  exact ⟨hc, Option.some.inj h⟩

/-- Nothing but the timers changes. -/
theorem clearTimer_eq (s : Hook) : ∃ timers timerRef, s.clearTimer = { s with timers := timers, timerRef := timerRef } := by
  unfold clearTimer
  split
  · exact ⟨s.timers, s.timerRef, rfl⟩
  · exact ⟨_, _, rfl⟩

theorem disconnect_refState (o : Options) (s : Hook) : (s.disconnect o).refState = none := rfl

theorem disconnect_sockets (o : Options) (s : Hook) : (s.disconnect o).sockets = match s.wsRef with
    | some i => closeAt s.sockets i
    | none => s.sockets := by
  obtain ⟨timers, timerRef, h⟩ := clearTimer_eq s
  unfold disconnect
  rw [h]

theorem disconnect_isConnected (o : Options) (s : Hook) : (s.disconnect o).isConnected = s.isConnected := by
  obtain ⟨timers, timerRef, h⟩ := clearTimer_eq s
  unfold disconnect
  rw [h]

/-- A call of `connect` makes a socket or leaves the sockets alone. -/
theorem connect_cases (made : Bool) (s : Hook) :
    ((s.refState = some .opened ∨ made = false) ∧ (connect made s).sockets = s.sockets ∧
        (connect made s).wsRef = s.wsRef ∧ (connect made s).isConnected = s.isConnected) ∨
      (s.refState ≠ some .opened ∧ made = true) ∧ (connect made s).sockets = s.sockets ++ [.connecting] ∧
        (connect made s).wsRef = some s.sockets.length ∧ (connect made s).isConnected = s.isConnected := by
  unfold connect
  by_cases hopen : s.refState = some .opened
  · rw [if_pos hopen]
    exact Or.inl ⟨Or.inl hopen, rfl, rfl, rfl⟩
  · rw [if_neg hopen]
    cases made with
    | false => exact Or.inl ⟨Or.inr rfl, rfl, rfl, rfl⟩
    | true => exact Or.inr ⟨⟨hopen, rfl⟩, rfl, rfl, rfl⟩

/-- The socket that is closed is closing if it lived, the others stay. -/
theorem getElem?_closeAt (sockets : List ReadyState) (i j : ℕ) : (closeAt sockets i)[j]? =
    if i = j then sockets[j]?.map fun r => if r.live then .closing else r else sockets[j]? := by
  unfold closeAt
  by_cases hij : i = j
  · rw [hij, if_pos rfl]
    cases hj : sockets[j]? with
    | none => simp [hj]
    | some r =>
      have hlt := (List.getElem?_eq_some_iff.mp hj).1
      cases r with
      | connecting => simp [ReadyState.live, hlt]
      | opened => simp [ReadyState.live, hlt]
      | closing => simp [ReadyState.live, hj]
      | closed => simp [ReadyState.live, hj]
  · rw [if_neg hij]
    split
    · rw [List.getElem?_set_ne hij]
    · rw [List.getElem?_set_ne hij]
    · rfl

end Steps

/-! ## One socket -/

/-- The socket is connecting or open. -/
def Live (s : Hook) (i : ℕ) : Prop := ∃ r, s.sockets[i]? = some r ∧ r.live = true

/-- No close event is pending. -/
def Quiet (s : Hook) : Prop := .closing ∉ s.sockets

instance (s : Hook) : Decidable s.Quiet := inferInstanceAs (Decidable (_ ∉ s.sockets))

/-- At most one socket lives, it is the one in the ref, and the flag says whether that is open. -/
structure Consistent (s : Hook) : Prop where
  single : ∀ i j, s.Live i → s.Live j → i = j
  ref : ∀ i, s.Live i → s.wsRef = some i
  flag : s.Quiet → (s.isConnected = true ↔ s.refState = some .opened)

/-- No socket is made while the one in the ref is connecting, and the last pending close event of a socket that is not
in the ref does not come while the one in the ref is open. -/
def Careful (s : Hook) : Input → Prop
  | .connect made => made = true → s.refState ≠ some .connecting
  | .timer t made => t ∈ s.timers → made = true → s.refState ≠ some .connecting
  | .closed i => s.sockets[i]? = some .closing → s.wsRef ≠ some i → s.refState = some .opened →
      .closing ∈ s.sockets.set i .closed
  | _ => True

section Consistent
variable {o : Options} {s t : Hook} {i : ℕ}

theorem Consistent.congr (h : s.Consistent) (hsockets : t.sockets = s.sockets) (href : t.wsRef = s.wsRef)
    (hflag : t.isConnected = s.isConnected) : t.Consistent := by
  have hlive : ∀ i, t.Live i → s.Live i := by
    rintro i ⟨r, hr, hl⟩
    exact ⟨r, hsockets ▸ hr, hl⟩
  refine ⟨fun i j hi hj => h.single i j (hlive i hi) (hlive j hj), fun i hi => ?_, fun hquiet => ?_⟩
  · rw [href, h.ref i (hlive i hi)]
  · have hquiet' : s.Quiet := fun hclosing => hquiet (hsockets.symm ▸ hclosing)
    have hstate : t.refState = s.refState := by
      unfold Hook.refState
      rw [href, hsockets]
    rw [hflag, hstate, h.flag hquiet']

theorem Consistent.refState (h : s.Consistent) (hlive : s.Live i) : ∃ r, s.refState = some r ∧ r.live = true := by
  obtain ⟨r, hr, hl⟩ := hlive
  refine ⟨r, ?_, hl⟩
  unfold Hook.refState
  rw [h.ref i ⟨r, hr, hl⟩, Option.bind_some, hr]

/-- Where one socket changes its state. -/
theorem live_set {r : ReadyState} {j : ℕ} (hsockets : t.sockets = s.sockets.set i r) (h : t.Live j) :
    j = i ∧ r.live = true ∨ j ≠ i ∧ s.Live j := by
  obtain ⟨r', hr', hl⟩ := h
  rw [hsockets] at hr'
  by_cases hij : i = j
  · subst hij
    have hlt : i < s.sockets.length := by simpa using (List.getElem?_eq_some_iff.mp hr').1
    rw [List.getElem?_set_self hlt] at hr'
    exact Or.inl ⟨rfl, Option.some.inj hr' ▸ hl⟩
  · rw [List.getElem?_set_ne hij] at hr'
    exact Or.inr ⟨Ne.symm hij, r', hr', hl⟩

theorem Consistent.connect {made : Bool} (h : s.Consistent) (hcareful : made = true → s.refState ≠ some .connecting) :
    (s.connect made).Consistent := by
  obtain ⟨-, hsockets, href, hflag⟩ | ⟨⟨hopen, hmade⟩, hsockets, href, hflag⟩ := connect_cases made s
  · exact h.congr hsockets href hflag
  · have hnone : ∀ i, ¬ s.Live i := by
      intro i hlive
      obtain ⟨r, hr, hl⟩ := h.refState hlive
      cases r with
      | connecting => exact hcareful hmade hr
      | opened => exact hopen hr
      | closing => cases hl
      | closed => cases hl
    have hlast : ∀ i, (s.connect made).Live i → i = s.sockets.length := by
      rintro i ⟨r, hr, hl⟩
      rw [hsockets] at hr
      by_cases hlt : i < s.sockets.length
      · rw [List.getElem?_append_left hlt] at hr
        exact absurd ⟨r, hr, hl⟩ (hnone i)
      · have hle := (List.getElem?_eq_some_iff.mp hr).1
        rw [List.length_append, List.length_singleton] at hle
        omega
    refine ⟨fun i j hi hj => (hlast i hi).trans (hlast j hj).symm, fun i hi => ?_, fun hquiet => ?_⟩
    · rw [href, hlast i hi]
    · have hquiet' : s.Quiet := by
        intro hclosing
        refine hquiet ?_
        rw [hsockets]
        exact List.mem_append_left _ hclosing
      rw [hflag, h.flag hquiet']
      have hnew : (s.connect made).refState = some .connecting := by
        unfold Hook.refState
        rw [href, hsockets, Option.bind_some, List.getElem?_concat_length]
      rw [hnew]
      exact iff_of_false hopen (by simp)

theorem Consistent.disconnect (h : s.Consistent) : (s.disconnect o).Consistent := by
  have hsockets := disconnect_sockets o s
  have hnone : ∀ j, ¬ (s.disconnect o).Live j := by
    rintro j ⟨r, hr, hl⟩
    rw [hsockets] at hr
    cases hwsRef : s.wsRef with
    | none =>
      rw [hwsRef] at hr
      exact absurd (h.ref j ⟨r, hr, hl⟩) (by simp [hwsRef])
    | some i =>
      rw [hwsRef] at hr
      simp only [getElem?_closeAt] at hr
      split_ifs at hr with hij
      · obtain ⟨r', -, rfl⟩ := Option.map_eq_some_iff.mp hr
        cases r' <;> cases hl
      · have hj := h.ref j ⟨r, hr, hl⟩
        rw [hwsRef] at hj
        exact hij (Option.some.inj hj)
  refine ⟨fun i _ hi _ => absurd hi (hnone i), fun i hi => absurd hi (hnone i), fun hquiet => ?_⟩
  rw [disconnect_refState, disconnect_isConnected]
  have hpending : ∀ j r, s.sockets[j]? = some r → (r = .closing ∨ s.wsRef = some j ∧ r.live = true) → False := by
    intro j r hr hcase
    refine hquiet (List.mem_iff_getElem?.mpr ⟨j, ?_⟩)
    rw [hsockets]
    cases hwsRef : s.wsRef with
    | none =>
      obtain rfl | ⟨hj, -⟩ := hcase
      · exact hr
      · rw [hwsRef] at hj
        cases hj
    | some i =>
      simp only [getElem?_closeAt]
      split_ifs with hij
      · rw [hr, Option.map_some]
        obtain rfl | ⟨-, hl⟩ := hcase
        · rfl
        · rw [if_pos hl]
      · obtain rfl | ⟨hj, -⟩ := hcase
        · exact hr
        · rw [hwsRef] at hj
          exact absurd (Option.some.inj hj) hij
  have hquiet' : s.Quiet := by
    intro hclosing
    obtain ⟨j, hj⟩ := List.mem_iff_getElem?.mp hclosing
    exact hpending j _ hj (Or.inl rfl)
  rw [h.flag hquiet']
  refine iff_of_false (fun hopen => ?_) (by simp)
  obtain ⟨j, hj, hr⟩ := Option.bind_eq_some_iff.mp hopen
  exact hpending j _ hr (Or.inr ⟨hj, rfl⟩)

theorem Consistent.onOpen (h : s.Consistent) (hi : s.sockets[i]? = some .connecting) : (s.onOpen i).Consistent := by
  have hlive : s.Live i := ⟨_, hi, rfl⟩
  have href := h.ref i hlive
  have hlt := (List.getElem?_eq_some_iff.mp hi).1
  have hold : ∀ j, (s.onOpen i).Live j → s.Live j := by
    intro j hj
    obtain ⟨rfl, -⟩ | ⟨-, hj⟩ := live_set (s := s) rfl hj
    · exact hlive
    · exact hj
  refine ⟨fun j k hj hk => h.single j k (hold j hj) (hold k hk), fun j hj => h.ref j (hold j hj), fun _ => ?_⟩
  refine iff_of_true rfl ?_
  unfold Hook.refState Hook.onOpen
  simp only [href, Option.bind_some]
  exact List.getElem?_set_self hlt

theorem Consistent.closes (h : s.Consistent) (hi : s.sockets[i]? = some .opened) :
    Consistent { s with sockets := s.sockets.set i .closing } := by
  have hold : ∀ j, Live { s with sockets := s.sockets.set i .closing } j → s.Live j := by
    intro j hj
    obtain ⟨-, hl⟩ | ⟨-, hj⟩ := live_set (s := s) rfl hj
    · cases hl
    · exact hj
  refine ⟨fun j k hj hk => h.single j k (hold j hj) (hold k hk), fun j hj => h.ref j (hold j hj), fun hquiet => ?_⟩
  exact absurd (List.mem_set (List.getElem?_eq_some_iff.mp hi).1 _) hquiet

theorem Consistent.onClose (h : s.Consistent) (hlt : i < s.sockets.length) (hi : s.sockets[i]? ≠ some .closed)
    (hcareful : s.sockets[i]? = some .closing → s.wsRef ≠ some i → s.refState = some .opened →
      .closing ∈ s.sockets.set i .closed) : (s.onClose i).Consistent := by
  have hold : ∀ j, (s.onClose i).Live j → s.Live j := by
    intro j hj
    obtain ⟨-, hl⟩ | ⟨-, hj⟩ := live_set (s := s) rfl hj
    · cases hl
    · exact hj
  refine ⟨fun j k hj hk => h.single j k (hold j hj) (hold k hk), fun j hj => h.ref j (hold j hj), fun hquiet => ?_⟩
  refine iff_of_false (fun hflag => by cases hflag) fun hopen => ?_
  obtain ⟨j, hj, hr⟩ := Option.bind_eq_some_iff.mp hopen
  change (s.sockets.set i .closed)[j]? = some .opened at hr
  by_cases hij : i = j
  · rw [hij, List.getElem?_set_self (hij ▸ hlt)] at hr
    cases hr
  · rw [List.getElem?_set_ne hij] at hr
    have hwsRef : s.wsRef ≠ some i := fun hw => hij (Option.some.inj (hw.symm.trans hj))
    have hstate : s.sockets[i]? = some .closing := by
      cases hstate : s.sockets[i]? with
      | none => exact absurd (List.getElem?_eq_none_iff.mp hstate) (by omega)
      | some r =>
        cases r with
        | connecting => exact absurd (h.ref i ⟨_, hstate, rfl⟩) hwsRef
        | opened => exact absurd (h.ref i ⟨_, hstate, rfl⟩) hwsRef
        | closing => rfl
        | closed => exact absurd hstate hi
    refine hquiet (hcareful hstate hwsRef ?_)
    unfold Hook.refState
    rw [show s.wsRef = some j from hj, Option.bind_some, hr]

/-- Making a socket beside one that is connecting. -/
theorem not_consistent_connect {made : Bool} (hmade : made = true) (hbusy : s.refState = some .connecting) :
    ¬ (s.connect made).Consistent := by
  intro h
  obtain ⟨i, hi, hr⟩ := Option.bind_eq_some_iff.mp hbusy
  obtain ⟨hsame | hsame, -⟩ | ⟨-, hsockets, -⟩ := connect_cases made s
  · rw [hbusy] at hsame
    cases hsame
  · rw [hmade] at hsame
    cases hsame
  · have hlt := (List.getElem?_eq_some_iff.mp hr).1
    have hold : (s.connect made).Live i := ⟨_, by rw [hsockets, List.getElem?_append_left hlt, hr], rfl⟩
    have hnew : (s.connect made).Live s.sockets.length := ⟨_, by rw [hsockets, List.getElem?_concat_length], rfl⟩
    have hboth := h.single i s.sockets.length hold hnew
    omega

theorem Consistent.step {input : Input} (h : s.Consistent) (hcareful : s.Careful input) (hstep : s.step o input = some t) :
    t.Consistent := by
  cases input with
  | connect made =>
    obtain rfl := Option.some.inj hstep
    exact h.connect hcareful
  | disconnect =>
    obtain rfl := Option.some.inj hstep
    exact h.disconnect
  | reconnect made =>
    obtain rfl := Option.some.inj hstep
    have hshut : Consistent { s.disconnect o with attempts := 0 } := (h.disconnect (o := o)).congr rfl rfl rfl
    exact hshut.connect fun _ hbusy => by cases hbusy
  | unmount =>
    obtain rfl := Option.some.inj hstep
    exact h.disconnect
  | sendMessage data =>
    obtain rfl := Option.some.inj hstep
    unfold sendMessage
    split_ifs
    · exact h.congr rfl rfl rfl
    · exact h.congr rfl rfl rfl
  | opens i =>
    obtain ⟨hi, rfl⟩ := of_enabled hstep
    exact h.onOpen hi
  | fails i =>
    obtain ⟨-, rfl⟩ := of_enabled hstep
    exact h.congr rfl rfl rfl
  | closes i =>
    obtain ⟨hi, rfl⟩ := of_enabled hstep
    exact h.closes hi
  | closed i =>
    obtain ⟨⟨hlt, hi⟩, rfl⟩ := of_enabled hstep
    exact h.onClose hlt hi hcareful
  | retry =>
    obtain ⟨-, rfl⟩ := of_enabled hstep
    unfold afterClose
    simp only
    split_ifs
    · exact h.congr rfl rfl rfl
    · exact h.congr rfl rfl rfl
  | timer timeout made =>
    obtain ⟨hpending, rfl⟩ := of_enabled hstep
    have hsame : Consistent { s with timers := s.timers.erase timeout } := h.congr rfl rfl rfl
    exact hsame.connect (hcareful hpending)

/-- A careless step breaks the consistency. -/
theorem broken_of_careless {input : Input} (hcareless : ¬ s.Careful input) :
    ∃ t, s.step o input = some t ∧ ¬ t.Consistent := by
  cases input with
  | connect made =>
    obtain ⟨hmade, hbusy⟩ := Classical.not_imp.mp hcareless
    exact ⟨_, rfl, not_consistent_connect hmade (not_not.mp hbusy)⟩
  | timer timeout made =>
    obtain ⟨hpending, hrest⟩ := Classical.not_imp.mp hcareless
    obtain ⟨hmade, hbusy⟩ := Classical.not_imp.mp hrest
    exact ⟨_, if_pos hpending, not_consistent_connect hmade (not_not.mp hbusy)⟩
  | closed i =>
    obtain ⟨hclosing, hrest⟩ := Classical.not_imp.mp hcareless
    obtain ⟨hwsRef, hrest⟩ := Classical.not_imp.mp hrest
    obtain ⟨hopen, hquiet⟩ := Classical.not_imp.mp hrest
    have hlt := (List.getElem?_eq_some_iff.mp hclosing).1
    refine ⟨s.onClose i, if_pos ⟨hlt, by simp [hclosing]⟩, fun h => ?_⟩
    obtain ⟨j, hj, hr⟩ := Option.bind_eq_some_iff.mp hopen
    have hij : i ≠ j := by
      rintro rfl
      exact hwsRef hj
    have hstill : (s.onClose i).refState = some .opened := by
      unfold Hook.refState onClose
      simp only [hj, Option.bind_some]
      rw [List.getElem?_set_ne hij, hr]
    exact absurd ((h.flag hquiet).mpr hstill) (by simp [onClose])
  | disconnect => exact absurd trivial hcareless
  | reconnect made => exact absurd trivial hcareless
  | unmount => exact absurd trivial hcareless
  | sendMessage data => exact absurd trivial hcareless
  | opens i => exact absurd trivial hcareless
  | fails i => exact absurd trivial hcareless
  | closes i => exact absurd trivial hcareless
  | retry => exact absurd trivial hcareless

end Consistent

theorem consistent_init : init.Consistent where
  single _ _ hi := by
    obtain ⟨r, hr, -⟩ := hi
    cases hr
  ref _ hi := by
    obtain ⟨r, hr, -⟩ := hi
    cases hr
  flag _ := by decide

/-- **The sockets, the ref and the flag agree throughout a run exactly if no socket is made while the one in the ref is
connecting, and no last close event of a former socket comes while the one in the ref is open.** -/
theorem consistent_iff_careful (o : Options) (inputs : List Input) :
    (∀ js ks t, inputs = js ++ ks → exec (step o) init js = some t → t.Consistent) ↔
      Guarded (step o) Careful init inputs :=
  always_iff_guarded (fun _ _ _ (_ : True) _ => trivial) (fun _ _ _ _ h hcareful hstep => h.step hcareful hstep)
    (fun _ _ _ _ hcareless => broken_of_careless hcareless) trivial consistent_init inputs

def defaults : Options := ⟨true, 5⟩

/-- The close event of the socket that `reconnect` has closed comes after the new one is open. -/
theorem late_close_disconnects : ¬ ∀ (o : Options) (inputs : List Input) (t : Hook),
    exec (step o) init inputs = some t → t.Consistent := by
  intro h
  have hlast := h defaults [.connect true, .opens 0, .reconnect true, .opens 1, .closed 0] _ rfl
  exact absurd hlast.flag (by decide)

end Hook

end KernelRuntime.Ui
