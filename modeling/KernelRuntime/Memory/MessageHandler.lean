import Mathlib.Data.List.Sort
import KernelRuntime.Memory.SessionContext

/-! # The messages of a context, over all calls

`MessageHandler.add_message` for any `max_recent`: what leaves the recent messages becomes a window.
The windows and the recent messages are together the whole conversation in its order. The background
tasks change the summaries and the topics only, and are left out with them. -/

namespace KernelRuntime.ContextPersistence
set_option autoImplicit false

/-! ## Slices -/

section Slices
variable {α : Type}

/-- Where a bound of a slice is; a negative one counts from the end. -/
def sliceBound (xs : List α) (i : ℤ) : ℕ := if i < 0 then (xs.length + i).toNat else i.toNat

/-- `xs[:i]`. -/
def sliceTo (xs : List α) (i : ℤ) : List α := xs.take (sliceBound xs i)

/-- `xs[i:]`. -/
def sliceFrom (xs : List α) (i : ℤ) : List α := xs.drop (sliceBound xs i)

theorem sliceTo_append_sliceFrom (xs : List α) (i : ℤ) : sliceTo xs i ++ sliceFrom xs i = xs :=
  List.take_append_drop _ _

theorem sliceFrom_suffix (xs : List α) (i : ℤ) : sliceFrom xs i <:+ xs := List.drop_suffix _ _

theorem length_sliceFrom_neg (xs : List α) {i : ℤ} (hi : 1 ≤ i) :
    (sliceFrom xs (-i)).length = min i.toNat xs.length := by
  rw [sliceFrom, List.length_drop, sliceBound, if_pos (by omega)]
  omega

end Slices

/-! ## Handlers -/

structure MessageHandler where
  maxRecent : ℤ
  summaryThreshold : ℤ

/-- The window that is made of the old messages, if there are any. -/
def newWindows : List Message → List ContextWindow
  | [] => []
  | first :: rest => [createWindow first rest]

/-- The list of recent messages and the windows, after `message` was appended. -/
def MessageHandler.keepRecent (handler : MessageHandler) (context : SessionContext) (message : Message) :
    SessionContext :=
  let recent := context.recentMessages ++ [message]
  if handler.maxRecent < recent.length then
    { context with
      recentMessages := sliceFrom recent (-handler.maxRecent)
      windows := context.windows ++ newWindows (sliceTo recent (-handler.maxRecent)) }
  else { context with recentMessages := recent }

/-- `MessageHandler.add_message`: the record or the exception, and the context afterwards. -/
def MessageHandler.addMessage (handler : MessageHandler) (context : SessionContext) (args : NewMessage) :
    Except PyError Message × SessionContext :=
  let message := newRecord context args
  let context := handler.keepRecent { context with lastSequence := message.sequence } message
  let context := { context with totalMessages := context.totalMessages + 1, isDirty := true }
  -- the last statement divides by the threshold, when everything else is done
  (if handler.summaryThreshold = 0 then .error ⟨.other, "integer modulo by zero"⟩ else .ok message, context)

def MessageHandler.addMessages (handler : MessageHandler) (context : SessionContext)
    (calls : List NewMessage) : SessionContext :=
  calls.foldl (fun context args => (handler.addMessage context args).2) context

def MessageHandler.addedMessages (handler : MessageHandler) (context : SessionContext) :
    List NewMessage → List Message
  | [] => []
  | args :: calls =>
    newRecord context args :: handler.addedMessages (handler.addMessage context args).2 calls

/-- The messages of the windows and the recent ones. -/
def SessionContext.allMessages (context : SessionContext) : List Message :=
  context.windows.flatMap ContextWindow.messages ++ context.recentMessages

/-- `ContextBuilder.build_for_ui`. -/
def buildForUi (context : SessionContext) (limit : ℤ) : List Message :=
  sliceFrom (context.allMessages.insertionSort fun a b => a.sequence ≤ b.sequence) (-limit)

/-- The handler of the manager. -/
theorem handleMessage_eq (context : SessionContext) (args : NewMessage) :
    (handleMessage context args).2 = ((⟨maxRecent, 100⟩ : MessageHandler).addMessage context args).2 := by
  have hbound : ∀ xs : List Message, sliceBound xs (-(maxRecent : ℤ)) = xs.length - maxRecent := by
    intro xs
    rw [sliceBound, if_pos (by decide), maxRecent]
    omega
  have hwindows : (handleMessage context args).2.windows =
      context.windows ++ newWindows (oldMessages (context.recentMessages ++ [newRecord context args])) := by
    simp only [handleMessage]
    cases oldMessages (context.recentMessages ++ [newRecord context args]) with
    | nil => exact (List.append_nil _).symm
    | cons first rest => rfl
  have hhandled : (handleMessage context args).2 = { (handleMessage context args).2 with
      windows := context.windows ++
        newWindows (oldMessages (context.recentMessages ++ [newRecord context args])) } := by
    rw [← hwindows]
  rw [hhandled]
  simp only [handleMessage, MessageHandler.addMessage, MessageHandler.keepRecent, sliceTo, sliceFrom, hbound,
    oldMessages]
  split_ifs with hlong
  · rfl
  · have hshort : (context.recentMessages ++ [newRecord context args]).length - maxRecent = 0 := by omega
    simp only [hshort, List.take_zero, List.drop_zero, newWindows, List.append_nil]

namespace MessageHandler
variable {handler : MessageHandler}

/-! ## One call -/

theorem keepRecent_long {context : SessionContext} {m : Message}
    (h : handler.maxRecent < (context.recentMessages ++ [m]).length) :
    handler.keepRecent context m =
      { context with
        recentMessages := sliceFrom (context.recentMessages ++ [m]) (-handler.maxRecent)
        windows := context.windows ++
          newWindows (sliceTo (context.recentMessages ++ [m]) (-handler.maxRecent)) } := if_pos h

theorem keepRecent_short {context : SessionContext} {m : Message}
    (h : ¬handler.maxRecent < (context.recentMessages ++ [m]).length) :
    handler.keepRecent context m = { context with recentMessages := context.recentMessages ++ [m] } :=
  if_neg h

theorem flatMap_newWindows (old : List Message) :
    (newWindows old).flatMap ContextWindow.messages = old := by
  cases old with
  | nil => rfl
  | cons first rest => exact List.append_nil _

theorem allMessages_keepRecent (context : SessionContext) (m : Message) :
    (handler.keepRecent context m).allMessages = context.allMessages ++ [m] := by
  unfold SessionContext.allMessages
  by_cases hlong : handler.maxRecent < (context.recentMessages ++ [m]).length
  · rw [keepRecent_long hlong, List.flatMap_append, flatMap_newWindows, List.append_assoc,
      sliceTo_append_sliceFrom, List.append_assoc]
  · rw [keepRecent_short hlong, List.append_assoc]

theorem length_keepRecent (hmax : 1 ≤ handler.maxRecent) (context : SessionContext) (m : Message) :
    ((handler.keepRecent context m).recentMessages.length : ℤ) ≤ handler.maxRecent := by
  by_cases hlong : handler.maxRecent < (context.recentMessages ++ [m]).length
  · rw [keepRecent_long hlong]
    show ((sliceFrom (context.recentMessages ++ [m]) (-handler.maxRecent)).length : ℤ) ≤ _
    rw [length_sliceFrom_neg _ hmax]
    omega
  · rw [keepRecent_short hlong]
    exact not_lt.mp hlong

end MessageHandler

/-- The window is not empty, and has the numbers of its first and its last message. -/
structure ContextWindow.Spans (window : ContextWindow) : Prop where
  nonempty : window.messages ≠ []
  first : (window.messages.head nonempty).sequence = window.startSequence
  last : (window.messages.getLast nonempty).sequence = window.endSequence

theorem createWindow_spans (first : Message) (rest : List Message) : (createWindow first rest).Spans := by
  refine ⟨List.cons_ne_nil _ _, rfl, ?_⟩
  show ((first :: rest).getLast _).sequence = (rest.getLastD first).sequence
  rw [List.getLast_eq_getLastD]

theorem spans_newWindows (old : List Message) : ∀ window ∈ newWindows old, window.Spans := by
  cases old with
  | nil => simp [newWindows]
  | cons first rest =>
    intro window hwindow
    rw [List.mem_singleton.mp hwindow]
    exact createWindow_spans first rest

/-- The conversation is in the order of its numbers, none above `last_sequence`. -/
structure SessionContext.Ordered (context : SessionContext) : Prop where
  increasing : context.allMessages.Pairwise fun a b => a.sequence < b.sequence
  bounded : ∀ m ∈ context.allMessages, m.sequence ≤ context.lastSequence
  windows : ∀ window ∈ context.windows, window.Spans

namespace MessageHandler
variable {handler : MessageHandler}

theorem spans_keepRecent {context : SessionContext} (h : ∀ window ∈ context.windows, window.Spans)
    (m : Message) : ∀ window ∈ (handler.keepRecent context m).windows, window.Spans := by
  by_cases hlong : handler.maxRecent < (context.recentMessages ++ [m]).length
  · rw [keepRecent_long hlong]
    intro window hwindow
    cases List.mem_append.mp hwindow with
    | inl hkept => exact h window hkept
    | inr hnew => exact spans_newWindows _ window hnew
  · rw [keepRecent_short hlong]
    exact h

theorem allMessages_addMessage (context : SessionContext) (args : NewMessage) :
    (handler.addMessage context args).2.allMessages = context.allMessages ++ [newRecord context args] :=
  allMessages_keepRecent { context with lastSequence := context.lastSequence + 1 } (newRecord context args)

theorem lastSequence_addMessage (context : SessionContext) (args : NewMessage) :
    (handler.addMessage context args).2.lastSequence = context.lastSequence + 1 := by
  show (handler.keepRecent { context with lastSequence := context.lastSequence + 1 }
    (newRecord context args)).lastSequence = _
  unfold keepRecent
  dsimp only
  split_ifs <;> rfl

theorem ordered_addMessage {context : SessionContext} (h : context.Ordered) (args : NewMessage) :
    (handler.addMessage context args).2.Ordered := by
  have habove : ∀ m ∈ context.allMessages, m.sequence < (newRecord context args).sequence := by
    intro m hm
    have := h.bounded m hm
    show m.sequence < context.lastSequence + 1
    omega
  constructor
  · rw [allMessages_addMessage, List.pairwise_append]
    refine ⟨h.increasing, List.pairwise_singleton _ _, fun a ha b hb => ?_⟩
    rw [List.mem_singleton.mp hb]
    exact habove a ha
  · rw [allMessages_addMessage, lastSequence_addMessage]
    intro m hm
    cases List.mem_append.mp hm with
    | inl hm => exact (habove m hm).le
    | inr hm => rw [List.mem_singleton.mp hm]; exact le_rfl
  · have hspans : ∀ window ∈ ({ context with lastSequence := context.lastSequence + 1 } :
        SessionContext).windows, window.Spans := h.windows
    exact spans_keepRecent hspans (newRecord context args)

/-! ## All calls -/

theorem addMessages_append (context : SessionContext) (calls calls' : List NewMessage) :
    handler.addMessages context (calls ++ calls') =
      handler.addMessages (handler.addMessages context calls) calls' := List.foldl_append ..

theorem allMessages_addMessages (context : SessionContext) (calls : List NewMessage) :
    (handler.addMessages context calls).allMessages =
      context.allMessages ++ handler.addedMessages context calls := by
  induction calls generalizing context with
  | nil => exact (List.append_nil _).symm
  | cons args calls ih =>
    have hrest := ih (handler.addMessage context args).2
    rw [allMessages_addMessage, List.append_assoc] at hrest
    exact hrest

theorem ordered_addMessages {context : SessionContext} (h : context.Ordered) (calls : List NewMessage) :
    (handler.addMessages context calls).Ordered := by
  induction calls generalizing context with
  | nil => exact h
  | cons args calls ih => exact ih (ordered_addMessage h args)

end MessageHandler

/-- On an ordered context the sort changes nothing: the end of the conversation is shown. -/
theorem buildForUi_eq {context : SessionContext} (h : context.Ordered) (limit : ℤ) :
    buildForUi context limit = sliceFrom context.allMessages (-limit) := by
  have hle : context.allMessages.Pairwise fun a b => a.sequence ≤ b.sequence :=
    h.increasing.imp fun hlt => hlt.le
  rw [buildForUi, hle.insertionSort_eq]

/-- The context holds `messages` and shows their end. -/
structure SessionContext.Keeps (context : SessionContext) (maxRecent : ℤ) (messages : List Message) :
    Prop where
  all : context.windows.flatMap ContextWindow.messages ++ context.recentMessages = messages
  increasing : messages.Pairwise fun a b => a.sequence < b.sequence
  recent : context.recentMessages.length ≤ maxRecent
  windows : ∀ window ∈ context.windows, window.Spans
  shown : ∀ limit : ℤ, 1 ≤ limit → buildForUi context limit <:+ messages ∧
    (buildForUi context limit).length = min limit.toNat messages.length

/-- **No message is lost, doubled or moved, whatever is in the recent messages at the start.** -/
theorem MessageHandler.addMessages_keeps (handler : MessageHandler) (hmax : 1 ≤ handler.maxRecent)
    (context : SessionContext) (hwindows : context.windows = [])
    (hincreasing : context.recentMessages.Pairwise fun a b => a.sequence < b.sequence)
    (hlast : ∀ m ∈ context.recentMessages, m.sequence ≤ context.lastSequence)
    (calls : List NewMessage) (hcalls : calls ≠ []) :
    (handler.addMessages context calls).Keeps handler.maxRecent
      (context.recentMessages ++ handler.addedMessages context calls) := by
  have hall : context.allMessages = context.recentMessages := by
    rw [SessionContext.allMessages, hwindows]
    rfl
  have hstart : context.Ordered := by
    refine ⟨hall ▸ hincreasing, hall ▸ hlast, ?_⟩
    simp [hwindows]
  have hordered : (handler.addMessages context calls).Ordered := ordered_addMessages hstart calls
  have hmessages : (handler.addMessages context calls).allMessages =
      context.recentMessages ++ handler.addedMessages context calls := by
    rw [allMessages_addMessages, hall]
  refine ⟨hmessages, hmessages ▸ hordered.increasing, ?_, hordered.windows, fun limit hlimit => ?_⟩
  · -- the last call leaves at most `max_recent`
    obtain ⟨before, args, rfl⟩ := List.eq_nil_or_concat' calls |>.resolve_left hcalls
    rw [addMessages_append]
    exact length_keepRecent hmax _ _
  · rw [buildForUi_eq hordered, hmessages]
    exact ⟨sliceFrom_suffix _ _, length_sliceFrom_neg _ hlimit⟩

/-- A context of three messages, as it is loaded, for a handler that keeps two. -/
def loadedContext : SessionContext where
  sessionId := "s1"
  userId := "u1"
  recentMessages := [1, 2, 3].map fun n => ⟨n, "user", "go on", none, none, none⟩
  lastSequence := 3
  totalMessages := 3

theorem MessageHandler.addMessages_keeps_loaded :
    ((⟨2, 100⟩ : MessageHandler).addMessages loadedContext [⟨"user", "stop", none, none, none⟩]).Keeps 2
      (loadedContext.recentMessages ++
        (⟨2, 100⟩ : MessageHandler).addedMessages loadedContext [⟨"user", "stop", none, none, none⟩]) :=
  MessageHandler.addMessages_keeps ⟨2, 100⟩ (by decide) loadedContext rfl (by decide) (by decide) _ (by simp)

end KernelRuntime.ContextPersistence
