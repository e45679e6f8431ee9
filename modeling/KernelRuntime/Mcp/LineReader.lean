import KernelRuntime.Foundations.LineStream
import KernelRuntime.Foundations.Utf8
import KernelRuntime.Mcp.StdioProtocol

/-! # The messages of a stdio server

`StdinStdoutWriter.read_line` takes lines from the standard output of the server until one is a JSON object.
A line is decoded before anything else is asked of it. -/

namespace KernelRuntime.LineReader
set_option autoImplicit false

open LineStream

/-- `line.strip()`. -/
def stripped (text : String) : String := String.ofList (Gvfs.strip text.toList)

/-- `line.startswith("\x7b")`. -/
def startsBrace (line : String) : Bool := "\x7b".toList.isPrefixOf line.toList

/-- What the loop of `read_line` does with a line. -/
inductive LineOutcome where
  | returns (line : String)
  | skips
  | raises
deriving DecidableEq

/-- A turn of the loop. -/
def takeLine (refuses : String → Bool) (bytes : List UInt8) : LineOutcome :=
  match decodeUtf8 bytes with
  | none => .raises
  | some text =>
    let line := stripped text
    if line = "" then .skips
    else if startsBrace line then
      match jsonLoads refuses line with
      | .ok _ => .returns line
      | .error .malformed => .skips
      | .error .refused => .raises
    else .skips

/-- How a call of `read_line` ends. `raised` is an error that is no `MCPProtocolError`. -/
inductive ReadEnd where
  | returned (line : String)
  | timedOut
  | closed
  | raised
deriving DecidableEq

/-- `StdinStdoutWriter.read_line`, with `fuel` turns of its loop. -/
def readLine (refuses : String → Bool) (limit : ℕ) : ℕ → LineStream → Option (ReadEnd × LineStream)
  | 0, _ => none
  | fuel + 1, s =>
    match readline limit s.buffer s.incoming with
    | (.timeout, s) => some (.timedOut, s)
    | (.overlong, s) => some (.raised, s)
    | (.line bytes, s) =>
      if bytes = [] then some (.closed, s)
      else
        match takeLine refuses bytes with
        | .returns line => some (.returned line, s)
        | .skips => readLine refuses limit fuel s
        | .raises => some (.raised, s)

/-- One call of `read_line` after the other, until the output is closed. -/
def session (refuses : String → Bool) (limit : ℕ) : ℕ → LineStream → Option (List ReadEnd)
  | 0, _ => none
  | fuel + 1, s =>
    match readLine refuses limit (s.size + 1) s with
    | none => none
    | some (.closed, _) => some [.closed]
    | some (outcome, s) => (session refuses limit fuel s).map (outcome :: ·)

/-! ## Messages and noise -/

/-- The JSON object that a line is, white space around it stripped; nothing where the line is noise. -/
def jsonLine (line : List UInt8) : Option String :=
  match decodeUtf8 (line ++ [newline]) with
  | none => none
  | some text =>
    match Decoder.decode (stripped text) with
    | some (.obj _) => some (stripped text)
    | _ => none

/-- Calls of `read_line` return the JSON objects of the output in their order, and then find it closed. Only
the pauses in it make them raise before. -/
def ReadsMessages (refuses : String → Bool) (limit : ℕ) (lines : List (List UInt8)) (incoming : List Arrival) :
    Prop :=
  ∃ outcomes, session refuses limit ((⟨[], incoming⟩ : LineStream).size + 1) ⟨[], incoming⟩ = some outcomes ∧
    outcomes.filter (fun outcome => decide (outcome ≠ .timedOut)) =
      (lines.filterMap jsonLine).map .returned ++ [.closed] ∧
    outcomes.count .timedOut = stallsOf incoming

/-- The line fits in the buffer of the stream, is UTF-8, and `json.loads` gets through it where it is asked. -/
structure Readable (refuses : String → Bool) (limit : ℕ) (line : List UInt8) : Prop where
  fits : line.length ≤ limit
  decodes : ∃ text, decodeUtf8 (line ++ [newline]) = some text ∧
    (startsBrace (stripped text) = true → refuses (stripped text) = false)

/-! ## Objects and braces -/

theorem head_stripped {c : Char} {cs : List Char} {text : String} (h : (stripped text).toList = c :: cs) :
    Gvfs.isWhitespace c = false := by
  unfold stripped Gvfs.strip at h
  rw [String.toList_ofList] at h
  generalize hfront : text.toList.dropWhile Gvfs.isWhitespace = front at h
  obtain ⟨back, hback⟩ : ∃ back, front = c :: cs ++ back := by
    have hsuffix := List.dropWhile_suffix Gvfs.isWhitespace (l := front.reverse)
    obtain ⟨back, hback⟩ := hsuffix
    refine ⟨back.reverse, ?_⟩
    rw [← h, ← List.reverse_append, hback, List.reverse_reverse]
  have hhead := List.head?_dropWhile_not Gvfs.isWhitespace text.toList
  rw [hfront, hback] at hhead
  simpa using hhead

theorem skipSpace_stripped (text : String) :
    Decoder.skipSpace (stripped text).toList = (stripped text).toList := by
  cases hcs : (stripped text).toList with
  | nil => rfl
  | cons c cs =>
    have hhead := head_stripped hcs
    unfold Decoder.skipSpace
    rw [if_neg]
    rintro (rfl | rfl | rfl | rfl) <;> exact absurd hhead (by decide)

theorem value_brace {fuel : ℕ} {cs rest : List Char} {v : Json}
    (h : Decoder.value fuel ('\x7b' :: cs) = some (v, rest)) : ∃ fields, v = .obj fields := by
  cases fuel with
  | zero => cases h
  | succ fuel =>
    unfold Decoder.value at h
    rw [if_neg (by decide), if_neg (by decide), if_pos rfl] at h
    split at h
    · cases h
      exact ⟨[], rfl⟩
    · obtain ⟨r, _, hr⟩ := Option.map_eq_some_iff.mp h
      exact ⟨r.1, (Prod.mk.inj hr).1.symm⟩

theorem number_ne_obj {negative : Bool} {cs rest : List Char} {fields : Fields} :
    Decoder.number negative cs ≠ some (.obj fields, rest) := by
  intro h
  unfold Decoder.number at h
  simp only at h
  split_ifs at h <;> cases h

theorem word_ne_obj {cs rest : List Char} {fields : Fields} : Decoder.word cs ≠ some (.obj fields, rest) := by
  intro h
  obtain ⟨w, hw, hdrop⟩ := List.exists_of_findSome?_eq_some h
  obtain ⟨_, _, heq⟩ := Option.map_eq_some_iff.mp hdrop
  have hnone : ∀ w ∈ Decoder.words, ∀ fields, w.2 ≠ Json.obj fields := by
    intro w hw fields hobj
    simp only [Decoder.words, List.mem_cons, List.not_mem_nil, or_false] at hw
    rcases hw with rfl | rfl | rfl | rfl | rfl | rfl <;> cases hobj
  exact hnone w hw fields (Prod.mk.inj heq).1

theorem value_obj {fuel : ℕ} {cs rest : List Char} {fields : Fields}
    (h : Decoder.value fuel cs = some (.obj fields, rest)) : ∃ more, cs = '\x7b' :: more := by
  cases fuel with
  | zero => cases h
  | succ fuel =>
    cases cs with
    | nil => cases h
    | cons c cs =>
      unfold Decoder.value at h
      by_cases hquote : c = '"'
      · rw [if_pos hquote] at h
        obtain ⟨r, _, hr⟩ := Option.map_eq_some_iff.mp h
        cases (Prod.mk.inj hr).1
      rw [if_neg hquote] at h
      by_cases hbracket : c = '['
      · rw [if_pos hbracket] at h
        split at h
        · cases h
        · obtain ⟨r, _, hr⟩ := Option.map_eq_some_iff.mp h
          cases (Prod.mk.inj hr).1
      rw [if_neg hbracket] at h
      by_cases hbrace : c = '\x7b'
      · exact ⟨cs, by rw [hbrace]⟩
      rw [if_neg hbrace] at h
      cases hword : Decoder.word (c :: cs) with
      | some r =>
        simp only [hword] at h
        exact absurd (hword.trans h) word_ne_obj
      | none =>
        simp only [hword] at h
        split_ifs at h
        · exact absurd h number_ne_obj
        · exact absurd h number_ne_obj

theorem decode_eq_some {text : String} {v : Json} (h : Decoder.decode text = some v) :
    ∃ fuel rest, Decoder.value fuel (Decoder.skipSpace text.toList) = some (v, rest) := by
  unfold Decoder.decode at h
  cases hvalue : Decoder.value (2 * text.toList.length + 2) (Decoder.skipSpace text.toList) with
  | none => simp [hvalue] at h
  | some r =>
    simp only [hvalue] at h
    split_ifs at h
    cases h
    exact ⟨_, _, hvalue⟩

theorem decode_brace {text : String} {v : Json} (hbrace : startsBrace (stripped text) = true)
    (h : Decoder.decode (stripped text) = some v) : ∃ fields, v = .obj fields := by
  obtain ⟨fuel, rest, hvalue⟩ := decode_eq_some h
  rw [skipSpace_stripped] at hvalue
  obtain ⟨cs, hcs⟩ := List.isPrefixOf_iff_prefix.mp hbrace
  rw [← hcs] at hvalue
  exact value_brace hvalue

theorem startsBrace_of_obj {text : String} {fields : Fields} (h : Decoder.decode (stripped text) = some (.obj fields)) :
    startsBrace (stripped text) = true := by
  obtain ⟨fuel, rest, hvalue⟩ := decode_eq_some h
  rw [skipSpace_stripped] at hvalue
  obtain ⟨cs, hcs⟩ := value_obj hvalue
  unfold startsBrace
  rw [hcs]
  rfl

/-! ## One line -/

theorem jsonLine_eq {line : List UInt8} {text : String} (h : decodeUtf8 (line ++ [newline]) = some text) :
    jsonLine line = match Decoder.decode (stripped text) with
      | some (.obj _) => some (stripped text)
      | _ => none := by
  unfold jsonLine
  rw [h]

theorem takeLine_readable {refuses : String → Bool} {limit : ℕ} {line : List UInt8}
    (h : Readable refuses limit line) :
    takeLine refuses (line ++ [newline]) =
      match jsonLine line with
      | some text => .returns text
      | none => .skips := by
  obtain ⟨text, htext, hrefuses⟩ := h.decodes
  rw [jsonLine_eq htext]
  unfold takeLine
  simp only [htext]
  by_cases hbrace : startsBrace (stripped text) = true
  · have hne : stripped text ≠ "" := by
      intro h
      rw [h] at hbrace
      exact absurd hbrace (by decide)
    unfold jsonLoads
    rw [if_neg hne, if_pos hbrace, hrefuses hbrace, if_neg Bool.false_ne_true]
    cases hloads : Decoder.decode (stripped text) with
    | none => rfl
    | some v =>
      obtain ⟨fields, rfl⟩ := decode_brace hbrace hloads
      rfl
  · rw [if_neg hbrace, ite_self]
    cases hloads : Decoder.decode (stripped text) with
    | none => rfl
    | some v =>
      cases v with
      | obj fields => exact absurd (startsBrace_of_obj hloads) hbrace
      | _ => rfl

theorem takeLine_raises {refuses : String → Bool} {limit : ℕ} {line : List UInt8} (hfits : line.length ≤ limit)
    (h : ¬ Readable refuses limit line) : takeLine refuses (line ++ [newline]) = .raises := by
  unfold takeLine
  cases htext : decodeUtf8 (line ++ [newline]) with
  | none => rfl
  | some text =>
    have hrefused : startsBrace (stripped text) = true ∧ refuses (stripped text) = true := by
      by_contra hnot
      refine h ⟨hfits, text, htext, fun hbrace => ?_⟩
      exact Bool.eq_false_iff.mpr fun hrefuses => hnot ⟨hbrace, hrefuses⟩
    have hne : stripped text ≠ "" := by
      intro h
      rw [h] at hrefused
      exact absurd hrefused.1 (by decide)
    unfold jsonLoads
    simp only [if_neg hne, if_pos hrefused.1, if_pos hrefused.2]

/-! ## One call -/

/-- The stream carries these lines, however they arrive. -/
structure Carries (s : LineStream) (lines : List (List UInt8)) : Prop where
  remaining : s.remaining = join lines
  breaks : ∀ line ∈ lines, newline ∉ line

def AllReadable (refuses : String → Bool) (limit : ℕ) (lines : List (List UInt8)) : Prop :=
  ∀ line ∈ lines, Readable refuses limit line

/-- How a call of `read_line` ends while the stream carries `lines`. -/
inductive Reads (refuses : String → Bool) (limit : ℕ) (s : LineStream) (lines : List (List UInt8)) :
    ReadEnd → LineStream → Prop where
  | timedOut {s' : LineStream} {rest : List (List UInt8)} (carries : Carries s' rest)
      (readable : AllReadable refuses limit rest ↔ AllReadable refuses limit lines)
      (messages : lines.filterMap jsonLine = rest.filterMap jsonLine)
      (stalls : stallsOf s.incoming = stallsOf s'.incoming + 1) (less : s'.size < s.size) :
      Reads refuses limit s lines .timedOut s'
  | returned {s' : LineStream} {rest : List (List UInt8)} {text : String} (carries : Carries s' rest)
      (readable : AllReadable refuses limit rest ↔ AllReadable refuses limit lines)
      (messages : lines.filterMap jsonLine = text :: rest.filterMap jsonLine)
      (stalls : stallsOf s.incoming = stallsOf s'.incoming) (less : s'.size < s.size) :
      Reads refuses limit s lines (.returned text) s'
  | raised {s' : LineStream} (unreadable : ¬ AllReadable refuses limit lines) : Reads refuses limit s lines .raised s'
  | closed {s' : LineStream} (readable : AllReadable refuses limit lines)
      (messages : lines.filterMap jsonLine = []) (stalls : stallsOf s.incoming = 0) :
      Reads refuses limit s lines .closed s'

theorem Carries.of_nil {s : LineStream} (h : Carries s []) : s.buffer = [] ∧ bytesOf s.incoming = [] :=
  List.append_eq_nil_iff.mp h.remaining

theorem Carries.tail {s s' : LineStream} {line : List UInt8} {lines : List (List UInt8)}
    (h : Carries s (line :: lines)) (hrest : s'.remaining = join lines) : Carries s' lines :=
  ⟨hrest, fun line' hline' => h.breaks line' (List.mem_cons_of_mem _ hline')⟩

theorem allReadable_cons {refuses : String → Bool} {limit : ℕ} {line : List UInt8} {lines : List (List UInt8)} :
    AllReadable refuses limit (line :: lines) ↔ Readable refuses limit line ∧ AllReadable refuses limit lines :=
  List.forall_mem_cons

/-- A line of noise before the others changes nothing but the way to them. -/
theorem Reads.skip {refuses : String → Bool} {limit : ℕ} {s s₁ s' : LineStream} {line : List UInt8}
    {lines : List (List UInt8)} {outcome : ReadEnd} (hline : Readable refuses limit line)
    (hnoise : jsonLine line = none) (hstalls : stallsOf s.incoming = stallsOf s₁.incoming) (hless : s₁.size < s.size)
    (h : Reads refuses limit s₁ lines outcome s') : Reads refuses limit s (line :: lines) outcome s' := by
  have hall : AllReadable refuses limit (line :: lines) ↔ AllReadable refuses limit lines :=
    allReadable_cons.trans (and_iff_right hline)
  have hmessages : (line :: lines).filterMap jsonLine = lines.filterMap jsonLine := List.filterMap_cons_none hnoise
  cases h with
  | timedOut carries readable messages stalls less =>
    exact .timedOut carries (readable.trans hall.symm) (hmessages.trans messages) (hstalls.trans stalls)
      (Nat.lt_trans less hless)
  | returned carries readable messages stalls less =>
    exact .returned carries (readable.trans hall.symm) (hmessages.trans messages) (hstalls.trans stalls)
      (Nat.lt_trans less hless)
  | raised unreadable => exact .raised fun h => unreadable (hall.mp h)
  | closed readable messages stalls =>
    exact .closed (hall.mpr readable) (hmessages.trans messages) (hstalls.trans stalls)

theorem readLine_reads (refuses : String → Bool) (limit : ℕ) {fuel : ℕ} {s : LineStream}
    {lines : List (List UInt8)} (hcarries : Carries s lines) (hfuel : s.size < fuel) :
    ∃ outcome s', readLine refuses limit fuel s = some (outcome, s') ∧ Reads refuses limit s lines outcome s' := by
  obtain ⟨fuel, rfl⟩ := Nat.exists_eq_succ_of_ne_zero (Nat.ne_zero_of_lt hfuel)
  unfold readLine
  induction lines generalizing s fuel with
  | nil =>
    obtain ⟨hbuffer, hincoming⟩ := hcarries.of_nil
    rw [hbuffer]
    rcases readline_end limit hincoming with ⟨s', hread, hrest, hstalls⟩ | ⟨hread, hstalls⟩
    · have hcall : readline limit s.buffer s.incoming = (.timeout, s') := by
        rw [hbuffer, hread]
      have hlt : s'.size < s.size := size_of_readline hcall nofun
      have hnone : Carries s' [] := ⟨hrest, hcarries.breaks⟩
      simp only [hread]
      exact ⟨_, _, rfl, .timedOut hnone Iff.rfl rfl hstalls.symm hlt⟩
    · simp only [hread]
      exact ⟨_, _, rfl, .closed (fun _ h => absurd h List.not_mem_nil) rfl hstalls⟩
  | cons line lines ih =>
    have hbytes := hcarries.remaining.trans (join_cons line lines)
    rcases readline_line limit (hcarries.breaks line List.mem_cons_self) hbytes with
      ⟨s', hread, hrest, hstalls⟩ | ⟨hfits, s', hread, hrest, hstalls⟩ | ⟨hlong, s', hread⟩
    · have hlt : s'.size < s.size := size_of_readline hread nofun
      simp only [hread]
      exact ⟨_, _, rfl, .timedOut ⟨hrest.trans (join_cons line lines).symm, hcarries.breaks⟩ Iff.rfl rfl
        hstalls.symm hlt⟩
    · have hnonempty : line ++ [newline] ≠ [] := by simp
      have hlt : s'.size < s.size := size_of_readline hread fun h => hnonempty (LineRead.line.inj h)
      simp only [hread, if_neg hnonempty]
      by_cases hreadable : Readable refuses limit line
      · rw [takeLine_readable hreadable]
        cases hjson : jsonLine line with
        | some text =>
          refine ⟨_, _, rfl, .returned (hcarries.tail hrest) ?_ (List.filterMap_cons_some hjson) hstalls.symm hlt⟩
          exact (allReadable_cons.trans (and_iff_right hreadable)).symm
        | none =>
          obtain ⟨fuel, rfl⟩ := Nat.exists_eq_succ_of_ne_zero (Nat.ne_zero_of_lt (Nat.lt_of_lt_of_le hlt
            (Nat.lt_succ_iff.mp hfuel)))
          obtain ⟨outcome, s'', hnext, hreads⟩ := ih (hcarries.tail hrest) fuel
            (Nat.lt_of_lt_of_le hlt (Nat.lt_succ_iff.mp hfuel))
          refine ⟨outcome, s'', ?_, hreads.skip hreadable hjson hstalls.symm hlt⟩
          unfold readLine
          exact hnext
      · rw [takeLine_raises hfits hreadable]
        exact ⟨_, _, rfl, .raised fun h => hreadable (allReadable_cons.mp h).1⟩
    · simp only [hread]
      exact ⟨_, _, rfl, .raised fun h => absurd (allReadable_cons.mp h).1.fits (Nat.not_le.mpr hlong)⟩

/-! ## All calls -/

/-- Either some call raises, and some line cannot be read; or the calls do what they should. -/
def SessionReads (refuses : String → Bool) (limit fuel : ℕ) (s : LineStream) (lines : List (List UInt8)) : Prop :=
  (¬ AllReadable refuses limit lines ∧
    ∀ outcomes, session refuses limit fuel s = some outcomes → ReadEnd.raised ∈ outcomes) ∨
  AllReadable refuses limit lines ∧ ∃ outcomes, session refuses limit fuel s = some outcomes ∧
    outcomes.filter (fun outcome => decide (outcome ≠ .timedOut)) =
      (lines.filterMap jsonLine).map .returned ++ [.closed] ∧
    outcomes.count .timedOut = stallsOf s.incoming

theorem SessionReads.next {refuses : String → Bool} {limit fuel : ℕ} {s s' : LineStream}
    {lines rest : List (List UInt8)} {outcome : ReadEnd} (h : SessionReads refuses limit fuel s' rest)
    (hsession : session refuses limit (fuel + 1) s = (session refuses limit fuel s').map (outcome :: ·))
    (hreadable : AllReadable refuses limit rest ↔ AllReadable refuses limit lines)
    (hmessages : (lines.filterMap jsonLine).map .returned =
      [outcome].filter (fun outcome => decide (outcome ≠ .timedOut)) ++ (rest.filterMap jsonLine).map .returned)
    (hstalls : stallsOf s.incoming = [outcome].count .timedOut + stallsOf s'.incoming) :
    SessionReads refuses limit (fuel + 1) s lines := by
  unfold SessionReads
  rw [hsession]
  rcases h with ⟨hbad, hraised⟩ | ⟨hgood, outcomes, houtcomes, hfilter, hcount⟩
  · refine Or.inl ⟨fun h => hbad (hreadable.mpr h), fun outcomes h => ?_⟩
    obtain ⟨later, hlater, rfl⟩ := Option.map_eq_some_iff.mp h
    exact List.mem_cons_of_mem _ (hraised later hlater)
  · rw [houtcomes]
    refine Or.inr ⟨hreadable.mp hgood, [outcome] ++ outcomes, rfl, ?_, ?_⟩
    · rw [List.filter_append, hfilter, hmessages, List.append_assoc]
    · rw [List.count_append, hcount, hstalls]

theorem session_reads (refuses : String → Bool) (limit : ℕ) {fuel : ℕ} {s : LineStream}
    {lines : List (List UInt8)} (hcarries : Carries s lines) (hfuel : s.size < fuel) :
    SessionReads refuses limit fuel s lines := by
  induction fuel generalizing s lines with
  | zero => exact absurd hfuel (Nat.not_lt_zero _)
  | succ fuel ih =>
    obtain ⟨outcome, s', hread, hreads⟩ := readLine_reads refuses limit hcarries (Nat.lt_succ_self s.size)
    cases hreads with
    | timedOut carries readable messages stalls less =>
      have hsession : session refuses limit (fuel + 1) s = (session refuses limit fuel s').map (.timedOut :: ·) := by
        rw [session, hread]
      refine (ih carries (Nat.lt_of_lt_of_le less (Nat.lt_succ_iff.mp hfuel))).next hsession readable ?_ ?_
      · rw [messages]
        rfl
      · rw [stalls, Nat.add_comm]
        rfl
    | @returned _ _ text carries readable messages stalls less =>
      have hsession : session refuses limit (fuel + 1) s =
          (session refuses limit fuel s').map (.returned text :: ·) := by
        rw [session, hread]
      refine (ih carries (Nat.lt_of_lt_of_le less (Nat.lt_succ_iff.mp hfuel))).next hsession readable ?_ ?_
      · rw [messages, List.filter_cons_of_pos (by simp)]
        rfl
      · rw [stalls, List.count_cons_of_ne (by simp), List.count_nil, Nat.zero_add]
    | raised unreadable =>
      refine Or.inl ⟨unreadable, fun outcomes h => ?_⟩
      rw [session, hread] at h
      obtain ⟨rest, _, rfl⟩ := Option.map_eq_some_iff.mp h
      exact List.mem_cons_self
    | closed readable messages stalls =>
      refine Or.inr ⟨readable, [.closed], ?_, ?_, ?_⟩
      · rw [session, hread]
      · rw [messages]
        rfl
      · rw [stalls]
        rfl

/-- Calls of `read_line` return exactly the messages of the output when every line of it is UTF-8, fits in the
buffer of the stream and does not exhaust `json.loads`. -/
theorem readsMessages_iff (refuses : String → Bool) (limit : ℕ) {lines : List (List UInt8)} {incoming : List Arrival}
    (hlines : ∀ line ∈ lines, newline ∉ line) (hbytes : bytesOf incoming = join lines) :
    ReadsMessages refuses limit lines incoming ↔ ∀ line ∈ lines, Readable refuses limit line := by
  have hcarries : Carries ⟨[], incoming⟩ lines := ⟨hbytes, hlines⟩
  rcases session_reads refuses limit hcarries (Nat.lt_succ_self _) with
    ⟨hbad, hraised⟩ | ⟨hgood, houtcomes⟩
  · refine ⟨?_, fun h => absurd h hbad⟩
    rintro ⟨outcomes, hsession, hfilter, _⟩
    have hmem : ReadEnd.raised ∈ outcomes.filter fun outcome => decide (outcome ≠ .timedOut) :=
      List.mem_filter.mpr ⟨hraised outcomes hsession, by decide⟩
    rw [hfilter] at hmem
    simp at hmem
  · exact ⟨fun _ => hgood, fun _ => houtcomes⟩

/-- The `limit` of a stream of `asyncio` that sets none. -/
def streamLimit : ℕ := 65536

/-- A line of a log with a byte of another encoding, and a response. -/
def latinThenResponse : List (List UInt8) := [[0xe9], [0x7b, 0x7d]]

theorem readsMessages_iff_response :
    ReadsMessages (fun _ => false) streamLimit [[0x7b, 0x7d]] [.data [0x7b], .stall, .data [0x7d, 0x0a]] := by
  refine (readsMessages_iff (fun _ => false) streamLimit (by decide) (by decide)).mpr fun line hline => ?_
  rw [List.mem_singleton] at hline
  subst hline
  exact ⟨by decide, "\x7b\x7d\n", by decide +kernel, fun _ => rfl⟩

/-- `read_line` raises at the line that is not UTF-8. -/
theorem latin_raises : ¬ ((∀ line ∈ latinThenResponse, newline ∉ line) →
    bytesOf [.data (join latinThenResponse)] = join latinThenResponse →
    ReadsMessages (fun _ => false) streamLimit latinThenResponse [.data (join latinThenResponse)]) := by
  intro h
  obtain ⟨outcomes, hsession, hfilter, _⟩ := h (by decide) (by decide)
  have hcalls : session (fun _ => false) streamLimit
      ((⟨[], [.data (join latinThenResponse)]⟩ : LineStream).size + 1) ⟨[], [.data (join latinThenResponse)]⟩ =
        some [.raised, .returned "\x7b\x7d", .closed] := by decide +kernel
  rw [hcalls] at hsession
  cases hsession
  exact absurd hfilter (by decide +kernel)

end KernelRuntime.LineReader
