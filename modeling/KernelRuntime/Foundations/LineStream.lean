import Mathlib.Data.List.Basic
import Mathlib.Tactic.Common

/-! # Lines from a stream

`StreamReader.readline` of `asyncio`: the bytes arrive in chunks, with pauses that a reader may not wait out, and
a line longer than the limit of the stream is an error. `remaining` is what is still to be read, however it
arrives; the rules say what a read does in terms of it. -/

namespace KernelRuntime
set_option autoImplicit false

/-- What comes next: some bytes, or a pause in which a read times out. -/
inductive Arrival where
  | data (bytes : List UInt8)
  | stall
deriving DecidableEq

/-- A stream that ends after its arrivals. -/
structure LineStream where
  buffer : List UInt8
  incoming : List Arrival
deriving DecidableEq

/-- How a read ends. A line has its line break, unless it is what is left at the end of the stream. -/
inductive LineRead where
  | line (bytes : List UInt8)
  | timeout
  | overlong
deriving DecidableEq

def newline : UInt8 := 10

/-- The bytes before the first line break, and those after it. -/
def cutLine : List UInt8 → Option (List UInt8 × List UInt8)
  | [] => none
  | b :: bytes => if b = newline then some ([], bytes) else (cutLine bytes).map fun r => (b :: r.1, r.2)

/-- `readline`. -/
def readline (limit : ℕ) (buffer : List UInt8) (incoming : List Arrival) : LineRead × LineStream :=
  match cutLine buffer with
  | some (line, rest) =>
    if limit < line.length then (.overlong, ⟨rest, incoming⟩) else (.line (line ++ [newline]), ⟨rest, incoming⟩)
  | none =>
    if limit < buffer.length then (.overlong, ⟨[], incoming⟩)
    else
      match incoming with
      | [] => (.line buffer, ⟨[], []⟩)
      | .data bytes :: incoming => readline limit (buffer ++ bytes) incoming
      | .stall :: incoming => (.timeout, ⟨buffer, incoming⟩)

namespace LineStream

def bytesOf : List Arrival → List UInt8
  | [] => []
  | .data bytes :: incoming => bytes ++ bytesOf incoming
  | .stall :: incoming => bytesOf incoming

def stallsOf (incoming : List Arrival) : ℕ := incoming.count .stall

/-- The bytes that were not read yet. -/
def remaining (s : LineStream) : List UInt8 := s.buffer ++ bytesOf s.incoming

/-- What is left to do: every read that does not end the stream makes it less. -/
def size (s : LineStream) : ℕ := s.remaining.length + s.incoming.length

/-- `lines`, each with a line break. -/
def join (lines : List (List UInt8)) : List UInt8 := (lines.map (· ++ [newline])).flatten

@[simp] theorem join_nil : join [] = [] := rfl

theorem join_cons (line : List UInt8) (lines : List (List UInt8)) :
    join (line :: lines) = line ++ newline :: join lines := by
  simp [join]

/-! ## Line breaks -/

theorem cutLine_eq_some {bytes line rest : List UInt8} (h : cutLine bytes = some (line, rest)) :
    bytes = line ++ newline :: rest ∧ newline ∉ line := by
  induction bytes generalizing line with
  | nil => cases h
  | cons b bytes ih =>
    unfold cutLine at h
    split_ifs at h with hb
    · cases h
      exact ⟨by rw [hb]; rfl, List.not_mem_nil⟩
    · obtain ⟨⟨line', rest'⟩, hcut, heq⟩ := Option.map_eq_some_iff.mp h
      obtain ⟨rfl, rfl⟩ := Prod.mk.inj heq
      obtain ⟨hbytes, hline⟩ := ih hcut
      refine ⟨by rw [hbytes]; rfl, ?_⟩
      rw [List.mem_cons, not_or]
      exact ⟨fun h => hb h.symm, hline⟩

theorem cutLine_eq_none {bytes : List UInt8} (h : cutLine bytes = none) : newline ∉ bytes := by
  induction bytes with
  | nil => exact List.not_mem_nil
  | cons b bytes ih =>
    unfold cutLine at h
    split_ifs at h with hb
    rw [List.mem_cons, not_or]
    exact ⟨fun h => hb h.symm, ih (Option.map_eq_none_iff.mp h)⟩

/-- A first line can be cut off in one way. -/
theorem append_newline_inj {line line' rest rest' : List UInt8} (hline : newline ∉ line) (hline' : newline ∉ line')
    (h : line ++ newline :: rest = line' ++ newline :: rest') : line = line' ∧ rest = rest' := by
  induction line generalizing line' with
  | nil =>
    cases line' with
    | nil => exact ⟨rfl, (List.cons.inj h).2⟩
    | cons b line' =>
      obtain ⟨rfl, _⟩ := List.cons.inj h
      exact absurd List.mem_cons_self hline'
  | cons b line ih =>
    rw [List.mem_cons, not_or] at hline
    cases line' with
    | nil =>
      obtain ⟨rfl, _⟩ := List.cons.inj h
      exact absurd rfl hline.1
    | cons b' line' =>
      obtain ⟨rfl, htail⟩ := List.cons.inj h
      rw [List.mem_cons, not_or] at hline'
      obtain ⟨rfl, hrest⟩ := ih hline.2 hline'.2 htail
      exact ⟨rfl, hrest⟩

/-- Bytes without a line break that a line starts with are part of it. -/
theorem length_le_of_prefix {bytes more line tail : List UInt8} (hbytes : newline ∉ bytes)
    (h : bytes ++ more = line ++ newline :: tail) : bytes.length ≤ line.length := by
  rcases List.append_eq_append_iff.mp h with ⟨rest, hline, _⟩ | ⟨rest, hsplit, hmore⟩
  · rw [hline, List.length_append]
    omega
  · cases rest with
    | nil => simp [hsplit]
    | cons b rest =>
      obtain ⟨hb, _⟩ := List.cons.inj hmore
      rw [hsplit, ← hb] at hbytes
      exact absurd (List.mem_append_right _ List.mem_cons_self) hbytes

/-! ## What a read does -/

theorem readline_cut {buffer : List UInt8} {r : List UInt8 × List UInt8} (hcut : cutLine buffer = some r) (limit : ℕ)
    (incoming : List Arrival) : readline limit buffer incoming =
      (if limit < r.1.length then .overlong else .line (r.1 ++ [newline]), ⟨r.2, incoming⟩) := by
  rw [readline.eq_def, hcut]
  by_cases hlimit : limit < r.1.length
  · simp only [if_pos hlimit]
  · simp only [if_neg hlimit]

/-- A line that is in the buffer is taken from it, unless it is too long. -/
theorem readline_line_of_cut (limit : ℕ) {line tail : List UInt8} (hline : newline ∉ line) {buffer : List UInt8}
    {r : List UInt8 × List UInt8} (hcut : cutLine buffer = some r) {incoming : List Arrival}
    (h : (⟨buffer, incoming⟩ : LineStream).remaining = line ++ newline :: tail) :
    (line.length ≤ limit ∧ ∃ s, readline limit buffer incoming = (.line (line ++ [newline]), s) ∧
      s.remaining = tail ∧ stallsOf s.incoming = stallsOf incoming) ∨
    limit < line.length ∧ ∃ s, readline limit buffer incoming = (.overlong, s) := by
  obtain ⟨hsplit, hr⟩ := cutLine_eq_some hcut
  have hwhole : r.1 ++ newline :: (r.2 ++ bytesOf incoming) = line ++ newline :: tail := by
    rw [← h, remaining, hsplit]
    simp
  obtain ⟨hfirst, hrest⟩ := append_newline_inj hr hline hwhole
  rw [readline_cut hcut, hfirst]
  by_cases hlimit : limit < line.length
  · rw [if_pos hlimit]
    exact Or.inr ⟨hlimit, _, rfl⟩
  · rw [if_neg hlimit]
    exact Or.inl ⟨Nat.not_lt.mp hlimit, _, rfl, hrest, rfl⟩

/-- A read while a line is to come: it times out, or takes the line, or the line is too long. -/
theorem readline_line (limit : ℕ) {line tail : List UInt8} (hline : newline ∉ line) {buffer : List UInt8}
    {incoming : List Arrival} (h : (⟨buffer, incoming⟩ : LineStream).remaining = line ++ newline :: tail) :
    (∃ s, readline limit buffer incoming = (.timeout, s) ∧ s.remaining = line ++ newline :: tail ∧
      stallsOf s.incoming + 1 = stallsOf incoming) ∨
    (line.length ≤ limit ∧ ∃ s, readline limit buffer incoming = (.line (line ++ [newline]), s) ∧
      s.remaining = tail ∧ stallsOf s.incoming = stallsOf incoming) ∨
    limit < line.length ∧ ∃ s, readline limit buffer incoming = (.overlong, s) := by
  induction incoming generalizing buffer with
  | nil =>
    have hbuffer : buffer = line ++ newline :: tail := by simpa [remaining, bytesOf] using h
    cases hcut : cutLine buffer with
    | some r => exact Or.inr (readline_line_of_cut limit hline hcut h)
    | none =>
      rw [hbuffer] at hcut
      exact absurd (List.mem_append_right _ List.mem_cons_self) (cutLine_eq_none hcut)
  | cons arrival incoming ih =>
    cases hcut : cutLine buffer with
    | some r => exact Or.inr (readline_line_of_cut limit hline hcut h)
    | none =>
      unfold readline
      rw [hcut]
      have hlength : buffer.length ≤ line.length := length_le_of_prefix (cutLine_eq_none hcut) h
      by_cases hlimit : limit < buffer.length
      · simp only [if_pos hlimit]
        exact Or.inr (Or.inr ⟨by omega, _, rfl⟩)
      · simp only [if_neg hlimit]
        cases arrival with
        | data bytes =>
          have hnext : (⟨buffer ++ bytes, incoming⟩ : LineStream).remaining = line ++ newline :: tail := by
            rw [← h]
            simp [remaining, bytesOf]
          exact ih hnext
        | stall => exact Or.inl ⟨_, rfl, h, List.count_cons_self.symm⟩

theorem readline_end (limit : ℕ) {incoming : List Arrival} (h : bytesOf incoming = []) :
    (∃ s, readline limit [] incoming = (.timeout, s) ∧ s.remaining = [] ∧
      stallsOf s.incoming + 1 = stallsOf incoming) ∨
    readline limit [] incoming = (.line [], ⟨[], []⟩) ∧ stallsOf incoming = 0 := by
  induction incoming with
  | nil => exact Or.inr ⟨by simp [readline, cutLine], rfl⟩
  | cons arrival incoming ih =>
    cases arrival with
    | data bytes =>
      obtain ⟨rfl, hrest⟩ := List.append_eq_nil_iff.mp h
      have hskip : readline limit [] (.data [] :: incoming) = readline limit [] incoming := by
        rw [readline]
        simp [cutLine]
      rw [hskip]
      exact ih hrest
    | stall =>
      refine Or.inl ⟨⟨[], incoming⟩, ?_, ?_, List.count_cons_self.symm⟩
      · rw [readline]
        simp [cutLine]
      · exact h

theorem size_cut {buffer : List UInt8} {r : List UInt8 × List UInt8} (hcut : cutLine buffer = some r)
    (incoming : List Arrival) :
    (⟨r.2, incoming⟩ : LineStream).size < (⟨buffer, incoming⟩ : LineStream).size := by
  have hlength := congrArg List.length (cutLine_eq_some hcut).1
  rw [List.length_append, List.length_cons] at hlength
  simp only [size, remaining, List.length_append]
  omega

/-- Every read but the one at the end of the stream gets on. -/
theorem size_readline (limit : ℕ) (buffer : List UInt8) (incoming : List Arrival) :
    (readline limit buffer incoming).1 = .line [] ∨
      (readline limit buffer incoming).2.size < (⟨buffer, incoming⟩ : LineStream).size := by
  induction incoming generalizing buffer with
  | nil =>
    cases hcut : cutLine buffer with
    | some r =>
      rw [readline_cut hcut]
      exact Or.inr (size_cut hcut [])
    | none =>
      unfold readline
      rw [hcut]
      cases buffer with
      | nil => simp
      | cons b buffer =>
        right
        simp only
        split_ifs <;> simp [size, remaining, bytesOf]
  | cons arrival incoming ih =>
    cases hcut : cutLine buffer with
    | some r =>
      rw [readline_cut hcut]
      exact Or.inr (size_cut hcut _)
    | none =>
      unfold readline
      rw [hcut]
      by_cases hlimit : limit < buffer.length
      · simp only [if_pos hlimit]
        right
        simp [size, remaining]
        omega
      · simp only [if_neg hlimit]
        cases arrival with
        | data bytes =>
          refine (ih (buffer ++ bytes)).imp id fun hlt => ?_
          have hsame : (⟨buffer, .data bytes :: incoming⟩ : LineStream).size =
              (⟨buffer ++ bytes, incoming⟩ : LineStream).size + 1 := by
            simp [size, remaining, bytesOf]
            omega
          exact Nat.lt_trans hlt (hsame ▸ Nat.lt_succ_self _)
        | stall =>
          right
          simp [size, remaining, bytesOf]

theorem size_of_readline {limit : ℕ} {buffer : List UInt8} {incoming : List Arrival} {read : LineRead}
    {s : LineStream} (h : readline limit buffer incoming = (read, s)) (hread : read ≠ .line []) :
    s.size < (⟨buffer, incoming⟩ : LineStream).size := by
  rcases size_readline limit buffer incoming with hend | hless
  · rw [h] at hend
    exact absurd hend hread
  · rwa [h] at hless

end LineStream
end KernelRuntime
