import TtLive.WsClient

/-!
# Frame reassembly

What arrives on one connection, under libcurl's contract: a `DataMessage` is split into fragments, each
fragment's frame into chunks with `bytesleft > 0` on all but the last, `CURLWS_CONT` is set on all
fragments but the last, control frames may arrive before any fragment, and `CURLE_AGAIN` before any chunk.

`recv_binary` keeps control frames and data fragments in one buffer, and a control frame that is complete
clears it. `kept` is what it delivers of a message; that is the whole message exactly when no control
frame arrives once the buffer holds bytes of the message (`uncut`).
-/

namespace TtLive

/-- One chunk, and how often `CURLE_AGAIN` is returned before it. -/
structure Chunk where
  agains : Nat
  data : Bytes
deriving DecidableEq, Repr

/-- The chunks of a frame: all but the last with the positive `bytesleft` (less one) reported for it. -/
structure ChunkedFrame where
  more : List (Chunk × Nat)
  last : Chunk
deriving DecidableEq, Repr

inductive ControlKind
  | ping
  | pong
deriving DecidableEq, Repr

def ControlKind.flags : ControlKind → WsFlags
  | ping => { ping := true }
  | pong => { pong := true }

/-- A fragment of a data message, with the control frames that arrive before it. -/
structure Fragment where
  controls : List (ControlKind × ChunkedFrame)
  frame : ChunkedFrame
deriving DecidableEq, Repr

structure DataMessage where
  text : Bool
  init : List Fragment
  last : Fragment
deriving DecidableEq, Repr

/-- Everything that arrives on a connection. -/
structure Arrivals where
  messages : List DataMessage
  controls : List (ControlKind × ChunkedFrame)
  agains : Nat
deriving DecidableEq, Repr

def Chunk.calls (fl : WsFlags) (c : Chunk) (bytesleft : Nat) : List CurlRecv :=
  List.replicate c.agains .again ++ [.chunk c.data (some ⟨fl, bytesleft⟩)]

namespace ChunkedFrame

def payload (f : ChunkedFrame) : Bytes := f.more.flatMap (fun c => c.1.data) ++ f.last.data

/-- The results of the `curl_ws_recv` calls that read the frame. -/
def calls (fl : WsFlags) (f : ChunkedFrame) : List CurlRecv :=
  f.more.flatMap (fun c => c.1.calls fl (c.2 + 1)) ++ f.last.calls fl 0

end ChunkedFrame

def control_calls (controls : List (ControlKind × ChunkedFrame)) : List CurlRecv :=
  controls.flatMap fun c => c.2.calls c.1.flags

def Fragment.calls (fl : WsFlags) (f : Fragment) : List CurlRecv :=
  control_calls f.controls ++ f.frame.calls fl

namespace DataMessage

def flags (m : DataMessage) : WsFlags := { text := m.text, binary := !m.text }

def fragments (m : DataMessage) : List Fragment := m.init ++ [m.last]

def payload (m : DataMessage) : Bytes := m.fragments.flatMap fun f => f.frame.payload

def calls (m : DataMessage) : List CurlRecv :=
  m.init.flatMap (Fragment.calls { m.flags with cont := true }) ++ m.last.calls m.flags

end DataMessage

def Arrivals.calls (a : Arrivals) : List CurlRecv :=
  a.messages.flatMap DataMessage.calls ++ control_calls a.controls ++ List.replicate a.agains .again

/-- `buf` holds bytes of the current message: no control frame may arrive before the fragments `fs`. -/
def uncutFrom (buf : Bytes) : List Fragment → Prop
  | [] => True
  | f :: fs => (f.controls = [] ∨ buf = []) ∧ uncutFrom (buf ++ f.frame.payload) fs

/-- No control frame arrives after bytes of the message and before its end. -/
def DataMessage.uncut (m : DataMessage) : Prop := uncutFrom [] m.fragments

instance (buf : Bytes) (fs : List Fragment) : Decidable (uncutFrom buf fs) := by
  induction fs generalizing buf with
  | nil => exact inferInstanceAs (Decidable True)
  | cons f fs ih => exact @instDecidableAnd _ _ _ (ih _)

/-- What `recv_binary` has in its buffer after the fragments `fs`. -/
def keptFrom (buf : Bytes) : List Fragment → Bytes
  | [] => buf
  | f :: fs => keptFrom ((if f.controls = [] then buf else []) ++ f.frame.payload) fs

def DataMessage.kept (m : DataMessage) : Bytes := keptFrom [] m.fragments

/-! ### Kept and sent -/

theorem keptFrom_append (buf : Bytes) (fs gs : List Fragment) :
    keptFrom buf (fs ++ gs) = keptFrom (keptFrom buf fs) gs := by
  induction fs generalizing buf with
  | nil => rfl
  | cons f fs ih => exact ih _

/-- The buffer is a suffix of what was sent. -/
theorem keptFrom_suffix (buf : Bytes) (fs : List Fragment) :
    keptFrom buf fs <:+ buf ++ fs.flatMap fun f => f.frame.payload := by
  induction fs generalizing buf with
  | nil => simp [keptFrom]
  | cons f fs ih =>
    refine (ih _).trans ?_
    rw [List.flatMap_cons]
    split
    · simp
    · exact ⟨buf, by simp⟩

theorem keptFrom_eq_iff (buf : Bytes) (fs : List Fragment) :
    keptFrom buf fs = (buf ++ fs.flatMap fun f => f.frame.payload) ↔ uncutFrom buf fs := by
  induction fs generalizing buf with
  | nil => simp [keptFrom, uncutFrom]
  | cons f fs ih =>
    rw [keptFrom, uncutFrom, List.flatMap_cons, ← List.append_assoc]
    by_cases hc : f.controls = []
    · rw [if_pos hc, ih]; simp [hc]
    · simp only [hc, false_or, if_false, List.nil_append]
      constructor
      · -- the bytes in `buf` are lost, so the lengths agree only if there were none
        intro h
        have hlen := (keptFrom_suffix f.frame.payload fs).length_le
        rw [h] at hlen
        simp only [List.length_append] at hlen
        have hb : buf = [] := List.length_eq_zero_iff.1 (by omega)
        subst hb
        exact ⟨rfl, (ih _).1 h⟩
      · rintro ⟨rfl, h⟩
        exact (ih _).2 h

theorem DataMessage.kept_suffix (m : DataMessage) : m.kept <:+ m.payload := keptFrom_suffix [] _

theorem DataMessage.kept_eq_iff (m : DataMessage) : m.kept = m.payload ↔ m.uncut :=
  keptFrom_eq_iff [] _

/-- Lists of suffixes: with the empty ones dropped on both sides, they agree only elementwise. -/
theorem filter_suffixes_eq_iff {δ : Type} {f g : δ → Bytes} (l : List δ) (h : ∀ x ∈ l, f x <:+ g x) :
    (l.map f).filter (· ≠ []) = (l.map g).filter (· ≠ []) ↔ ∀ x ∈ l, f x = g x := by
  constructor
  · intro heq
    have hsum := congrArg List.length (congrArg List.flatten heq)
    rw [List.flatten_filter_ne_nil, List.flatten_filter_ne_nil] at hsum
    clear heq
    have hle : ∀ l : List δ, (∀ x ∈ l, f x <:+ g x) →
        (l.map f).flatten.length ≤ (l.map g).flatten.length := by
      intro l h
      induction l with
      | nil => simp
      | cons x l ih =>
        have := (h x (by simp)).length_le
        have := ih fun y hy => h y (by simp [hy])
        simp only [List.map_cons, List.flatten_cons, List.length_append]; omega
    induction l with
    | nil => simp
    | cons x l ih =>
      have hx := h x (by simp)
      have hl : ∀ y ∈ l, f y <:+ g y := fun y hy => h y (by simp [hy])
      have h₁ := hx.length_le
      have h₂ := hle l hl
      simp only [List.map_cons, List.flatten_cons, List.length_append] at hsum
      intro y hy
      rcases List.mem_cons.1 hy with rfl | hy
      · exact hx.eq_of_length (by omega)
      · exact ih hl (by omega) y hy
  · intro heq
    rw [List.map_congr_left heq]

/-! ### What `recv_binary` does with them -/

namespace WsClient

/-- An open connection with `buf` in the reassembly buffer. -/
def opened (hdrs : List Bytes) (buf : Bytes) : WsClient := ⟨true, hdrs, buf, true⟩

/-- The state and the delivered payloads after the calls `cs`. -/
def recv_all (c : WsClient) : List CurlRecv → WsClient × List Bytes
  | [] => (c, [])
  | r :: cs =>
    let s := c.recv_binary r []
    let rest := s.2.2.recv_all cs
    (rest.1, (if s.1 = .Message then [s.2.1] else []) ++ rest.2)

theorem recv_all_append (c : WsClient) (as bs : List CurlRecv) :
    c.recv_all (as ++ bs) =
      (((c.recv_all as).1.recv_all bs).1, (c.recv_all as).2 ++ ((c.recv_all as).1.recv_all bs).2) := by
  induction as generalizing c with
  | nil => rfl
  | cons r as ih => simp [recv_all, ih]

theorem messages_recv (c : WsClient) (cs : List CurlRecv) :
    c.messages (cs.map .recv) = (c.recv_all cs).2 := by
  induction cs generalizing c with
  | nil => rfl
  | cons r cs ih =>
    have h := ih (c.recv_binary r []).2.2
    unfold messages at h ⊢
    simp only [List.map_cons, results, List.filterMap_cons, step, h, recv_all]
    split <;> simp_all

variable {hdrs : List Bytes} {buf : Bytes}

theorem recv_all_agains (n : Nat) :
    (opened hdrs buf).recv_all (List.replicate n .again) = (opened hdrs buf, []) := by
  induction n with
  | zero => rfl
  | succ n ih =>
    rw [List.replicate_succ, recv_all]
    simp [recv_binary, opened] at ih ⊢
    simp [ih]

/-- A chunk that is not the last of its frame is appended to the buffer. -/
theorem recv_all_more (fl : WsFlags) (hfl : fl.close = false) (c : Chunk) (n : Nat) :
    (opened hdrs buf).recv_all (c.calls fl (n + 1)) = (opened hdrs (buf ++ c.data), []) := by
  rw [Chunk.calls, recv_all_append, recv_all_agains]
  simp [recv_all, recv_binary, opened, hfl]

theorem recv_all_mores (fl : WsFlags) (hfl : fl.close = false) (cs : List (Chunk × Nat)) :
    (opened hdrs buf).recv_all (cs.flatMap fun c => c.1.calls fl (c.2 + 1)) =
      (opened hdrs (buf ++ cs.flatMap fun c => c.1.data), []) := by
  induction cs generalizing buf with
  | nil => simp [recv_all]
  | cons c cs ih =>
    rw [List.flatMap_cons, recv_all_append, recv_all_more fl hfl, ih]
    simp [List.append_assoc]

/-- A complete frame of a fragment that is not the last is appended to the buffer. -/
theorem recv_all_cont (fl : WsFlags) (hfl : fl.close = false) (f : ChunkedFrame) :
    (opened hdrs buf).recv_all (f.calls { fl with cont := true }) = (opened hdrs (buf ++ f.payload), []) := by
  rw [ChunkedFrame.calls, recv_all_append, recv_all_mores _ (by exact hfl), Chunk.calls, recv_all_append,
    recv_all_agains]
  simp [recv_all, recv_binary, opened, hfl, ChunkedFrame.payload]

/-- A complete control frame clears the buffer. -/
theorem recv_all_control (k : ControlKind) (f : ChunkedFrame) :
    (opened hdrs buf).recv_all (f.calls k.flags) = (opened hdrs [], []) := by
  have hfl : k.flags.close = false := by cases k <;> rfl
  rw [ChunkedFrame.calls, recv_all_append, recv_all_mores _ hfl, Chunk.calls, recv_all_append,
    recv_all_agains]
  cases k <;> simp [recv_all, recv_binary, opened, ControlKind.flags]

theorem recv_all_controls (cs : List (ControlKind × ChunkedFrame)) :
    (opened hdrs buf).recv_all (control_calls cs) = (opened hdrs (if cs = [] then buf else []), []) := by
  induction cs generalizing buf with
  | nil => rfl
  | cons c cs ih =>
    rw [control_calls, List.flatMap_cons, recv_all_append, recv_all_control]
    have h := @ih []
    rw [control_calls] at h
    simp [h]

theorem recv_binary_final (m : DataMessage) (data : Bytes) :
    (opened hdrs buf).recv_binary (.chunk data (some ⟨m.flags, 0⟩)) [] =
      (if buf ++ data = [] then .Again else .Message, buf ++ data, opened hdrs []) := by
  have hbt : (m.flags.binary || m.flags.text) = true := by cases h : m.text <;> simp [DataMessage.flags, h]
  have hcl : m.flags.close = false := rfl
  have hco : m.flags.cont = false := rfl
  simp [recv_binary, opened, hbt, hcl, hco]

/-- The last frame of a message delivers the buffer, unless it is empty. -/
theorem recv_all_final (m : DataMessage) (f : ChunkedFrame) :
    (opened hdrs buf).recv_all (f.calls m.flags) =
      (opened hdrs [], [buf ++ f.payload].filter (· ≠ [])) := by
  rw [ChunkedFrame.calls, recv_all_append, recv_all_mores _ rfl, Chunk.calls, recv_all_append,
    recv_all_agains]
  have hp : buf ++ (f.more.flatMap fun c => c.1.data) ++ f.last.data = buf ++ f.payload := by
    simp [ChunkedFrame.payload]
  simp only [List.append_nil, recv_all, recv_binary_final, hp]
  by_cases he : buf ++ f.payload = [] <;> simp [he]

theorem recv_all_fragments (fl : WsFlags) (hfl : fl.close = false) (fs : List Fragment) :
    (opened hdrs buf).recv_all (fs.flatMap (Fragment.calls { fl with cont := true })) =
      (opened hdrs (keptFrom buf fs), []) := by
  induction fs generalizing buf with
  | nil => rfl
  | cons f fs ih =>
    rw [List.flatMap_cons, recv_all_append, Fragment.calls, recv_all_append, recv_all_controls,
      recv_all_cont _ hfl, ih]
    rfl

theorem recv_all_message (m : DataMessage) :
    (opened hdrs []).recv_all m.calls = (opened hdrs [], [m.kept].filter (· ≠ [])) := by
  rw [DataMessage.calls, recv_all_append, recv_all_fragments _ rfl, Fragment.calls, recv_all_append,
    recv_all_controls, recv_all_final]
  simp only [DataMessage.kept, DataMessage.fragments, keptFrom_append, List.nil_append]
  rfl

theorem recv_all_messages (ms : List DataMessage) :
    (opened hdrs []).recv_all (ms.flatMap DataMessage.calls) =
      (opened hdrs [], (ms.map DataMessage.kept).filter (· ≠ [])) := by
  induction ms with
  | nil => rfl
  | cons m ms ih =>
    rw [List.flatMap_cons, recv_all_append, recv_all_message, ih, List.map_cons,
      ← List.singleton_append (l := ms.map _), List.filter_append]

/-- `recv_binary` delivers of every message what `kept` says, and nothing else. -/
theorem messages_arrivals (a : Arrivals) :
    (opened hdrs []).messages (a.calls.map .recv) = (a.messages.map DataMessage.kept).filter (· ≠ []) := by
  rw [messages_recv, Arrivals.calls, recv_all_append, recv_all_append, recv_all_messages,
    recv_all_controls, recv_all_agains]
  simp

/-- The delivered payloads are exactly the non-empty messages, byte for byte and in order, if and only if
no control frame arrives between the first byte of a message and its last fragment. -/
theorem reassembly_exact_iff (hdrs : List Bytes) (a : Arrivals) :
    (opened hdrs []).messages (a.calls.map .recv) = (a.messages.map DataMessage.payload).filter (· ≠ []) ↔
      ∀ m ∈ a.messages, m.uncut := by
  rw [messages_arrivals, filter_suffixes_eq_iff _ fun m _ => m.kept_suffix]
  exact forall₂_congr fun m _ => m.kept_eq_iff

/-- A ping between two fragments removes the first fragment from the delivered message. -/
theorem ping_cuts_message :
    ¬ ∀ a : Arrivals, (opened [] []).messages (a.calls.map .recv) =
      (a.messages.map DataMessage.payload).filter (· ≠ []) := by
  intro h
  have := h ⟨[⟨false, [⟨[], ⟨[], ⟨0, [0x41]⟩⟩⟩], ⟨[(.ping, ⟨[], ⟨0, []⟩⟩)], ⟨[], ⟨0, [0x42]⟩⟩⟩⟩], [], 0⟩
  revert this
  decide

end WsClient

end TtLive
